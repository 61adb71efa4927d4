import OmarchyAne.Libane.Ports
import Mathlib.Logic.Relation

/-!
# The task stream as it stands in a file

The engine reads the stream from its start.  A frame whose word count is zero
is filler of 16 bytes, any other frame is a task that ends at the next 16-byte
boundary (`Next`).  A task is a frame that this walk visits (`IsTask`), and
its records follow each other from word 8 or 9 on (`ReachesRecord`).

`split_h14_tasks` finds exactly these tasks (`mem_splitH14Tasks`), and the
loop of `check_bound_slots` sees every record of them (`checkRecords_bound`).
-/

namespace OmarchyAne.Libane

open Lib

variable {stream : List UInt8} {t : Task} {tasks acc : List Task} {cap fuel off idx : Nat}
  {m : Model} {krnSize last : Nat}

/-! ## Tasks -/

/-- The word count of the frame at `off`. -/
def frameWords (stream : List UInt8) (off : Nat) : Nat :=
  le16 stream (off + 2) &&& 0x7ff

/-- The frame behind the frame at `off`. -/
inductive Next (stream : List UInt8) (off : Nat) : Nat → Prop where
  | filler (hfit : off + 4 ≤ stream.length)
      (hwords : frameWords stream off = 0) :
      Next stream off (off + frameBytes)
  | task (hfit : off + 4 ≤ stream.length)
      (hwords : frameWords stream off ≠ 0) :
      Next stream off ((off + frameWords stream off * 4 + 15) / 16 * 16)

/-- The walk from one frame reaches another. -/
def Reaches (stream : List UInt8) : Nat → Nat → Prop :=
  Relation.ReflTransGen (Next stream)

/-- There is a task at this place. -/
structure TaskAt (stream : List UInt8) (t : Task) : Prop where
  fit : t.off + 4 ≤ stream.length
  words : t.words = frameWords stream t.off
  pos : t.words ≠ 0

/-- A task of the stream. -/
structure IsTask (stream : List UInt8) (t : Task) : Prop
    extends TaskAt stream t where
  visited : Reaches stream 0 t.off

theorem Reaches.fit (h : Reaches stream off t.off) (ht : TaskAt stream t) :
    off + 4 ≤ stream.length := by
  obtain heq | ⟨_, hnext, -⟩ := Relation.ReflTransGen.cases_head h
  · rw [heq]
    exact ht.fit
  · cases hnext with
    | filler hfit => exact hfit
    | task hfit => exact hfit

/-- From a filler frame a task is reached through the frame behind it. -/
theorem Reaches.behind_filler (h : Reaches stream off t.off)
    (ht : TaskAt stream t) (hwords : frameWords stream off = 0) :
    Reaches stream (off + frameBytes) t.off := by
  obtain heq | ⟨_, hnext, hrest⟩ := Relation.ReflTransGen.cases_head h
  · exact absurd (ht.words.trans (heq ▸ hwords)) ht.pos
  · cases hnext with
    | filler => exact hrest
    | task _ hne => exact absurd hwords hne

/-- From a task another one is reached through the frame behind it. -/
theorem Reaches.behind_task (h : Reaches stream off t.off)
    (ht : TaskAt stream t) (hwords : frameWords stream off ≠ 0) :
    t = { off := off, words := frameWords stream off } ∨
      Reaches stream ((off + frameWords stream off * 4 + 15) / 16 * 16)
        t.off := by
  obtain heq | ⟨_, hnext, hrest⟩ := Relation.ReflTransGen.cases_head h
  · obtain ⟨toff, twords⟩ := t
    have hw := ht.words
    obtain rfl : off = toff := heq
    exact .inl (congrArg (Task.mk off) hw)
  · cases hnext with
    | filler _ hzero => exact absurd hzero hwords
    | task => exact .inr hrest

/-- The loop keeps what it has and adds the tasks that it reaches. -/
theorem mem_splitLoop (h : splitLoop stream stream.length cap fuel off acc = .ok tasks)
    (hfuel : stream.length ≤ off + fuel) :
    t ∈ tasks ↔ t ∈ acc ∨ TaskAt stream t ∧ Reaches stream off t.off := by
  -- A frame that does not fit is the end of the walk.
  have hend : ∀ {o}, stream.length < o + 4 →
      ¬ (TaskAt stream t ∧ Reaches stream o t.off) := by
    rintro o ho ⟨ht, hreach⟩
    have := hreach.fit ht
    omega
  induction fuel generalizing off acc with
  | zero =>
    cases h
    simp only [hend (o := off) (by omega), or_false]
  | succ fuel ih =>
    rw [splitLoop] at h
    split at h
    case isTrue hpast =>
      cases h
      simp only [hend (o := off) (by omega), or_false]
    split at h
    case isTrue hshort =>
      split at h
      · exact absurd h (by simp [fail])
      · cases h
        simp only [hend (o := off) (by omega), or_false]
    simp only [show le16 stream (off + 2) &&& 0x7ff = frameWords stream off from rfl] at h
    -- The loop stops at the end of the stream, where the walk has no task.
    have hmin : ∀ {o}, off < o → (TaskAt stream t ∧ Reaches stream (min o stream.length) t.off ↔
        TaskAt stream t ∧ Reaches stream o t.off) := by
      intro o _
      rcases Nat.le_total o stream.length with hle | hle
      · rw [Nat.min_eq_left hle]
      · rw [Nat.min_eq_right hle]
        simp only [hend (o := stream.length) (by omega), hend (o := o) (by omega)]
    split at h
    case isTrue hzero =>
      refine (ih h (by unfold frameBytes; omega)).trans ?_
      rw [hmin (by unfold frameBytes; omega)]
      refine or_congr_right (and_congr_right (fun ht => ⟨fun hr => ?_,
        fun hr => hr.behind_filler ht hzero⟩))
      exact .head (.filler (by omega) hzero) hr
    split at h
    · exact absurd h (by simp [fail])
    split at h
    · exact absurd h (by simp [fail])
    split at h
    · exact absurd h (by simp [fail])
    split at h
    · exact absurd h (by simp [fail])
    case isFalse hzero _ _ _ _ =>
      refine (ih h (by omega)).trans ?_
      rw [hmin (by omega), List.mem_append, List.mem_singleton, or_assoc]
      refine or_congr_right ⟨?_, ?_⟩
      · rintro (rfl | ⟨ht, hr⟩)
        · exact ⟨⟨by show off + 4 ≤ _; omega, rfl, hzero⟩, .refl⟩
        · exact ⟨ht, .head (.task (by omega) hzero) hr⟩
      · rintro ⟨ht, hr⟩
        exact (hr.behind_task ht hzero).imp id (fun hr => ⟨ht, hr⟩)

/-- The split finds the tasks of the stream. -/
theorem mem_splitH14Tasks (h : splitH14Tasks stream cap = .ok tasks) :
    t ∈ tasks ↔ IsTask stream t := by
  rw [mem_splitLoop h (by omega)]
  simp only [List.not_mem_nil, false_or]
  exact ⟨fun ⟨ht, hr⟩ => { ht with visited := hr },
    fun ht => ⟨ht.toTaskAt, ht.visited⟩⟩

/-! ## Records -/

/-- The header word of the record at word `idx` of a task. -/
def recordHeader (stream : List UInt8) (t : Task) (idx : Nat) : Nat :=
  le32 stream (t.off + idx * 4)

/-- The BAR slot that a record names. -/
def recordSlot (stream : List UInt8) (t : Task) (idx : Nat) : Nat :=
  recordHeader stream t idx >>> 23 &&& 0x3f

/-- The 64-bit offset of a record: its first payload word, and the second one
as the high half. -/
def recordOffset (stream : List UInt8) (t : Task) (idx : Nat) : Nat :=
  le32 stream (t.off + (idx + 1) * 4) |||
    if 1 < recordWords (recordHeader stream t idx) then
      le32 stream (t.off + (idx + 2) * 4) <<< 32
    else 0

/-- The record behind a record. -/
def NextRecord (stream : List UInt8) (t : Task) (idx next : Nat) : Prop :=
  idx < t.words ∧ next = idx + 1 + recordWords (recordHeader stream t idx)

/-- The walk over the records of a task reaches one from another. -/
def ReachesRecord (stream : List UInt8) (t : Task) : Nat → Nat → Prop :=
  Relation.ReflTransGen (NextRecord stream t)

/-- A reference to a BAR slot in some task of the stream. -/
structure BarRecord (stream : List UInt8) (t : Task) (idx : Nat) : Prop where
  task : IsTask stream t
  visited : ReachesRecord stream t (firstRecord stream t.off) idx
  inside : idx < t.words
  bar : isBarRef (recordHeader stream t idx) = true

theorem ReachesRecord.cases (h : ReachesRecord stream t idx last) :
    last = idx ∨ idx < t.words ∧ ReachesRecord stream t
      (idx + 1 + recordWords (recordHeader stream t idx)) last := by
  obtain heq | ⟨_, ⟨hlt, rfl⟩, hrest⟩ := Relation.ReflTransGen.cases_head h
  · exact .inl heq.symm
  · exact .inr ⟨hlt, hrest⟩

/-- The record loop of `check_bound_slots` sees every record. -/
theorem checkRecords_bound (h : checkRecords stream m krnSize t.off t.words fuel idx = .ok ())
    (hfuel : t.words ≤ idx + fuel)
    (hreach : ReachesRecord stream t idx last) (hlast : last < t.words)
    (hbar : isBarRef (recordHeader stream t last) = true) :
    ∃ size, boundSize m krnSize (recordSlot stream t last) = some size ∧
      recordOffset stream t last < size := by
  induction fuel generalizing idx with
  | zero =>
    obtain rfl | ⟨hlt, -⟩ := hreach.cases <;> omega
  | succ fuel ih =>
    rw [checkRecords] at h
    split at h
    · obtain rfl | ⟨hlt, -⟩ := hreach.cases <;> omega
    simp only [show le32 stream (t.off + idx * 4) = recordHeader stream t idx from rfl] at h
    split at h
    · exact absurd h (by simp [fail])
    split at h
    case isTrue hskip =>
      obtain rfl | ⟨-, hrest⟩ := hreach.cases
      · simp [hbar] at hskip
      · exact ih h (by omega) hrest
    split at h
    · exact absurd h (by simp [fail])
    case h_2 size hsize =>
      change (if size ≤ recordOffset stream t idx then _ else _) = _ at h
      split at h
      · exact absurd h (by simp [fail])
      case isFalse hroom =>
        obtain rfl | ⟨-, hrest⟩ := hreach.cases
        · exact ⟨size, hsize, Nat.not_le.mp hroom⟩
        · exact ih h (by omega) hrest

/-- `check_bound_slots` accepts a stream only if every BAR reference names a
bound slot, at an offset inside the buffer bound there. -/
theorem checkBoundSlots_bound (h : checkBoundSlots stream tasks m krnSize = .ok ())
    (hsplit : splitH14Tasks stream cap = .ok tasks)
    (hrec : BarRecord stream t idx) :
    ∃ size, boundSize m krnSize (recordSlot stream t idx) = some size ∧
      recordOffset stream t idx < size := by
  have hmem := (mem_splitH14Tasks hsplit).mpr hrec.task
  exact checkRecords_bound (forM_eq_ok.mp h t hmem) (by omega) hrec.visited hrec.inside hrec.bar

end OmarchyAne.Libane
