import OmarchyAne.H13.Bind
import OmarchyAne.Lib.Lists
import OmarchyAne.Lib.Memory

/-!
# What the walk over the task descriptors visits

The descriptors are linked: each one holds the offset and the size of the next
(`walked`).  The records of a task write registers (`taskWrites`).  The walk
refuses a stream, or it visits every task and marks the channels of all writes
(`bindWalk_cases`).  It never reads outside the stream.

`bindWalk_overrun` is the result about the sizes: a program that passes the
check moves no more bytes through a channel than are allocated for it.
-/

namespace OmarchyAne.H13

open Lib Libane

variable {anec : Anec} {stream : List UInt8} {task words bytes index : Nat}
  {fuel : Nat}

/-! ## The writes of a task -/

/-- A word of a task. -/
def word (stream : List UInt8) (task index : Nat) : Nat :=
  le32 stream (task + index * 4)

/-- The payload words of the record with this header. -/
def headerCount (header : Nat) : Nat := (header >>> 26) + 1

/-- The first register of the record with this header. -/
def headerBase (header : Nat) : Nat := header &&& 0x03ffffff

/-- The register writes of a record. -/
def recordWrites (stream : List UInt8) (task index : Nat) : List (Nat × Nat) :=
  (List.range (headerCount (word stream task index))).map (fun offset =>
    (headerBase (word stream task index) + offset * 4, word stream task (index + 1 + offset)))

/-- The register writes of the records from a word on. -/
def writesFrom (stream : List UInt8) (task words : Nat) :
    Nat → Nat → List (Nat × Nat)
  | 0, _ => []
  | fuel + 1, index =>
    if words ≤ index then []
    else recordWrites stream task index ++ writesFrom stream task words fuel
      (index + 1 + headerCount (word stream task index))

theorem writesFrom_fuel (h : words ≤ index + fuel) (more : Nat) :
    writesFrom stream task words (fuel + more) index = writesFrom stream task words fuel index := by
  induction fuel generalizing index with
  | zero =>
    cases more with
    | zero => rfl
    | succ more => exact if_pos h
  | succ fuel ih => rw [Nat.add_right_comm, writesFrom, writesFrom, ih (by omega)]

/-- The first record of a task. -/
def firstRecord (stream : List UInt8) (task : Nat) : Nat :=
  10 + if word stream task 9 &&& 3 = 3 then 1 else 0

/-- The place of a task in the stream. -/
structure TaskPos where
  off : Nat
  bytes : Nat
  deriving DecidableEq, Repr

/-- The register writes of a task. -/
def taskWrites (stream : List UInt8) (t : TaskPos) : List (Nat × Nat) :=
  writesFrom stream t.off (t.bytes / 4) (t.bytes / 4) (firstRecord stream t.off)

def Regs.apply (regs : Regs) (w : Nat × Nat) : Regs := regs.write w.1 w.2

/-- The registers after the writes of a task. -/
def taskRegs (stream : List UInt8) (t : TaskPos) : Regs :=
  (taskWrites stream t).foldl Regs.apply Regs.init

theorem bindWord_inside (h : task + index * 4 + 4 ≤ stream.length) :
    bindWord stream task index = .ok (word stream task index) := by
  rw [bindWord, if_neg (by omega)]
  rfl

/-- A register address does not leave 32 bits. -/
theorem register_mod {header offset : Nat} (h : offset < headerCount header)
    (hword : header < 2 ^ 32) :
    (headerBase header + offset * 4) % 2 ^ 32 = headerBase header + offset * 4 := by
  have hbase : headerBase header < 2 ^ 26 := Nat.lt_of_le_of_lt Nat.and_le_right (by decide)
  have hcount : header >>> 26 < 2 ^ 6 := by
    rw [Nat.shiftRight_eq_div_pow]
    omega
  rw [headerCount] at h
  exact Nat.mod_eq_of_lt (by omega)

theorem recordDma_ok {regs : Regs}
    (h : task + (index + headerCount (word stream task index)) * 4 + 4 ≤ stream.length) :
    recordDma stream task index (headerCount (word stream task index))
      (headerBase (word stream task index)) regs =
        .ok ((recordWrites stream task index).foldl Regs.apply regs) := by
  rw [recordDma, recordWrites, List.foldl_map]
  apply foldlM_ok
  intro offset hoffset regs
  have hlt := List.mem_range.1 hoffset
  rw [bindWord_inside (by omega), register_mod hlt (le32_lt _ _)]
  rfl

/-- The record loop refuses the task, or it applies the writes. -/
theorem taskLoop_cases {regs : Regs} (hin : task + words * 4 ≤ stream.length) :
    taskLoop stream task words fuel index regs = .error .refused ∨
      taskLoop stream task words fuel index regs =
        .ok ((writesFrom stream task words fuel index).foldl Regs.apply regs) := by
  induction fuel generalizing index regs with
  | zero => exact .inr rfl
  | succ fuel ih =>
    rw [taskLoop, writesFrom]
    by_cases hend : words ≤ index
    · rw [if_pos hend, if_pos hend]
      exact .inr rfl
    rw [if_neg hend, if_neg hend, bindWord_inside (by omega)]
    change (if words ≤ index + headerCount (word stream task index) then _
      else _) = _ ∨ (if words ≤ index + headerCount (word stream task index)
        then _ else _) = _
    by_cases hrec : words ≤ index + headerCount (word stream task index)
    · rw [if_pos hrec]
      exact .inl rfl
    have hroom : task + (index + headerCount (word stream task index)) * 4 + 4 ≤
        stream.length := by omega
    rw [if_neg hrec, List.foldl_append]
    change ((recordDma stream task index (headerCount (word stream task index))
      (headerBase (word stream task index)) regs) >>= _) = _ ∨
      ((recordDma stream task index (headerCount (word stream task index))
      (headerBase (word stream task index)) regs) >>= _) = _
    rw [recordDma_ok hroom]
    exact ih

variable {t : TaskPos} {m : Marks} {slot : Slot} {channel : Nat}

theorem taskDma_cases (hin : t.off + t.bytes ≤ stream.length) :
    taskDma stream t.off t.bytes = .error .refused ∨
      taskDma stream t.off t.bytes = .ok (taskRegs stream t) := by
  rw [taskDma]
  split
  · exact .inl rfl
  next hbytes =>
  rw [minTaskBytes] at hbytes
  rw [bindWord_inside (by omega)]
  exact taskLoop_cases (by omega)

/-! ## The tasks -/

/-- The task that a task points at. -/
def nextTask (stream : List UInt8) (t : TaskPos) : TaskPos where
  off := word stream t.off 7
  bytes := ((word stream t.off 1 >>> 16 &&& 0x1ff) + 1) * 4

/-- This many tasks from one on. -/
def walkedFrom (stream : List UInt8) : Nat → TaskPos → List TaskPos
  | 0, _ => []
  | left + 1, t => t :: walkedFrom stream left (nextTask stream t)

/-- The tasks of a program. -/
def walked (anec : Anec) (stream : List UInt8) : List TaskPos :=
  walkedFrom stream anec.tdCount.toNat ⟨0, anec.tdSize.toNat⟩

theorem walkedFrom_length (left : Nat) (t : TaskPos) :
    (walkedFrom stream left t).length = left := by
  induction left generalizing t with
  | zero => rfl
  | succ left ih => rw [walkedFrom, List.length_cons, ih]

/-- What a task marks. -/
def markTask (anec : Anec) (stream : List UInt8) (m : Marks) (t : TaskPos) :
    Marks :=
  slots.foldl (markSlot anec (word stream t.off 8) (taskRegs stream t)) m

/-- A task that the walk accepts. -/
structure TaskOk (stream : List UInt8) (t : TaskPos) : Prop where
  bytes_ge : minTaskBytes ≤ t.bytes
  inside : t.off + t.bytes ≤ stream.length
  dma : taskDma stream t.off t.bytes = .ok (taskRegs stream t)

/-- The walk refuses the stream, or it accepts and marks every task. -/
theorem walkLoop_cases {left : Nat} : walkLoop anec stream left t.off t.bytes m = .error .refused ∨
      walkLoop anec stream left t.off t.bytes m =
          .ok ((walkedFrom stream left t).foldl (markTask anec stream) m) ∧
        ∀ u ∈ walkedFrom stream left t, TaskOk stream u := by
  induction left generalizing t m with
  | zero => exact .inr ⟨rfl, fun _ hu => nomatch hu⟩
  | succ left ih =>
    rw [walkLoop, walkedFrom]
    split
    · exact .inl rfl
    next hfits =>
    have hmin : minTaskBytes = 40 := rfl
    have hin : t.off + t.bytes ≤ stream.length := by omega
    rcases taskDma_cases hin with hdma | hdma
    · rw [hdma]
      exact .inl rfl
    have hok : TaskOk stream t := ⟨by omega, hin, hdma⟩
    rw [hdma, bindWord_inside (by omega), bindWord_inside (by omega), bindWord_inside (by omega)]
    rw [List.foldl_cons, List.forall_mem_cons]
    change (if left = 0 then .ok (markTask anec stream m t) else
      if word stream t.off 7 % 4 ≠ 0 ∨ stream.length < word stream t.off 7 then
        .error .refused
      else walkLoop anec stream left (nextTask stream t).off
        (nextTask stream t).bytes (markTask anec stream m t)) = _ ∨
      (if left = 0 then .ok (markTask anec stream m t) else
      if word stream t.off 7 % 4 ≠ 0 ∨ stream.length < word stream t.off 7 then
        .error .refused
      else walkLoop anec stream left (nextTask stream t).off
        (nextTask stream t).bytes (markTask anec stream m t)) = _ ∧ _
    split
    · next hzero =>
      subst hzero
      exact .inr ⟨rfl, hok, fun _ hu => nomatch hu⟩
    split
    · exact .inl rfl
    rcases ih (t := nextTask stream t) (m := markTask anec stream m t) with
      hrest | ⟨hrest, hall⟩
    · exact .inl hrest
    · exact .inr ⟨hrest, hok, hall⟩

theorem bindWalk_cases (anec : Anec) (stream : List UInt8) :
    bindWalk anec stream = .error .refused ∨ bindWalk anec stream =
          .ok ((walked anec stream).foldl (markTask anec stream) Marks.empty) ∧
        ∀ t ∈ walked anec stream, TaskOk stream t := by
  rw [bindWalk]
  split
  · exact .inl rfl
  · exact walkLoop_cases (t := ⟨0, anec.tdSize.toNat⟩)

theorem bindWalk_ok (h : bindWalk anec stream = .ok m) :
    m = (walked anec stream).foldl (markTask anec stream) Marks.empty ∧
      ∀ t ∈ walked anec stream, TaskOk stream t := by
  rcases bindWalk_cases anec stream with hbad | ⟨hok, hall⟩
  · rw [hbad] at h
    cases h
  · rw [hok] at h
    exact ⟨(Except.ok.inj h).symm, hall⟩

/-! ## What the marks say -/

/-- The last value that the writes of a task leave in a register. -/
def lastWrite (writes : List (Nat × Nat)) (reg : Nat) : Nat :=
  writes.foldl (fun v w => if w.1 = reg then w.2 else v) dmaDisabled

/-- A transfer of a task is live. -/
def Live (stream : List UInt8) (t : TaskPos) (slot : Slot) : Prop :=
  lastWrite (taskWrites stream t) slot.config ≠ dmaDisabled

/-- The task names a surface channel with a live selector. -/
structure Names (stream : List UInt8) (t : TaskPos) (slot : Slot)
    (channel : Nat) : Prop where
  live : Live stream t slot
  selects : slotChannel (word stream t.off 8) slot = channel
  ge : firstSurface ≤ channel
  lt : channel < tileCount

theorem foldl_apply_dma (writes : List (Nat × Nat)) (regs : Regs) (slot : Slot) :
    (writes.foldl Regs.apply regs).dma slot = writes.foldl
      (fun v w => if w.1 = slot.config then w.2 else v) (regs.dma slot) := by
  induction writes generalizing regs with
  | nil => rfl
  | cons w writes ih => exact ih (regs.apply w)

theorem taskRegs_dma (t : TaskPos) (slot : Slot) : (taskRegs stream t).dma slot =
      lastWrite (taskWrites stream t) slot.config :=
  foldl_apply_dma _ _ _

theorem Slot.isSizeReg.ne_config {reg : Nat} (h : slot.isSizeReg reg) : reg ≠ slot.config := by
  obtain ⟨hne, hreg⟩ := h
  cases slot with
  | src1 =>
    rcases hreg with rfl | rfl <;> decide
  | src2 => exact absurd rfl hne
  | dst =>
    rcases hreg with rfl | rfl <;> decide

/-- The extent is reached by the writes of the size registers. -/
theorem le_foldl_apply_extent (v : Nat) (slot : Slot) (writes : List (Nat × Nat)) (regs : Regs) :
    v ≤ (writes.foldl Regs.apply regs).extent slot ↔ v ≤ regs.extent slot ∨
      ∃ w ∈ writes, slot.isSizeReg w.1 ∧ v ≤ w.2 := by
  apply foldl_iff (P := fun regs : Regs => v ≤ regs.extent slot)
  intro regs w
  simp only [Regs.apply, Regs.write]
  by_cases hsize : slot.isSizeReg w.1
  · rw [if_neg hsize.ne_config]
    split
    · next hlt =>
      have hle := hlt.2
      constructor
      · exact fun h => .inr ⟨hsize, h⟩
      · rintro (h | h)
        · omega
        · exact h.2
    · next hlt =>
      have hle : w.2 ≤ regs.extent slot := Nat.not_lt.1 fun h => hlt ⟨hsize, h⟩
      constructor
      · exact .inl
      · rintro (h | h)
        · exact h
        · have hw := h.2
          omega
  · have hsame : (if w.1 = slot.config then regs.extent slot
        else if slot.isSizeReg w.1 ∧ regs.extent slot < w.2 then w.2
        else regs.extent slot) = regs.extent slot := by
      split
      · rfl
      · rw [if_neg fun h => hsize h.1]
    rw [hsame]
    simp [hsize]

/-- A selector names one channel. -/
theorem Names.iff_eq {c : Nat} (h : Names stream t slot c) :
    Names stream t slot channel ↔ channel = c :=
  ⟨fun h' => h'.selects.symm.trans h.selects, fun heq => heq ▸ h⟩

theorem update_true_iff {c : Prop} [Decidable c] {f : Nat → Bool} {i j : Nat} :
    (if c then update f i true else f) j = true ↔ f j = true ∨ c ∧ j = i := by
  split
  · next hc =>
    by_cases heq : j = i
    · simp [update, heq, hc]
    · simp [update, heq]
  · next hc => simp [hc]

section Marks

variable (anec) (stream) (t : TaskPos) (m : Marks) (slot : Slot)
  (channel : Nat)

theorem names_iff : Names stream t slot channel ↔
    ((taskRegs stream t).dma slot ≠ dmaDisabled ∧
      slotChannel (word stream t.off 8) slot = channel) ∧
      ¬ (channel < firstSurface ∨ tileCount ≤ channel) := by
  rw [taskRegs_dma, not_or, Nat.not_lt, Nat.not_le]
  exact ⟨fun h => ⟨⟨h.live, h.selects⟩, h.ge, h.lt⟩, fun h => ⟨h.1.1, h.1.2, h.2.1, h.2.2⟩⟩

/-- One selector of a task. -/
def slotMarks : Marks :=
  markSlot anec (word stream t.off 8) (taskRegs stream t) m slot

/-- A selector that is not live, or that names no surface, marks nothing. -/
theorem slotMarks_skip (h : ∀ channel, ¬ Names stream t slot channel) :
    slotMarks anec stream t m slot = m := by
  rw [slotMarks, markSlot]
  split
  · rfl
  next hlive =>
  split
  · rfl
  next hrange =>
  exact absurd ((names_iff _ _ _ _).2 ⟨⟨hlive, rfl⟩, hrange⟩) (h _)

/-- A selector that names a surface marks it. -/
theorem slotMarks_names (h : Names stream t slot channel) : slotMarks anec stream t m slot = {
      extent := if m.extent channel < (taskRegs stream t).extent slot then
          update m.extent channel ((taskRegs stream t).extent slot)
        else m.extent
      isDst := if anec.tile channel ≠ 0 ∧ slot = .dst then
          update m.isDst channel true else m.isDst
      isSrc := if anec.tile channel ≠ 0 ∧ slot ≠ .dst then
          update m.isSrc channel true else m.isSrc } := by
  obtain ⟨⟨hlive, rfl⟩, hrange⟩ := (names_iff _ _ _ _).1 h
  rw [slotMarks, markSlot, if_neg hlive, if_neg hrange]
  by_cases htile : anec.tile (slotChannel (word stream t.off 8) slot) = 0
  · simp only [htile, ne_eq, not_true_eq_false, false_and, if_false, if_true]
  · rw [if_neg htile]
    cases slot with
    | src1 => simp [htile, Slot.config, dstRegister]
    | src2 => simp [htile, Slot.config, dstRegister]
    | dst => simp [htile, Slot.config]

theorem slotMarks_isDst : (slotMarks anec stream t m slot).isDst channel = true ↔
      m.isDst channel = true ∨ anec.tile channel ≠ 0 ∧ slot = .dst ∧
        Names stream t slot channel := by
  by_cases hnames : ∃ c, Names stream t slot c
  · obtain ⟨c, hc⟩ := hnames
    rw [slotMarks_names anec stream t m slot c hc, hc.iff_eq, update_true_iff]
    apply or_congr_right
    constructor
    · rintro ⟨⟨htile, hslot⟩, rfl⟩
      exact ⟨htile, hslot, rfl⟩
    · rintro ⟨htile, hslot, rfl⟩
      exact ⟨⟨htile, hslot⟩, rfl⟩
  · rw [not_exists] at hnames
    rw [slotMarks_skip anec stream t m slot hnames]
    simp [hnames]

theorem slotMarks_isSrc : (slotMarks anec stream t m slot).isSrc channel = true ↔
      m.isSrc channel = true ∨ anec.tile channel ≠ 0 ∧ slot ≠ .dst ∧
        Names stream t slot channel := by
  by_cases hnames : ∃ c, Names stream t slot c
  · obtain ⟨c, hc⟩ := hnames
    rw [slotMarks_names anec stream t m slot c hc, hc.iff_eq, update_true_iff]
    apply or_congr_right
    constructor
    · rintro ⟨⟨htile, hslot⟩, rfl⟩
      exact ⟨htile, hslot, rfl⟩
    · rintro ⟨htile, hslot, rfl⟩
      exact ⟨⟨htile, hslot⟩, rfl⟩
  · rw [not_exists] at hnames
    rw [slotMarks_skip anec stream t m slot hnames]
    simp [hnames]

theorem le_slotMarks_extent (v : Nat) : v ≤ (slotMarks anec stream t m slot).extent channel ↔
      v ≤ m.extent channel ∨ Names stream t slot channel ∧ v ≤ (taskRegs stream t).extent slot := by
  by_cases hnames : ∃ c, Names stream t slot c
  · obtain ⟨c, hc⟩ := hnames
    rw [slotMarks_names anec stream t m slot c hc]
    rw [hc.iff_eq]
    by_cases heq : channel = c
    · subst heq
      by_cases hlt : m.extent channel < (taskRegs stream t).extent slot
      · simp only [if_pos hlt, update, if_pos, true_and]
        omega
      · simp only [if_neg hlt, true_and]
        omega
    · have hsame : (if m.extent c < (taskRegs stream t).extent slot then
          update m.extent c ((taskRegs stream t).extent slot)
          else m.extent) channel = m.extent channel := by
        split
        · simp [update, heq]
        · rfl
      simp [hsame, heq]
  · rw [not_exists] at hnames
    rw [slotMarks_skip anec stream t m slot hnames]
    simp [hnames]

end Marks

/-- A loop over the selectors. -/
theorem foldl_slots {β : Type} {P : β → Prop} {Q : Slot → Prop}
    {f : β → Slot → β} {b : β} (h : ∀ b slot, P (f b slot) ↔ P b ∨ Q slot) :
    P (slots.foldl f b) ↔ P b ∨ ∃ slot, Q slot := by
  refine (foldl_iff h slots b).trans (or_congr_right ?_)
  constructor
  · rintro ⟨slot, -, hq⟩
    exact ⟨slot, hq⟩
  · rintro ⟨slot, hq⟩
    refine ⟨slot, ?_, hq⟩
    cases slot <;> decide

/-- What holds of the marks of a walk, from what holds of one selector. -/
theorem bindWalk_marks (h : bindWalk anec stream = .ok m) {P : Marks → Prop}
    {Q : TaskPos → Slot → Prop}
    (hstep : ∀ m t slot, P (slotMarks anec stream t m slot) ↔ P m ∨ Q t slot) :
    P m ↔ P Marks.empty ∨ ∃ t ∈ walked anec stream, ∃ slot, Q t slot := by
  obtain ⟨rfl, -⟩ := bindWalk_ok h
  apply foldl_iff
  intro m t
  exact foldl_slots fun m slot => hstep m t slot

/-- The destinations are the allocated channels that a live destination
selector names. -/
theorem bindWalk_isDst (h : bindWalk anec stream = .ok m) (channel : Nat) :
    m.isDst channel = true ↔ anec.tile channel ≠ 0 ∧
      ∃ t ∈ walked anec stream, Names stream t .dst channel := by
  rw [bindWalk_marks h (P := fun m => m.isDst channel = true)
    (fun m t slot => slotMarks_isDst anec stream t m slot channel)]
  constructor
  · rintro (hempty | ⟨t, ht, slot, htile, rfl, hnames⟩)
    · cases hempty
    · exact ⟨htile, t, ht, hnames⟩
  · rintro ⟨htile, t, ht, hnames⟩
    exact .inr ⟨t, ht, .dst, htile, rfl, hnames⟩

/-- The sources are the allocated channels that a live source selector
names. -/
theorem bindWalk_isSrc (h : bindWalk anec stream = .ok m) (channel : Nat) :
    m.isSrc channel = true ↔ anec.tile channel ≠ 0 ∧
      ∃ t ∈ walked anec stream, ∃ slot, slot ≠ .dst ∧ Names stream t slot channel := by
  rw [bindWalk_marks h (P := fun m => m.isSrc channel = true)
    (fun m t slot => slotMarks_isSrc anec stream t m slot channel)]
  constructor
  · rintro (hempty | ⟨t, ht, slot, htile, hslot, hnames⟩)
    · cases hempty
    · exact ⟨htile, t, ht, slot, hslot, hnames⟩
  · rintro ⟨htile, t, ht, slot, hslot, hnames⟩
    exact .inr ⟨t, ht, slot, htile, hslot, hnames⟩

/-- The extent of a channel is at least what a task moves through it. -/
theorem le_bindWalk_extent (h : bindWalk anec stream = .ok m)
    (ht : t ∈ walked anec stream) (hnames : Names stream t slot channel)
    {w : Nat × Nat} (hw : w ∈ taskWrites stream t) (hsize : slot.isSizeReg w.1) :
    w.2 ≤ m.extent channel := by
  rw [bindWalk_marks h (P := fun m => w.2 ≤ m.extent channel)
    (fun m t slot => le_slotMarks_extent anec stream t m slot channel w.2)]
  refine .inr ⟨t, ht, slot, hnames, ?_⟩
  exact (le_foldl_apply_extent _ _ _ _).2 (.inr ⟨w, hw, hsize, le_rfl⟩)

theorem mem_surfaces : channel ∈ surfaces ↔ firstSurface ≤ channel ∧ channel < tileCount :=
  mem_drop_range

/-- The walk reads nothing outside the stream and visits at most `td_count`
tasks.  If it succeeds and the check finds no overrun, then every size that a
walked task programs for a live source 1 or destination transfer fits into the
channel. -/
theorem bindWalk_overrun (anec : Anec) (stream : List UInt8) (tileShift : Nat) :
    bindWalk anec stream ≠ .error .outside ∧ (walked anec stream).length ≤ anec.tdCount.toNat ∧
      ∀ m, bindWalk anec stream = .ok m → bindOverrun anec stream tileShift = none →
        (∀ t ∈ walked anec stream, t.off + t.bytes ≤ stream.length) ∧
        ∀ t ∈ walked anec stream, ∀ slot channel, slot = .src1 ∨ slot = .dst →
          Names stream t slot channel →
          ∀ reg value, (reg, value) ∈ taskWrites stream t →
            reg = slot.sizeRegs.1 ∨ reg = slot.sizeRegs.2 →
            value ≤ tileBytes anec tileShift channel := by
  refine ⟨?_, Nat.le_of_eq (walkedFrom_length _ _), ?_⟩
  · rcases bindWalk_cases anec stream with hbad | ⟨hok, -⟩
    · rw [hbad]
      exact fun h => nomatch h
    · rw [hok]
      exact fun h => nomatch h
  intro m hwalk hnone
  refine ⟨fun t ht => ((bindWalk_ok hwalk).2 t ht).inside, ?_⟩
  intro t ht slot channel hslot hnames reg value hwrite hreg
  have hsize : slot.isSizeReg reg := by
    refine ⟨?_, hreg⟩
    rcases hslot with rfl | rfl <;> decide
  have hle := le_bindWalk_extent hwalk ht hnames hwrite hsize
  rw [bindOverrun, hwalk] at hnone
  have hfind := List.find?_eq_none.1 (Option.map_eq_none_iff.1 hnone) channel
    (mem_surfaces.2 ⟨hnames.ge, hnames.lt⟩)
  rw [decide_eq_true_eq] at hfind
  omega

/-- A program with one task that writes channel 4. -/
def oneTaskAnec : Anec where
  size := 56
  tdSize := 56
  tdCount := 1
  srcCount := 0
  dstCount := 1
  tiles := fun channel => if channel = 4 then 1 else 0
  nchw := fun _ _ => 0

/-- The descriptor of the task: the destination is live and has 16 KiB. -/
def oneTaskStream : List UInt8 :=
  [0, 0, 0, 0, 0, 0, 0, 0, 0x4000, 0, 0x17800, 0xc1, 0x17810, 0x4000].flatMap
    (leBytes 4)

theorem bindWalk_overrun_oneTask : (bindWalk oneTaskAnec oneTaskStream).isOk = true ∧
      bindOverrun oneTaskAnec oneTaskStream 14 = none ∧
      0x4000 ≤ tileBytes oneTaskAnec 14 4 := by
  have hok : (bindWalk oneTaskAnec oneTaskStream).isOk = true := by
    decide +kernel
  have hnone : bindOverrun oneTaskAnec oneTaskStream 14 = none := by
    decide +kernel
  refine ⟨hok, hnone, ?_⟩
  cases hwalk : bindWalk oneTaskAnec oneTaskStream with
  | error e =>
    rw [hwalk] at hok
    cases hok
  | ok m =>
    have hnames : Names oneTaskStream ⟨0, 56⟩ .dst 4 :=
      ⟨by unfold Live; decide +kernel, by decide +kernel, by decide,
        by decide⟩
    exact ((bindWalk_overrun oneTaskAnec oneTaskStream 14).2.2 m hwalk hnone).2
      ⟨0, 56⟩ (by decide +kernel) .dst 4 (.inr rfl) hnames 0x17810 0x4000
      (by decide +kernel) (.inl rfl)

end OmarchyAne.H13
