import OmarchyAne.H13.BindRoles
import OmarchyAne.Lib.Gather

/-!
# The Python port of the binding (tools/staged-qwen/io_layout.py)

`walk_tasks` and `libane_bind` are a port of `ane_bind_walk` and
`ane_bind_init`.  The walk checks nothing, and keeps the registers of a task in
a dictionary.  On every stream that the C walk accepts both derive the same
lists (`libaneBind_eq`).

Nothing stands for a Python error.  `SELECTORS` has the registers and the shifts
of `ane_bind_selectors`.
-/

namespace OmarchyAne.H13

open Lib Libane List

/-! ## The port -/

/-- `_word`. -/
def pyWord (buf : List UInt8) (off i : Nat) : Option Nat :=
  if buf.length < off + 4 * i + 4 then none else some (le32 buf (off + 4 * i))

/-- A dictionary of registers. -/
structure PyRegs where
  get : Nat → Option Nat

def PyRegs.empty : PyRegs where
  get := fun _ => none

/-- The dictionary with a new entry. -/
def PyRegs.set (regs : PyRegs) (reg value : Nat) : PyRegs where
  get := fun r => if r = reg then some value else regs.get r

/-- The payload of a record.  Words behind the task are skipped. -/
def pyRecord (stream : List UInt8) (off words idx n base : Nat)
    (regs : PyRegs) : Option PyRegs :=
  (List.range n).foldlM (fun regs k =>
    if idx + 1 + k < words then do
      let value ← pyWord stream off (idx + 1 + k)
      some (regs.set (base + 4 * k) value)
    else some regs) regs

/-- The record loop of a task. -/
def pyRecordLoop (stream : List UInt8) (off words : Nat) :
    Nat → Nat → PyRegs → Option PyRegs
  | 0, _, regs => some regs
  | fuel + 1, idx, regs =>
    if words ≤ idx then some regs
    else do
      let head ← pyWord stream off idx
      let n := (head >>> 26) + 1
      let regs ← pyRecord stream off words idx n (head &&& 0x03ffffff) regs
      pyRecordLoop stream off words fuel (idx + 1 + n) regs

theorem pyRecordLoop_fuel {stream : List UInt8} {off words fuel idx : Nat} {regs : PyRegs}
    (h : words ≤ idx + fuel) (more : Nat) :
    pyRecordLoop stream off words (fuel + more) idx regs =
      pyRecordLoop stream off words fuel idx regs := by
  induction fuel generalizing idx regs with
  | zero =>
    cases more with
    | zero => rfl
    | succ more => exact if_pos h
  | succ fuel ih =>
    have hrest (n : Nat) (regs : PyRegs) := @ih (idx + 1 + n) regs (by omega)
    rw [Nat.add_right_comm, pyRecordLoop, pyRecordLoop]
    simp only [hrest]

/-- A task of `walk_tasks`: for each selector its channel and whether it is
live. -/
structure PyTask where
  off : Nat
  size : Nat
  slots : Slot → Nat × Bool

/-- The entry of a task, from its selectors and registers. -/
def pyEntry (off size sel : Nat) (regs : PyRegs) : PyTask where
  off := off
  size := size
  slots := fun slot => (sel >>> slot.shift &&& 0x1f,
    (regs.get slot.config).getD dmaDisabled != dmaDisabled)

/-- The loop of `walk_tasks` with this many tasks left. -/
def pyWalkLoop (stream : List UInt8) : Nat → Nat → Nat → Option (List PyTask)
  | 0, _, _ => some []
  | left + 1, off, size => do
    let w ← pyWord stream off 9
    let words := size / 4
    let regs ← pyRecordLoop stream off words words
      (10 + if w &&& 3 = 3 then 1 else 0) .empty
    let sel ← pyWord stream off 8
    if left = 0 then some [pyEntry off size sel regs]
    else do
      let w ← pyWord stream off 1
      let next ← pyWord stream off 7
      let rest ← pyWalkLoop stream left next (((w >>> 16 &&& 0x1ff) + 1) * 4)
      some (pyEntry off size sel regs :: rest)

/-- `walk_tasks`. -/
def walkTasks (stream : List UInt8) (firstBytes count : Nat) :
    Option (List PyTask) :=
  pyWalkLoop stream count 0 firstBytes

/-- The sets `is_src` and `is_dst`. -/
structure PySets where
  isSrc : Nat → Bool
  isDst : Nat → Bool

/-- One selector of a task. -/
def pyAdd (anec : Anec) (task : PyTask) (s : PySets) (slot : Slot) : PySets :=
  let (ch, live) := task.slots slot
  if live ∧ firstSurface ≤ ch ∧ ch < tileCount ∧ anec.tile ch ≠ 0 then
    if slot = .dst then { s with isDst := update s.isDst ch true }
    else { s with isSrc := update s.isSrc ch true }
  else s

/-- The sets of a program. -/
def pySets (anec : Anec) (tasks : List PyTask) : PySets :=
  tasks.foldl (fun s task => slots.foldl (pyAdd anec task) s)
    ⟨fun _ => false, fun _ => false⟩

/-- The turn of the loop that fills up the lists.  When both are full the loop
has ended. -/
def pyFill (anec : Anec) (s : PySets) (l : Lists) (c : Nat) : Lists :=
  if anec.dstCount.toNat ≤ l.dst.length ∧ anec.srcCount.toNat ≤ l.src.length
    then l
  else if s.isDst c ∨ s.isSrc c ∨ anec.tile c = 0 then l
  else if l.dst.length < anec.dstCount.toNat then
    { l with dst := l.dst ++ [c] }
  else { l with src := l.src ++ [c] }

/-- `libane_bind`. -/
def libaneBind (anec : Anec) (tasks : List PyTask) : Option Lists :=
  let s := pySets anec tasks
  let dst := surfaces.filter s.isDst
  let src := surfaces.filter (fun c => !s.isDst c && s.isSrc c)
  let l := surfaces.foldl (pyFill anec s) ⟨src, dst⟩
  if l.src.length ≠ anec.srcCount.toNat ∨ l.dst.length ≠ anec.dstCount.toNat
    then none
  else some l

/-! ## The walk -/

variable {anec : Anec} {stream : List UInt8} {task words index fuel : Nat} {regs : PyRegs}
  {t : TaskPos} {m : Marks}

theorem pyWord_inside (h : task + index * 4 + 4 ≤ stream.length) :
    pyWord stream task index = some (word stream task index) := by
  rw [pyWord, word, Nat.mul_comm 4 index, if_neg (by omega)]

def PyRegs.apply (regs : PyRegs) (w : Nat × Nat) : PyRegs := regs.set w.1 w.2

theorem pyRecord_eq (hin : task + words * 4 ≤ stream.length)
    (hrec : index + headerCount (word stream task index) < words) :
    pyRecord stream task words index (headerCount (word stream task index))
      (headerBase (word stream task index)) regs =
        some ((recordWrites stream task index).foldl PyRegs.apply regs) := by
  rw [pyRecord, recordWrites, foldl_map]
  apply foldlM_some
  intro k hk regs
  have hlt := mem_range.1 hk
  rw [if_pos (by omega), pyWord_inside (by omega), Nat.mul_comm 4 k]
  rfl

/-- Where the C loop accepts a task the port reads the same writes. -/
theorem pyRecordLoop_eq {cregs cregs' : Regs} (hin : task + words * 4 ≤ stream.length)
    (h : taskLoop stream task words fuel index cregs = .ok cregs') :
    pyRecordLoop stream task words fuel index regs =
      some ((writesFrom stream task words fuel index).foldl PyRegs.apply regs) := by
  induction fuel generalizing index regs cregs with
  | zero => rfl
  | succ fuel ih =>
    rw [taskLoop] at h
    rw [pyRecordLoop, writesFrom]
    by_cases hend : words ≤ index
    · rw [if_pos hend, if_pos hend]
      rfl
    rw [if_neg hend, bindWord_inside (by omega)] at h
    rw [if_neg hend, if_neg hend, pyWord_inside (by omega)]
    change (if words ≤ index + headerCount (word stream task index) then _ else _) = _ at h
    by_cases hrec : words ≤ index + headerCount (word stream task index)
    · rw [if_pos hrec] at h
      cases h
    rw [if_neg hrec] at h
    obtain ⟨cregs'', -, hrest⟩ := bind_eq_ok.1 h
    rw [foldl_append]
    change (pyRecord stream task words index (headerCount (word stream task index))
      (headerBase (word stream task index)) regs).bind _ = _
    rw [pyRecord_eq hin (Nat.lt_of_not_le hrec)]
    exact ih hrest

theorem foldl_set_getD (writes : List (Nat × Nat)) (regs : PyRegs) (reg : Nat) :
    ((writes.foldl PyRegs.apply regs).get reg).getD dmaDisabled =
      writes.foldl (fun v w => if w.1 = reg then w.2 else v) ((regs.get reg).getD dmaDisabled) := by
  induction writes generalizing regs with
  | nil => rfl
  | cons w writes ih =>
    rw [foldl_cons, foldl_cons, ih]
    congr 1
    by_cases heq : w.1 = reg
    · simp [PyRegs.apply, PyRegs.set, heq]
    · simp [PyRegs.apply, PyRegs.set, heq, Ne.symm heq]

/-- The registers of a task as the port has them. -/
def pyTaskRegs (stream : List UInt8) (t : TaskPos) : PyRegs :=
  (taskWrites stream t).foldl PyRegs.apply .empty

/-- A task as the port has it. -/
def pyTask (stream : List UInt8) (t : TaskPos) : PyTask :=
  pyEntry t.off t.bytes (word stream t.off 8) (pyTaskRegs stream t)

theorem TaskOk.taskLoop_ok (h : TaskOk stream t) : taskLoop stream t.off (t.bytes / 4) (t.bytes / 4)
      (firstRecord stream t.off) Regs.init = .ok (taskRegs stream t) := by
  have hdma := h.dma
  have hin := h.inside
  have hge := h.bytes_ge
  rw [minTaskBytes] at hge
  rw [taskDma] at hdma
  split at hdma
  · cases hdma
  rw [bindWord_inside (by omega)] at hdma
  exact hdma

theorem pyWalkLoop_eq {left : Nat} (h : ∀ u ∈ walkedFrom stream left t, TaskOk stream u) :
    pyWalkLoop stream left t.off t.bytes =
      some ((walkedFrom stream left t).map (pyTask stream)) := by
  induction left generalizing t with
  | zero => rfl
  | succ left ih =>
    rw [walkedFrom, forall_mem_cons] at h
    obtain ⟨ht, hrest⟩ := h
    have hin := ht.inside
    have hge := ht.bytes_ge
    rw [minTaskBytes] at hge
    have hloop : pyRecordLoop stream t.off (t.bytes / 4) (t.bytes / 4)
        (firstRecord stream t.off) .empty = some (pyTaskRegs stream t) :=
      pyRecordLoop_eq (by omega) ht.taskLoop_ok
    rw [pyWalkLoop, pyWord_inside (by omega), pyWord_inside (by omega),
      pyWord_inside (by omega), pyWord_inside (by omega)]
    change (pyRecordLoop stream t.off (t.bytes / 4) (t.bytes / 4)
      (firstRecord stream t.off) .empty).bind _ = _
    rw [hloop, walkedFrom, map_cons]
    change (if left = 0 then some [pyTask stream t] else
      (pyWalkLoop stream left (nextTask stream t).off (nextTask stream t).bytes).bind
          fun rest => some (pyTask stream t :: rest)) = _
    split
    · next hzero =>
      subst hzero
      rfl
    · rw [ih hrest]
      rfl

/-! ## The lists -/

/-- The selectors of the port name what those of the walk name. -/
theorem pyTask_names (t : TaskPos) (slot : Slot) (channel : Nat) : Names stream t slot channel ↔
      (((pyTask stream t).slots slot).2 = true ∧ ((pyTask stream t).slots slot).1 = channel) ∧
        firstSurface ≤ channel ∧ channel < tileCount := by
  have hlive : ((pyTask stream t).slots slot).2 = true ↔ Live stream t slot := by
    show (((pyTaskRegs stream t).get slot.config).getD dmaDisabled != dmaDisabled) = true ↔ _
    rw [pyTaskRegs, foldl_set_getD, bne_iff_ne]
    rfl
  rw [hlive]
  exact ⟨fun h => ⟨⟨h.live, h.selects⟩, h.ge, h.lt⟩, fun h => ⟨h.1.1, h.1.2, h.2.1, h.2.2⟩⟩

/-- The selector adds its channel to a set. -/
def PyTask.adds (anec : Anec) (task : PyTask) (slot : Slot) : Prop :=
  (task.slots slot).2 ∧ firstSurface ≤ (task.slots slot).1 ∧
    (task.slots slot).1 < tileCount ∧ anec.tile (task.slots slot).1 ≠ 0

instance (task : PyTask) (slot : Slot) : Decidable (task.adds anec slot) :=
  inferInstanceAs (Decidable (_ ∧ _))

theorem pyAdd_eq (task : PyTask) (s : PySets) (slot : Slot) : pyAdd anec task s slot = {
      isDst := if task.adds anec slot ∧ slot = .dst then
          update s.isDst (task.slots slot).1 true else s.isDst
      isSrc := if task.adds anec slot ∧ slot ≠ .dst then
          update s.isSrc (task.slots slot).1 true else s.isSrc } := by
  rw [pyAdd]
  by_cases hadds : task.adds anec slot
  · have hcond := hadds
    rw [PyTask.adds] at hcond
    simp only [if_pos hcond, hadds, true_and]
    by_cases hslot : slot = .dst
    · simp [hslot]
    · simp [hslot]
  · have hcond := hadds
    rw [PyTask.adds] at hcond
    simp only [if_neg hcond, hadds, false_and, if_false]

theorem adds_iff (t : TaskPos) (slot : Slot) (channel : Nat) :
    (pyTask stream t).adds anec slot ∧ channel = ((pyTask stream t).slots slot).1 ↔
      anec.tile channel ≠ 0 ∧ Names stream t slot channel := by
  rw [pyTask_names, PyTask.adds]
  constructor
  · rintro ⟨⟨hlive, hge, hlt, htile⟩, rfl⟩
    exact ⟨htile, ⟨hlive, rfl⟩, hge, hlt⟩
  · rintro ⟨htile, ⟨hlive, rfl⟩, hge, hlt⟩
    exact ⟨⟨hlive, hge, hlt, htile⟩, rfl⟩

theorem pyAdd_isDst (t : TaskPos) (s : PySets) (slot : Slot) (channel : Nat) :
    (pyAdd anec (pyTask stream t) s slot).isDst channel = true ↔
      s.isDst channel = true ∨ anec.tile channel ≠ 0 ∧ slot = .dst ∧
        Names stream t slot channel := by
  rw [pyAdd_eq, update_true_iff, and_right_comm, adds_iff, and_assoc,
    and_comm (a := Names stream t slot channel)]

theorem pyAdd_isSrc (t : TaskPos) (s : PySets) (slot : Slot) (channel : Nat) :
    (pyAdd anec (pyTask stream t) s slot).isSrc channel = true ↔
      s.isSrc channel = true ∨ anec.tile channel ≠ 0 ∧ slot ≠ .dst ∧
        Names stream t slot channel := by
  rw [pyAdd_eq, update_true_iff, and_right_comm, adds_iff, and_assoc,
    and_comm (a := Names stream t slot channel)]

/-- The sets hold the channels that the walk marks. -/
theorem pySets_eq (h : bindWalk anec stream = .ok m) :
    (pySets anec ((walked anec stream).map (pyTask stream))).isDst = m.isDst ∧
      (pySets anec ((walked anec stream).map (pyTask stream))).isSrc = m.isSrc := by
  rw [pySets, foldl_map]
  constructor
  · funext channel
    apply Bool.eq_iff_iff.2
    rw [bindWalk_marks h (P := fun m => m.isDst channel = true)
      (fun m t slot => slotMarks_isDst anec stream t m slot channel)]
    apply foldl_iff (P := fun s : PySets => s.isDst channel = true)
    intro s t
    apply foldl_slots (P := fun s : PySets => s.isDst channel = true)
    exact fun s slot => pyAdd_isDst t s slot channel
  · funext channel
    apply Bool.eq_iff_iff.2
    rw [bindWalk_marks h (P := fun m => m.isSrc channel = true)
      (fun m t slot => slotMarks_isSrc anec stream t m slot channel)]
    apply foldl_iff (P := fun s : PySets => s.isSrc channel = true)
    intro s t
    apply foldl_slots (P := fun s : PySets => s.isSrc channel = true)
    exact fun s slot => pyAdd_isSrc t s slot channel

/-- From the same sets the port derives the same lists. -/
theorem libaneBind_deriveLists (h : bindWalk anec stream = .ok m) :
    libaneBind anec ((walked anec stream).map (pyTask stream)) = deriveLists anec m := by
  obtain ⟨hdst, hsrc⟩ := pySets_eq h
  have hfill : pyFill anec (pySets anec ((walked anec stream).map (pyTask stream))) =
        fillStep anec m := by
    funext l c
    rw [pyFill, fillStep, hdst, hsrc]
  rw [libaneBind, deriveLists, collect_eq surfaces ⟨[], []⟩ (by decide) (by decide)]
  simp only [hfill, hdst, hsrc]
  rfl

/-- The lists are made of different surfaces. -/
theorem Roles.counts_le {dst src namedDst namedSrc fillDst fillSrc : List Nat}
    (h : Roles anec stream dst src namedDst namedSrc fillDst fillSrc) :
    anec.dstCount.toNat + anec.srcCount.toNat ≤ 28 := by
  have hsub : (dst ++ src) ⊆ surfaces := by
    intro c hc
    have halloc := h.allocated c hc
    exact mem_surfaces.2 ⟨halloc.ge, halloc.lt⟩
  have hle := (h.distinct.subperm hsub).length_le
  rw [length_append, h.dst_length, h.src_length] at hle
  exact hle

/-- Counts that do not fit are refused by the comparison of the lengths. -/
theorem bindDerive_eq (h : bindWalk anec stream = .ok m) :
    bindDerive anec stream = deriveLists anec m := by
  rw [bindDerive, h]
  split
  · next hcount =>
    cases hl : deriveLists anec m with
    | none => rfl
    | some l =>
      have hle := (deriveLists_roles h hl).counts_le
      rw [tileCount] at hcount
      omega
  · rfl

/-- On a stream that the C walk accepts, the port returns the lists of
`ane_bind_init` if that returns 1, and nothing if it returns 0. -/
theorem libaneBind_eq {m : Marks} (h : bindWalk anec stream = .ok m) :
    ∃ tasks, walkTasks stream anec.tdSize.toNat anec.tdCount.toNat = some tasks ∧
      ((bindInit anec stream).1 = true → libaneBind anec tasks =
        some ⟨(bindInit anec stream).2.sources anec, (bindInit anec stream).2.destinations anec⟩) ∧
      (libaneBind anec tasks = none ↔ (bindInit anec stream).1 = false) := by
  refine ⟨(walked anec stream).map (pyTask stream),
    pyWalkLoop_eq (t := ⟨0, anec.tdSize.toNat⟩) (bindWalk_ok h).2, ?_⟩
  rw [libaneBind_deriveLists h, ← bindDerive_eq h]
  cases hderive : bindDerive anec stream with
  | none =>
    have hinit : (bindInit anec stream).1 = false := by rw [bindInit, hderive]
    simp [hinit]
  | some l =>
    have hinit : (bindInit anec stream).1 = true := by rw [bindInit, hderive]
    obtain ⟨hsrc, hdst⟩ := bindInit_lists hderive
    rw [hsrc, hdst, hinit]
    simp

theorem libaneBind_eq_fill : ∃ tasks, walkTasks oneTaskStream 56 1 = some tasks ∧
      libaneBind fillAnec tasks = some ⟨[6], [4]⟩ := by
  have hok : (bindWalk fillAnec oneTaskStream).isOk = true := by
    decide +kernel
  cases hwalk : bindWalk fillAnec oneTaskStream with
  | error e =>
    rw [hwalk] at hok
    cases hok
  | ok m =>
    obtain ⟨tasks, htasks, hone, -⟩ := libaneBind_eq hwalk
    refine ⟨tasks, htasks, (hone (by decide +kernel)).trans ?_⟩
    decide +kernel

end OmarchyAne.H13
