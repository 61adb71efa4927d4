import OmarchyAne.Lib.Checks
import OmarchyAne.Lib.Kernel
import OmarchyAne.Lib.Memory

/-!
# The channel table of the firmware

After the handshake the firmware publishes a table of eight channels in a
surface of the host.  An entry names a ring by its address and its number of
slots.  The host checks the table and then takes every slot of the type 0
rings by writing its first 24 bytes, before it writes READY.

The H15 module (`ane_h15_chan_step`) and the H18 module
(`ane_h18_chan_step`) do the same in two places.  They bound the end of a
ring in different ways and differ in what the command phase needs.  So there
is one step with the two as instances.

The content of the table is any memory, and all addresses are words of 64
bits.  A surface carries the facts that it does not wrap the address space and
that the table address is inside.
-/

namespace OmarchyAne.Chan

open Lib List

/-- `CH_COUNT`. -/
def chCount : Nat := 8

/-- `CH_ENTRY`. -/
def chEntry : Nat := 0x100

/-- `CH_NAME_LEN`. -/
def chNameLen : Nat := 0x40

/-- `CH_SLOT`. -/
def chSlot : Nat := 0x40

/-- `CH_MAX_SLOTS`. -/
def chMaxSlots : Nat := 0x400

/-- A sum of 64-bit words. -/
def add64 (a b : Nat) : Nat := (a + b) % 2 ^ 64

/-- `struct hs_buf`; `va` says that it was allocated. -/
structure HsBuf where
  va : Bool
  iova : Nat
  size : Nat
  fits : iova + size < 2 ^ 64

/-- A host surface with the address of the table in it. -/
structure Surface where
  iova : Nat
  size : Nat
  table : Nat
  fits : iova + size < 2 ^ 64
  above : iova ≤ table
  below : table < iova + size

/-- `hs_find` over the pool, the IPC surface and the heap. -/
def hsFind (bufs : List HsBuf) (table : Nat) : Option Surface :=
  bufs.findSome? fun b =>
    if h : b.va ∧ b.iova ≤ table ∧ table < b.iova + b.size then
      some ⟨b.iova, b.size, table, b.fits, h.2.1, h.2.2⟩
    else none

/-- Every surface with the table in it is one that `hs_find` can find. -/
theorem hsFind_surface (s : Surface) :
    hsFind [⟨true, s.iova, s.size, s.fits⟩] s.table = some s := by
  simp [hsFind, s.above, s.below]

/-- Without such a surface nothing is found. -/
theorem hsFind_eq_none {bufs : List HsBuf} {table : Nat} : hsFind bufs table = none ↔
    ∀ b ∈ bufs, ¬(b.va ∧ b.iova ≤ table ∧ table < b.iova + b.size) := by
  simp [hsFind, findSome?_eq_none_iff]

/-- A ring of the table. -/
structure Ring where
  name : Bytes
  type : Nat
  bit : Nat
  slots : Nat
  iova : Nat
  deriving DecidableEq, Repr

/-! ## The check -/

/-- The text in a field of the table: its last byte is cleared, and it ends
at the first NUL. -/
def cText (field : Bytes) : Bytes :=
  (field.take (chNameLen - 1)).takeWhile (fun c => c != 0)

/-- The entry `i` as it stands in the surface. -/
def tableRing (s : Surface) (mem : Mem) (i : Nat) : Ring :=
  let e := s.table - s.iova + i * chEntry
  { name := cText (peek mem e chNameLen)
    type := peekLe mem (e + 0x40) 4
    bit := peekLe mem (e + 0x44) 4
    slots := peekLe mem (e + 0x48) 8
    iova := peekLe mem (e + 0x50) 8 }

/-- `chan_get`.  `long` says that a number of slots does not fit in the bytes
that are left. -/
def chanGet (long : Nat → Nat → Bool) (s : Surface) (mem : Mem) (i : Nat) :
    Except Errno Ring :=
  let r := tableRing s mem i
  if r.name = [] ∨ 2 < r.type ∨ 32 ≤ r.bit ∨ r.slots = 0 ∨
      chMaxSlots < r.slots ∨ r.iova < s.iova ∨ r.iova % chSlot ≠ 0 ∨
      s.size ≤ r.iova - s.iova ∨
      long r.slots (s.size - (r.iova - s.iova)) then .error .EPROTO
  else .ok r

/-- The end of a ring. -/
def Ring.stop (r : Ring) : Nat := add64 r.iova (r.slots * chSlot)

/-- The ring overlaps the entries of the table. -/
def Ring.overTable (s : Surface) (r : Ring) : Bool :=
  decide (r.iova < add64 s.table (chCount * chEntry) ∧ s.table < r.stop)

/-- The ring overlaps a ring before it. -/
def Ring.overRing (r q : Ring) : Bool :=
  decide (r.iova < q.stop ∧ q.iova < r.stop)

/-- The loop over the rings, with the rings that it has passed. -/
def checkApart (s : Surface) : List Ring → List Ring → Except Errno Unit
  | _, [] => .ok ()
  | before, r :: rest =>
    if r.overTable s then .error .EPROTO
    else if before.any (fun q => r.overRing q) then .error .EPROTO
    else checkApart s (before ++ [r]) rest

/-- The checks of the table that the two modules share. -/
def checkTable (long : Nat → Nat → Bool) (s : Surface) (mem : Mem) :
    Except Errno (List Ring) := do
  stopIf ((add64 s.iova s.size + 2 ^ 64 - s.table) % 2 ^ 64 < chCount * chEntry) .EPROTO
  let rings ← (List.range chCount).mapM (chanGet long s mem)
  checkApart s [] rings
  return rings

/-- The table has an IO ring of type 0. -/
def haveIo (rings : List Ring) : Bool :=
  rings.any (fun r => r.name == ascii "IO" && r.type == 0)

/-! ## The writes before READY -/

/-- The host takes a slot: `memset(e, 0, 24)` and `e[0] = 1`. -/
def ownSlot (off : Nat) : List (Nat × Bytes) :=
  [(off, List.replicate 24 0), (off, [1])]

/-- The host takes every slot of a ring of type 0. -/
def ownRing (s : Surface) (r : Ring) : List (Nat × Bytes) :=
  if r.type = 0 then
    (List.range r.slots).flatMap (fun k =>
      ownSlot (r.iova - s.iova + k * chSlot))
  else []

/-- The step up to READY: the writes to the surface, in order.  `needs` says
what the command phase asks of the rings. -/
def chanStep (long : Nat → Nat → Bool) (needs : List Ring → Bool)
    (s : Surface) (mem : Mem) : Except Errno (List (Nat × Bytes)) := do
  let rings ← checkTable long s mem
  stopIf (needs rings = false) .EPROTO
  return rings.flatMap (ownRing s)

/-- `ane_h18_chan_step` up to READY. -/
def h18ChanStep (hsCmds doorbell : Bool) : Surface → Mem →
    Except Errno (List (Nat × Bytes)) :=
  chanStep (fun slots left => decide (left < slots * chSlot % 2 ^ 64))
    (fun rings => !hsCmds || (haveIo rings && doorbell))

/-- `ane_h15_chan_step` up to READY. -/
def h15ChanStep (chanCmds : Bool) : Surface → Mem →
    Except Errno (List (Nat × Bytes)) :=
  chanStep (fun slots left => decide (left / chSlot < slots))
    (fun rings => !chanCmds || haveIo rings)

/-- The surface at READY, or when the step refuses. -/
def surfaceAfter (mem : Mem) : Except Errno (List (Nat × Bytes)) → Mem
  | .ok ws => pokeAll mem ws
  | .error _ => mem

/-! ## What the checks establish -/

section Checks

variable {s : Surface} {mem : Mem} {long : Nat → Nat → Bool} {r q : Ring}

/-- The bound of a module is the end of the ring. -/
def IsBound (long : Nat → Nat → Bool) : Prop :=
  ∀ slots left, slots ≤ chMaxSlots →
    (long slots left = false ↔ slots * chSlot ≤ left)

/-- A range of addresses, from its start and with its length. -/
def Ring.range (r : Ring) : Nat × Nat := (r.iova, r.slots * chSlot)

/-- The ring lies in the surface. -/
def Ring.Inside (s : Surface) (r : Ring) : Prop :=
  s.iova ≤ r.iova ∧ r.iova + r.slots * chSlot ≤ s.iova + s.size

theorem chanGet_inside (hlong : IsBound long) {i : Nat} (h : chanGet long s mem i = .ok r) :
    r = tableRing s mem i ∧ r.Inside s := by
  unfold chanGet at h
  simp only at h
  split at h
  · exact absurd h nofun
  case isFalse hok =>
    obtain rfl := (Except.ok.inj h).symm
    simp only [not_or, not_lt, not_le, Bool.not_eq_true] at hok
    obtain ⟨-, -, -, -, hmax, hlow, -, hhigh, hend⟩ := hok
    rw [hlong _ _ hmax] at hend
    exact ⟨rfl, hlow, by omega⟩

theorem Ring.Inside.stop_eq (h : r.Inside s) : r.stop = r.iova + r.slots * chSlot := by
  have hfits := s.fits
  obtain ⟨-, hhigh⟩ := h
  rw [Ring.stop, add64, Nat.mod_eq_of_lt (by omega)]

theorem overRing_iff (hr : r.Inside s) (hq : q.Inside s) :
    r.overRing q = false ↔ Separate r.range q.range := by
  rw [Ring.overRing, hr.stop_eq, hq.stop_eq, decide_eq_false_iff_not,
    Separate, Ring.range, Ring.range]
  omega

/-- The table lies in the surface. -/
def TableInside (s : Surface) : Prop :=
  s.table + chCount * chEntry ≤ s.iova + s.size

theorem overTable_iff (ht : TableInside s) (hr : r.Inside s) :
    r.overTable s = false ↔ Separate r.range (s.table, chCount * chEntry) := by
  have hfits := s.fits
  unfold TableInside at ht
  rw [Ring.overTable, hr.stop_eq, decide_eq_false_iff_not, Separate,
    Ring.range, add64, Nat.mod_eq_of_lt (by omega)]
  omega

theorem tableInside_iff : ¬((add64 s.iova s.size + 2 ^ 64 - s.table) % 2 ^ 64 <
    chCount * chEntry) ↔ TableInside s := by
  have hfits := s.fits
  have habove := s.above
  have hbelow := s.below
  unfold TableInside
  rw [add64, Nat.mod_eq_of_lt hfits]
  omega

/-- The loop compares each ring with the table and with those before it. -/
theorem checkApart_ok {before rings : List Ring} (h : checkApart s before rings = .ok ()) :
    (∀ r ∈ rings, r.overTable s = false) ∧
    (∀ r ∈ rings, ∀ q ∈ before, r.overRing q = false) ∧
    rings.Pairwise (fun q r => r.overRing q = false) := by
  induction rings generalizing before with
  | nil => exact ⟨by simp, by simp, .nil⟩
  | cons r rest ih =>
    rw [checkApart] at h
    split at h
    · exact absurd h nofun
    case isFalse htable =>
      split at h
      · exact absurd h nofun
      case isFalse hbefore =>
        obtain ⟨hrest, hold, hpair⟩ := ih h
        have hr : ∀ q ∈ before, r.overRing q = false := by
          intro q hq
          by_contra hne
          exact hbefore (any_eq_true.mpr ⟨q, hq, by simpa using hne⟩)
        refine ⟨?_, ?_, pairwise_cons.mpr ⟨?_, hpair⟩⟩
        · exact forall_mem_cons.mpr ⟨by simpa using htable, hrest⟩
        · refine forall_mem_cons.mpr ⟨hr, fun r' hr' q hq => ?_⟩
          exact hold r' hr' q (mem_append_left _ hq)
        · intro r' hr'
          exact hold r' hr' r (mem_append_right _ (mem_singleton.mpr rfl))

/-- An accepted table: its rings lie in the surface, apart from the table and
from each other. -/
structure Accepted (s : Surface) (mem : Mem) : Prop where
  inside : ∀ i < chCount, (tableRing s mem i).Inside s
  table : ∀ i < chCount, Separate (tableRing s mem i).range
    (s.table, chCount * chEntry)
  apart : ∀ i < chCount, ∀ j < chCount, i ≠ j →
    Separate (tableRing s mem i).range (tableRing s mem j).range

theorem checkTable_ok (hlong : IsBound long) {rings : List Ring}
    (h : checkTable long s mem = .ok rings) :
    rings = (List.range chCount).map (tableRing s mem) ∧ Accepted s mem := by
  simp only [checkTable, bind_eq_ok, stopIf_eq_ok, pure_eq_ok, exists_const] at h
  obtain ⟨hsize, rings', hget, ⟨⟩, hapart, rfl⟩ := h
  have ht := tableInside_iff.mp hsize
  obtain ⟨rfl, hall⟩ := mapM_eq_ok (fun h => (chanGet_inside hlong h).1) hget
  have hin : ∀ i < chCount, (tableRing s mem i).Inside s := fun i hi =>
    (chanGet_inside hlong (hall i (mem_range.mpr hi))).2
  obtain ⟨htable, -, hpair⟩ := checkApart_ok hapart
  refine ⟨rfl, hin, fun i hi => ?_, ?_⟩
  · exact (overTable_iff ht (hin i hi)).mp
      (htable _ (mem_map_of_mem (mem_range.mpr hi)))
  · -- The loop compares a ring with those before it only.
    have hlater : ∀ i j, i < j → j < chCount →
        Separate (tableRing s mem j).range (tableRing s mem i).range := by
      intro i j hij hj
      rw [pairwise_map, pairwise_iff_getElem] at hpair
      have hover := hpair i j (by simpa using hij.trans hj) (by simpa using hj) hij
      simp only [getElem_range] at hover
      exact (overRing_iff (hin j hj) (hin i (hij.trans hj))).mp hover
    intro i hi j hj hne
    obtain hij | hji := Nat.lt_or_gt_of_ne hne
    · exact (hlater i j hij hj).symm
    · exact hlater j i hji hi

end Checks

/-! ## The writes -/

section Writes

variable {s : Surface} {mem : Mem} {long : Nat → Nat → Bool}
  {needs : List Ring → Bool} {ws : List (Nat × Bytes)} {w : Nat × Bytes}

/-- A write into the first 24 bytes of a slot of a type 0 ring.  They lie in
the surface, outside of the table and in no other ring. -/
structure OwnedWrite (s : Surface) (mem : Mem) (w : Nat × Bytes)
    (i k : Nat) : Prop where
  ring : i < chCount
  slot : k < (tableRing s mem i).slots
  type : (tableRing s mem i).type = 0
  start : s.iova + w.1 = (tableRing s mem i).iova + k * chSlot
  length : w.2.length ≤ 24
  inside : w.1 + 24 ≤ s.size
  table : Separate (s.iova + w.1, 24) (s.table, chCount * chEntry)
  others : ∀ j < chCount, j ≠ i →
    Separate (s.iova + w.1, 24) (tableRing s mem j).range

theorem mem_ownRing {r : Ring} (h : w ∈ ownRing s r) : r.type = 0 ∧ w.2.length ≤ 24 ∧
      ∃ k < r.slots, w.1 = r.iova - s.iova + k * chSlot := by
  unfold ownRing at h
  split at h
  case isTrue htype =>
    obtain ⟨k, hk, hw⟩ := mem_flatMap.mp h
    have hk := mem_range.mp hk
    simp only [ownSlot, mem_cons, not_mem_nil, or_false] at hw
    obtain rfl | rfl := hw
    · exact ⟨htype, by simp, k, hk, rfl⟩
    · exact ⟨htype, by simp, k, hk, rfl⟩
  case isFalse => exact absurd h not_mem_nil

theorem chanStep_owned (hlong : IsBound long) (h : chanStep long needs s mem = .ok ws) :
    ∀ w ∈ ws, ∃ i k, OwnedWrite s mem w i k := by
  simp only [chanStep, bind_eq_ok, stopIf_eq_ok, pure_eq_ok, exists_const] at h
  obtain ⟨rings, htable, -, rfl⟩ := h
  obtain ⟨rfl, hacc⟩ := checkTable_ok hlong htable
  intro w hw
  obtain ⟨r, hr, hw⟩ := mem_flatMap.mp hw
  obtain ⟨i, hi, rfl⟩ := mem_map.mp hr
  have hi := mem_range.mp hi
  obtain ⟨htype, hlen, k, hk, hstart⟩ := mem_ownRing hw
  obtain ⟨hlow, hhigh⟩ := hacc.inside i hi
  have hslot : k * chSlot + 24 ≤ (tableRing s mem i).slots * chSlot := by
    unfold chSlot
    omega
  have hfirst : (tableRing s mem i).iova ≤ s.iova + w.1 := by omega
  have hlast : s.iova + w.1 + 24 ≤
      (tableRing s mem i).iova + (tableRing s mem i).slots * chSlot := by omega
  refine ⟨i, k, hi, hk, htype, by omega, hlen, by omega, ?_, ?_⟩
  · exact (hacc.table i hi).part hfirst hlast
  · intro j hj hne
    exact (hacc.apart i hi j hj hne.symm).part hfirst hlast

/-! ## The two modules -/

/-- The product that the H18 module compares does not wrap. -/
theorem isBound_h18 : IsBound (fun slots left => decide (left < slots * chSlot % 2 ^ 64)) := by
  intro slots left hmax
  unfold chMaxSlots at hmax
  unfold chSlot
  rw [decide_eq_false_iff_not, Nat.mod_eq_of_lt (by omega)]
  omega

theorem isBound_h15 : IsBound (fun slots left => decide (left / chSlot < slots)) := by
  intro slots left _
  unfold chSlot
  rw [decide_eq_false_iff_not]
  omega

/-- Two ways to bound a ring accept the same tables. -/
theorem chanGet_congr {long' : Nat → Nat → Bool} (h : IsBound long)
    (h' : IsBound long') : chanGet long s mem = chanGet long' s mem := by
  funext i
  unfold chanGet
  simp only
  by_cases hmax : (tableRing s mem i).slots ≤ chMaxSlots
  · have heq : ∀ left, long (tableRing s mem i).slots left =
        long' (tableRing s mem i).slots left := by
      intro left
      have hiff := (h _ left hmax).trans (h' _ left hmax).symm
      cases hl : long (tableRing s mem i).slots left <;>
        cases hl' : long' (tableRing s mem i).slots left <;>
        simp_all
    rw [heq]
  · rw [not_le] at hmax
    rw [if_pos (by simp [hmax]), if_pos (by simp [hmax])]

/-- For every content of the table the steps refuse and leave the surface
alone, or they write the first 24 bytes of slots of type 0 rings only.
Without the command phase the two steps do the same. -/
theorem chan_writes_owned (s : Surface) (mem : Mem) (hsCmds doorbell chanCmds : Bool) :
    (∀ step ∈ [h18ChanStep hsCmds doorbell s mem, h15ChanStep chanCmds s mem],
      ((∃ e, step = .error e) ∧ surfaceAfter mem step = mem) ∨
      ∃ ws, step = .ok ws ∧ surfaceAfter mem step = pokeAll mem ws ∧
        ∀ w ∈ ws, ∃ i k, OwnedWrite s mem w i k) ∧
    h18ChanStep false doorbell s mem = h15ChanStep false s mem := by
  have hcases : ∀ {long needs}, IsBound long →
      ((∃ e, chanStep long needs s mem = .error e) ∧
        surfaceAfter mem (chanStep long needs s mem) = mem) ∨
      ∃ ws, chanStep long needs s mem = .ok ws ∧
        surfaceAfter mem (chanStep long needs s mem) = pokeAll mem ws ∧
        ∀ w ∈ ws, ∃ i k, OwnedWrite s mem w i k := by
    intro long needs hlong
    cases hstep : chanStep long needs s mem with
    | error e => exact .inl ⟨⟨e, rfl⟩, rfl⟩
    | ok ws => exact .inr ⟨ws, rfl, rfl, chanStep_owned hlong hstep⟩
  constructor
  · simp only [forall_mem_cons, not_mem_nil, false_imp_iff, implies_true, and_true]
    exact ⟨hcases isBound_h18, hcases isBound_h15⟩
  · unfold h18ChanStep h15ChanStep chanStep checkTable
    rw [chanGet_congr isBound_h18 isBound_h15]
    rfl

end Writes

end OmarchyAne.Chan
