import OmarchyAne.Lib.Kernel
import OmarchyAne.Lib.Lists
import OmarchyAne.Lib.Run
import Mathlib.Algebra.Order.BigOperators.Group.Finset

/-!
# The heap of the firmware

The firmware has no memory of its own for its buffers.  It asks for them on
its SHAREDMALLOC ring and gives them back there.  The driver keeps the buffers
in a table with a high-water mark and a byte budget.  The command buffer of
the driver is in the same table.

`mringClassify` says what a ring entry is, and `Heap.serve` what the table
does for it.  `Heap.Inv` is the invariant: the byte count is the sum of the
sizes of the occupied slots, which all lie below the mark, and no two have
the same address.

An allocation that fails may leave a new address in the free slot that it
tried (`heap_exact_stale`).  Nothing reads the address of a free slot.
-/

namespace OmarchyAne.T6021

open Lib List

/-! ## Ring entries -/

/-- The three words of a SHAREDMALLOC slot. -/
structure MEntry where
  hdr : UInt64
  size : UInt64
  mode : UInt64
  deriving DecidableEq, Repr

/-- `enum ane_t6021_mring_kind`. -/
inductive MKind where
  | idle | malloc | free | answered | bad
  deriving DecidableEq, Repr

/-- `ane_t6021_mring_classify`. -/
def mringClassify (e : MEntry) : MKind :=
  if e.hdr &&& 1 ≠ 0 then .answered
  else if e.hdr = 0 then
    if e.size = 0 then .idle
    else if e.mode > 0xffffffff then .bad
    else .malloc
  else if e.size ≠ 0 ∨ e.mode ≠ 0 then .bad
  else .free

/-! ## The table -/

/-- `struct ane_legacy_buffer`.  A slot is free when `cpu` is not set. -/
structure LegBuf where
  cpu : Bool
  dma : UInt64
  size : Nat
  deriving DecidableEq, Repr

def LegBuf.zero : LegBuf := { cpu := false, dma := 0, size := 0 }

/-- A slot with a buffer. -/
def LegBuf.filled (dma : UInt64) (size : Nat) : LegBuf :=
  { cpu := true, dma := dma, size := size }

/-- The bytes that a slot holds. -/
def LegBuf.bytes (b : LegBuf) : Nat := if b.cpu then b.size else 0

/-- `ANE_LEGACY_ALLOCS`. -/
def legacyAllocs : Nat := 8192

/-- `ANE_LEGACY_BYTES`. -/
def legacyBytes : Nat := 512 * 2 ^ 20

/-- `ane_legtab_pick`. -/
def legtabPick (t : Nat → LegBuf) (used cap : Nat) : Option Nat :=
  match (List.range used).find? (fun i => !(t i).cpu) with
  | some i => some i
  | none => if used < cap then some used else none

/-- `ane_legtab_find`. -/
def legtabFind (t : Nat → LegBuf) (used : Nat) (dma : UInt64)
    (keep : Option Nat) : Option Nat :=
  (List.range used).find? (fun i =>
    (t i).cpu && (t i).dma == dma && some i != keep)

/-- The table with its mark, its byte count, the slot of the last allocation
and the slot of the command buffer. -/
structure Heap where
  slots : Nat → LegBuf
  used : Nat
  bytes : Nat
  last : Option Nat
  cmdBuf : Option Nat

/-- What `dma_alloc_coherent` does: it may write the address also when it
fails. -/
inductive DmaAlloc where
  | fails (dma : UInt64)
  | ok (dma : UInt64)
  deriving DecidableEq, Repr

namespace Heap

def empty : Heap :=
  { slots := fun _ => .zero, used := 0, bytes := 0, last := none,
    cmdBuf := none }

def setSlot (h : Heap) (i : Nat) (b : LegBuf) : Heap :=
  { h with slots := Function.update h.slots i b }

/-- A slot that stays free, with the address of a failed allocation. -/
def leaveFree (h : Heap) (i : Nat) (dma : UInt64) : Heap :=
  h.setSlot i { h.slots i with cpu := false, dma := dma }

/-- `ane_rtclient_legacy_alloc`.  The byte count is a 64-bit word. -/
def legacyAlloc (aliasOk : UInt64 → Nat → Bool) (h : Heap) (size : Nat)
    (r : DmaAlloc) : Heap × Except Errno Unit :=
  if size = 0 ∨ size % 0x4000 ≠ 0 ∨ 0x200000 < size ∨
      (2 ^ 64 + legacyBytes - h.bytes) % 2 ^ 64 < size then (h, .error .E2BIG)
  else
    match legtabPick h.slots h.used legacyAllocs with
    | none => (h, .error .E2BIG)
    | some i =>
      match r with
      | .fails dma => (h.leaveFree i dma, .error .ENOMEM)
      | .ok dma =>
        if dma.toNat % 0x4000 ≠ 0 ∨ !aliasOk dma size then
          (h.leaveFree i dma, .error .ERANGE)
        else
          ({ h.setSlot i (.filled dma size) with
            used := if i = h.used then h.used + 1 else h.used
            bytes := (h.bytes + size) % 2 ^ 64
            last := some i }, .ok ())

/-- The release of a buffer that the firmware gave back. -/
def release (h : Heap) (dma : UInt64) : Heap :=
  match legtabFind h.slots h.used dma h.cmdBuf with
  | none => h
  | some i =>
    { h.setSlot i .zero with
      bytes := (2 ^ 64 + h.bytes - (h.slots i).size) % 2 ^ 64 }

/-- What `ane_rtclient_malloc_service` does to the table for an entry, and
its answer: whether the entry was answered. -/
def serve (aliasOk : UInt64 → Nat → Bool) (h : Heap) (e : MEntry)
    (r : DmaAlloc) : Heap × Except Errno Bool :=
  match mringClassify e with
  | .malloc =>
    match h.legacyAlloc aliasOk e.size.toNat r with
    | (h', .error _) => (h', .error .ENOMEM)
    | (h', .ok _) => (h', .ok true)
  | .free => (h.release e.hdr, .ok true)
  | .idle | .answered => (h, .ok false)
  | .bad => (h, .error .EOPNOTSUPP)

/-- A new buffer is not one that the driver has. -/
def fresh (h : Heap) : DmaAlloc → Bool
  | .fails _ => true
  | .ok dma =>
    (List.range h.used).all (fun i => !(h.slots i).cpu || (h.slots i).dma != dma)

/-- The probe allocates the command buffer. -/
def allocCmdBuf (aliasOk : UInt64 → Nat → Bool) (h : Heap) (r : DmaAlloc) :
    Heap :=
  match h.legacyAlloc aliasOk 0x4000 r with
  | (h', .error _) => h'
  | (h', .ok _) => { h' with cmdBuf := h'.last }

end Heap

/-- What happens to the table. -/
inductive HeapAct where
  | allocCmdBuf (r : DmaAlloc)
  | serve (e : MEntry) (r : DmaAlloc)
  deriving DecidableEq, Repr

/-- The table from the probe on. -/
def heapSystem (aliasOk : UInt64 → Nat → Bool) : System Heap HeapAct where
  init h := h = .empty
  step h
    | .allocCmdBuf r =>
      if h.cmdBuf = none ∧ h.fresh r then some (h.allocCmdBuf aliasOk r)
      else none
    | .serve e r => if h.fresh r then some (h.serve aliasOk e r).1 else none

namespace Heap

variable {aliasOk : UInt64 → Nat → Bool} {h : Heap} {e : MEntry} {t : Nat → LegBuf} {used : Nat}
  {keep : Option Nat} {b : LegBuf} {r : DmaAlloc}

theorem serve_free (hkind : mringClassify e = .free) (r : DmaAlloc) :
    (h.serve aliasOk e r).1 = h.release e.hdr := by
  simp only [serve, hkind]

/-! ## The searches -/

/-- A new buffer gets a free slot below the mark, or the one at the mark. -/
theorem legtabPick_some {cap i : Nat} (h : legtabPick t used cap = some i) :
    (i < used ∧ (t i).cpu = false) ∨ (i = used ∧ used < cap) := by
  unfold legtabPick at h
  split at h
  · rename_i j hfind
    cases h
    have hfree := find?_some hfind
    have hmem := mem_of_find?_eq_some hfind
    exact Or.inl ⟨mem_range.mp hmem, by simpa using hfree⟩
  · split at h
    · rename_i hlt
      exact Or.inr ⟨(Option.some.inj h).symm, hlt⟩
    · cases h

theorem legtabFind_some {i : Nat} {dma : UInt64} (h : legtabFind t used dma keep = some i) :
    i < used ∧ (t i).cpu = true ∧ (t i).dma = dma ∧ keep ≠ some i := by
  have hmem := mem_of_find?_eq_some h
  have htest := find?_some h
  simp only [Bool.and_eq_true, beq_iff_eq, bne_iff_ne, ne_eq] at htest
  exact ⟨mem_range.mp hmem, htest.1.1, htest.1.2, Ne.symm htest.2⟩

theorem legtabFind_none {i : Nat} {dma : UInt64}
    (h : legtabFind t used dma keep = none) (hi : i < used)
    (hcpu : (t i).cpu = true) (hdma : (t i).dma = dma) :
    keep = some i := by
  have htest := find?_eq_none.mp h i (mem_range.mpr hi)
  simp only [hcpu, hdma, beq_self_eq_true, Bool.true_and, bne_iff_ne, ne_eq, not_not] at htest
  exact htest.symm

/-! ## The invariant -/

/-- What holds of the table between the requests. -/
structure Inv (h : Heap) : Prop where
  used_le : h.used ≤ legacyAllocs
  below : ∀ i, (h.slots i).cpu = true → i < h.used
  bytes : h.bytes = ∑ i ∈ Finset.range h.used, (h.slots i).bytes
  bytes_le : h.bytes ≤ legacyBytes
  cmd : ∀ i, h.cmdBuf = some i → (h.slots i).cpu = true
  distinct : ∀ i j, (h.slots i).cpu = true → (h.slots j).cpu = true →
    (h.slots i).dma = (h.slots j).dma → i = j

theorem inv_empty : empty.Inv := by
  constructor <;> simp [empty, LegBuf.zero]

/-- A slot with a new buffer. -/
def take (h : Heap) (i : Nat) (dma : UInt64) (size : Nat) : Heap :=
  { h.setSlot i (.filled dma size) with
    used := if i = h.used then h.used + 1 else h.used
    bytes := h.bytes + size
    last := some i }

/-- A slot without its buffer. -/
def drop (h : Heap) (i : Nat) : Heap :=
  { h.setSlot i .zero with bytes := h.bytes - (h.slots i).size }

/-- The free slot that an allocation may use. -/
def Free (h : Heap) (i : Nat) : Prop :=
  i ≤ h.used ∧ i < legacyAllocs ∧ (h.slots i).cpu = false

theorem Inv.pick (hinv : h.Inv) {i : Nat}
    (hpick : legtabPick h.slots h.used legacyAllocs = some i) : h.Free i := by
  rcases legtabPick_some hpick with ⟨hlt, hcpu⟩ | ⟨rfl, hlt⟩
  · exact ⟨Nat.le_of_lt hlt, Nat.lt_of_lt_of_le hlt hinv.used_le, hcpu⟩
  · refine ⟨le_rfl, hlt, ?_⟩
    by_contra hcpu
    exact Nat.lt_irrefl _ (hinv.below _ (by simpa using hcpu))

/-- What an allocation does. -/
inductive AllocCase (h : Heap) (size : Nat) (r : DmaAlloc) :
    Heap × Except Errno Unit → Prop where
  /-- It is refused before the table is touched. -/
  | refused {err} : AllocCase h size r (h, .error err)
  /-- It fails, and the slot that it tried is free as before. -/
  | failed {i dma err} (hfree : h.Free i) :
      AllocCase h size r (h.leaveFree i dma, .error err)
  | taken {i dma} (hfree : h.Free i) (hr : r = .ok dma)
      (hroom : h.bytes + size ≤ legacyBytes) :
      AllocCase h size r (h.take i dma size, .ok ())

theorem Inv.legacyAlloc_cases (hinv : h.Inv) (aliasOk : UInt64 → Nat → Bool)
    (size : Nat) (r : DmaAlloc) :
    AllocCase h size r (h.legacyAlloc aliasOk size r) := by
  have hle := hinv.bytes_le
  unfold legacyAlloc
  split
  · exact .refused
  · rename_i hsize
    -- The budget is not exceeded, so the subtraction does not wrap.
    have hroom : h.bytes + size ≤ legacyBytes := by
      unfold legacyBytes at *
      omega
    split
    · exact .refused
    · rename_i i hpick
      have hfree := hinv.pick hpick
      cases r with
      | fails dma => exact .failed hfree
      | ok dma =>
        simp only
        split
        · exact .failed hfree
        · have hword : (h.bytes + size) % 2 ^ 64 = h.bytes + size := by
            unfold legacyBytes at hroom
            omega
          rw [hword]
          exact .taken hfree rfl hroom

theorem setSlot_slots (h : Heap) (i j : Nat) (b : LegBuf) :
    (h.setSlot i b).slots j = if j = i then b else h.slots j :=
  Function.update_apply ..

/-- The bytes below the mark after slot `i` was overwritten. -/
theorem setSlot_sum (h : Heap) {i n : Nat} (hi : i < n) (b : LegBuf) :
    ∑ j ∈ Finset.range n, ((h.setSlot i b).slots j).bytes + (h.slots i).bytes =
      ∑ j ∈ Finset.range n, (h.slots j).bytes + b.bytes :=
  sum_range_update h.slots LegBuf.bytes hi b

theorem bytes_of_free (h : b.cpu = false) : b.bytes = 0 := by
  simp [LegBuf.bytes, h]

theorem bytes_of_occupied (h : b.cpu = true) : b.bytes = b.size := by
  simp [LegBuf.bytes, h]

theorem Free.leaveFree_slots {i : Nat} (hfree : h.Free i) (dma : UInt64) (j : Nat) :
    ((h.leaveFree i dma).slots j).cpu = (h.slots j).cpu ∧
      ((h.leaveFree i dma).slots j).size = (h.slots j).size ∧
      ((h.slots j).cpu = true → (h.leaveFree i dma).slots j = h.slots j) := by
  unfold leaveFree
  rw [setSlot_slots]
  split
  · rename_i hj
    subst hj
    simp [hfree.2.2]
  · simp

theorem Inv.leaveFree (hinv : h.Inv) {i : Nat} (hfree : h.Free i) (dma : UInt64) :
    (h.leaveFree i dma).Inv := by
  have hslots := hfree.leaveFree_slots dma
  have hcpu : ∀ j, ((h.leaveFree i dma).slots j).cpu = true →
      (h.slots j).cpu = true := fun j hj => (hslots j).1 ▸ hj
  refine ⟨hinv.used_le, fun j hj => hinv.below j (hcpu j hj), ?_, hinv.bytes_le, ?_, ?_⟩
  · refine hinv.bytes.trans (Finset.sum_congr rfl (fun j _ => ?_))
    rw [LegBuf.bytes, LegBuf.bytes, (hslots j).1, (hslots j).2.1]
  · intro j hj
    rw [(hslots j).1]
    exact hinv.cmd j hj
  · intro j k hj hk heq
    rw [(hslots j).2.2 (hcpu j hj), (hslots k).2.2 (hcpu k hk)] at heq
    exact hinv.distinct j k (hcpu j hj) (hcpu k hk) heq

/-- The address of a new buffer is not the one of an occupied slot. -/
theorem fresh_ne {dma : UInt64} (hfresh : h.fresh (.ok dma) = true)
    (hinv : h.Inv) {j : Nat} (hj : (h.slots j).cpu = true) :
    (h.slots j).dma ≠ dma := by
  have hall := all_eq_true.mp hfresh j (mem_range.mpr (hinv.below j hj))
  simpa [hj] using hall

theorem Inv.take (hinv : h.Inv) {i size : Nat} {dma : UInt64} (hfree : h.Free i)
    (hfresh : h.fresh (.ok dma) = true) (hroom : h.bytes + size ≤ legacyBytes) :
    (h.take i dma size).Inv := by
  have hslots : ∀ j, (h.take i dma size).slots j =
      if j = i then .filled dma size else h.slots j :=
    fun j => setSlot_slots h i j _
  have hused : (h.take i dma size).used =
      if i = h.used then h.used + 1 else h.used := rfl
  obtain ⟨hle, hcap, hcpu⟩ := hfree
  refine ⟨?_, ?_, ?_, hroom, ?_, ?_⟩
  · have hmax := hinv.used_le
    rw [hused]
    split <;> omega
  · intro j hj
    rw [hslots] at hj
    rw [hused]
    split at hj
    · split <;> omega
    · have hlt := hinv.below j hj
      split <;> omega
  · show h.bytes + size = ∑ j ∈ Finset.range (h.take i dma size).used, _
    rw [hused, hinv.bytes]
    -- The slot was free, so it counts for nothing in the old sum.
    have hzero := bytes_of_free hcpu
    have hnew : (LegBuf.filled dma size).bytes = size := rfl
    split
    · rename_i hi
      have hsum := setSlot_sum h (Nat.lt_succ_of_le hle) (.filled dma size)
      rw [Finset.sum_range_succ (fun j => (h.slots j).bytes), ← hi, hzero, hnew] at hsum
      rw [← hi]
      exact hsum.symm
    · rename_i hi
      have hlt : i < h.used := Nat.lt_of_le_of_ne hle hi
      have hsum := setSlot_sum h hlt (.filled dma size)
      rw [hzero, hnew] at hsum
      exact hsum.symm
  · intro j hj
    rw [hslots]
    split
    · rfl
    · exact hinv.cmd j hj
  · intro j k hj hk heq
    rw [hslots j] at hj heq
    rw [hslots k] at hk heq
    split at hj <;> split at hk
    · omega
    · rename_i hji hki
      rw [if_pos hji, if_neg hki] at heq
      exact absurd heq.symm (fresh_ne hfresh hinv hk)
    · rename_i hji hki
      rw [if_neg hji, if_pos hki] at heq
      exact absurd heq (fresh_ne hfresh hinv hj)
    · rename_i hji hki
      rw [if_neg hji, if_neg hki] at heq
      exact hinv.distinct j k hj hk heq

theorem Inv.drop (hinv : h.Inv) {i : Nat} (hcpu : (h.slots i).cpu = true)
    (hcmd : h.cmdBuf ≠ some i) :
    (h.drop i).Inv := by
  have hlt := hinv.below i hcpu
  have hslots : ∀ j, (h.drop i).slots j =
      if j = i then .zero else h.slots j := fun j => setSlot_slots h i j _
  have hold : ∀ j, ((h.drop i).slots j).cpu = true → j ≠ i ∧ (h.drop i).slots j = h.slots j := by
    intro j hj
    rw [hslots] at hj ⊢
    split at hj
    · exact absurd hj (by simp [LegBuf.zero])
    · rename_i hne
      exact ⟨hne, if_neg hne⟩
  refine ⟨hinv.used_le, ?_, ?_, ?_, ?_, ?_⟩
  · intro j hj
    rw [(hold j hj).2] at hj
    exact hinv.below j hj
  · have hsum := setSlot_sum h hlt .zero
    rw [bytes_of_occupied hcpu, ← hinv.bytes] at hsum
    have hzero : LegBuf.zero.bytes = 0 := rfl
    show h.bytes - (h.slots i).size = ∑ j ∈ Finset.range h.used, ((h.setSlot i .zero).slots j).bytes
    omega
  · exact Nat.le_trans (Nat.sub_le _ _) hinv.bytes_le
  · intro j hj
    rw [hslots, if_neg]
    · exact hinv.cmd j hj
    · intro hji
      exact hcmd (hji ▸ hj)
  · intro j k hj hk heq
    have hj' := (hold j hj).2
    have hk' := (hold k hk).2
    rw [hj'] at hj heq
    rw [hk'] at hk heq
    exact hinv.distinct j k hj hk heq

theorem Inv.size_le (hinv : h.Inv) {i : Nat} (hcpu : (h.slots i).cpu = true) :
    (h.slots i).size ≤ h.bytes := by
  rw [← bytes_of_occupied hcpu, hinv.bytes]
  exact Finset.single_le_sum (f := fun j => (h.slots j).bytes)
    (fun _ _ => Nat.zero_le _) (Finset.mem_range.mpr (hinv.below i hcpu))

/-- A FREE drops the slot with its address, unless it is the command
buffer. -/
theorem Inv.release_eq (hinv : h.Inv) {i : Nat} (hcpu : (h.slots i).cpu = true)
    (hcmd : h.cmdBuf ≠ some i) :
    h.release (h.slots i).dma = h.drop i := by
  have hlt := hinv.below i hcpu
  have hsize := hinv.size_le hcpu
  have hmax := hinv.bytes_le
  unfold release
  split
  · rename_i hfind
    exact absurd (legtabFind_none hfind hlt hcpu rfl) hcmd
  · rename_i j hfind
    obtain ⟨-, hj, hdma, -⟩ := legtabFind_some hfind
    obtain rfl := hinv.distinct j i hj hcpu hdma
    have hword : (2 ^ 64 + h.bytes - (h.slots j).size) % 2 ^ 64 = h.bytes - (h.slots j).size := by
      unfold legacyBytes at hmax
      omega
    rw [hword]
    rfl

/-- A FREE of an address that no slot has, or only the command buffer,
releases nothing. -/
theorem release_none {dma : UInt64}
    (hnone : ∀ i, (h.slots i).cpu = true → (h.slots i).dma = dma →
      h.cmdBuf = some i) : h.release dma = h := by
  unfold release
  split
  · rfl
  · rename_i i hfind
    obtain ⟨-, hcpu, hdma, hcmd⟩ := legtabFind_some hfind
    exact absurd (hnone i hcpu hdma) hcmd

theorem Inv.release_cases (hinv : h.Inv) (dma : UInt64) :
    h.release dma = h ∨ ∃ i, (h.slots i).cpu = true ∧ h.cmdBuf ≠ some i ∧
      h.release dma = h.drop i := by
  by_cases hsome : ∃ i, (h.slots i).cpu = true ∧ (h.slots i).dma = dma ∧ h.cmdBuf ≠ some i
  · obtain ⟨i, hcpu, rfl, hcmd⟩ := hsome
    exact Or.inr ⟨i, hcpu, hcmd, hinv.release_eq hcpu hcmd⟩
  · push Not at hsome
    exact Or.inl (release_none hsome)

theorem Inv.release (hinv : h.Inv) (dma : UInt64) : (h.release dma).Inv := by
  rcases hinv.release_cases dma with heq | ⟨i, hcpu, hcmd, heq⟩
  · rw [heq]
    exact hinv
  · rw [heq]
    exact hinv.drop hcpu hcmd

/-- An allocation keeps the invariant. -/
theorem Inv.alloc (hinv : h.Inv) (aliasOk : UInt64 → Nat → Bool) (size : Nat)
    (hfresh : h.fresh r = true) :
    (h.legacyAlloc aliasOk size r).1.Inv := by
  have hcases := hinv.legacyAlloc_cases aliasOk size r
  generalize h.legacyAlloc aliasOk size r = res at hcases ⊢
  cases hcases with
  | refused => exact hinv
  | failed hfree => exact hinv.leaveFree hfree _
  | taken hfree hr hroom =>
    subst hr
    exact hinv.take hfree hfresh hroom

theorem Inv.serve (hinv : h.Inv) (e : MEntry) (hfresh : h.fresh r = true) :
    (h.serve aliasOk e r).1.Inv := by
  unfold Heap.serve
  split
  · have halloc := hinv.alloc aliasOk e.size.toNat hfresh
    split <;> rename_i heq <;> rw [heq] at halloc <;> exact halloc
  · exact hinv.release e.hdr
  · exact hinv
  · exact hinv
  · exact hinv

theorem Inv.allocCmdBuf (hinv : h.Inv) (hfresh : h.fresh r = true) :
    (h.allocCmdBuf aliasOk r).Inv := by
  have halloc := hinv.alloc aliasOk 0x4000 hfresh
  have hcases := hinv.legacyAlloc_cases aliasOk 0x4000 r
  unfold Heap.allocCmdBuf
  generalize h.legacyAlloc aliasOk 0x4000 r = res at hcases halloc ⊢
  cases hcases with
  | refused => exact halloc
  | failed => exact halloc
  | @taken i dma =>
    refine { halloc with cmd := fun j hj => ?_ }
    obtain rfl : i = j := Option.some.inj hj
    show ((h.setSlot i (.filled dma 0x4000)).slots i).cpu = true
    rw [setSlot_slots, if_pos rfl]
    rfl

/-- A request that is refused or fails leaves the mark, the count and every
occupied slot, and no slot gets or loses its buffer. -/
structure Kept (h h' : Heap) : Prop where
  used : h'.used = h.used
  bytes : h'.bytes = h.bytes
  cmdBuf : h'.cmdBuf = h.cmdBuf
  slots : ∀ i, (h'.slots i).cpu = (h.slots i).cpu ∧
    (h'.slots i).size = (h.slots i).size ∧
    ((h.slots i).cpu = true → h'.slots i = h.slots i)

theorem Inv.serve_error (hinv : h.Inv) {err : Errno} (herr : (h.serve aliasOk e r).2 = .error err) :
    h.Kept (h.serve aliasOk e r).1 := by
  have hsame : h.Kept h := ⟨rfl, rfl, rfl, fun _ => ⟨rfl, rfl, fun _ => rfl⟩⟩
  unfold Heap.serve at herr ⊢
  split at herr
  · have hcases := hinv.legacyAlloc_cases aliasOk e.size.toNat r
    generalize h.legacyAlloc aliasOk e.size.toNat r = res at hcases herr ⊢
    cases hcases with
    | refused => exact hsame
    | failed hfree =>
      exact ⟨rfl, rfl, rfl, hfree.leaveFree_slots _⟩
    | taken => cases herr
  · cases herr
  · cases herr
  · cases herr
  · exact hsame

/-- No request touches the command buffer. -/
theorem Inv.serve_cmdBuf (hinv : h.Inv) (e : MEntry) (r : DmaAlloc) {i : Nat}
    (hi : h.cmdBuf = some i) :
    (h.serve aliasOk e r).1.slots i = h.slots i ∧ (h.serve aliasOk e r).1.cmdBuf = some i := by
  have hcpu := hinv.cmd i hi
  have hne : ∀ {j}, h.Free j → i ≠ j := by
    intro j hfree hij
    exact absurd (hij ▸ hcpu) (by simp [hfree.2.2])
  unfold Heap.serve
  split
  · have hcases := hinv.legacyAlloc_cases aliasOk e.size.toNat r
    generalize h.legacyAlloc aliasOk e.size.toNat r = res at hcases ⊢
    cases hcases with
    | refused => exact ⟨rfl, hi⟩
    | failed hfree => exact ⟨(hfree.leaveFree_slots _ i).2.2 hcpu, hi⟩
    | taken hfree =>
      exact ⟨(setSlot_slots h _ i _).trans (if_neg (hne hfree)), hi⟩
  · rcases hinv.release_cases e.hdr with heq | ⟨j, -, hcmd, heq⟩
    · rw [heq]
      exact ⟨rfl, hi⟩
    · have hij : i ≠ j := fun hij => hcmd (hij ▸ hi)
      rw [heq]
      exact ⟨(setSlot_slots h j i _).trans (if_neg hij), hi⟩
  · exact ⟨rfl, hi⟩
  · exact ⟨rfl, hi⟩
  · exact ⟨rfl, hi⟩

end Heap

open Heap in
theorem heap_inv {aliasOk : UInt64 → Nat → Bool} {h : Heap}
    (hreach : (heapSystem aliasOk).Reachable h) : h.Inv := by
  refine System.reachable_invariant ?_ ?_ hreach
  · intro h hinit
    exact hinit ▸ inv_empty
  · intro h a h' hinv hstep
    cases a with
    | allocCmdBuf r =>
      simp only [heapSystem] at hstep
      split at hstep
      · rename_i hguard
        cases hstep
        exact hinv.allocCmdBuf hguard.2
      · cases hstep
    | serve e r =>
      simp only [heapSystem] at hstep
      split at hstep
      · rename_i hfresh
        cases hstep
        exact hinv.serve e hfresh
      · cases hstep

/-- The heap in every state that any requests lead to: the count, the mark,
what a FREE releases, and what a request that fails leaves. -/
theorem heap_exact {aliasOk : UInt64 → Nat → Bool} {h : Heap}
    (hreach : (heapSystem aliasOk).Reachable h) :
    (h.bytes = ∑ i ∈ Finset.range h.used, (h.slots i).bytes ∧ h.bytes ≤ legacyBytes) ∧
    ((∀ i, (h.slots i).cpu = true → i < h.used) ∧ h.used ≤ legacyAllocs) ∧
    (∀ e r, mringClassify e = .free → (∀ i, (h.slots i).cpu = true → (h.slots i).dma = e.hdr →
        h.cmdBuf ≠ some i → (h.serve aliasOk e r).1 = h.drop i) ∧
      ((∀ i, (h.slots i).cpu = true → (h.slots i).dma = e.hdr →
        h.cmdBuf = some i) → (h.serve aliasOk e r).1 = h)) ∧
    (∀ i, h.cmdBuf = some i → (h.slots i).cpu = true ∧
      ∀ e r, (h.serve aliasOk e r).1.slots i = h.slots i) ∧
    ∀ e r err, (h.serve aliasOk e r).2 = .error err → h.Kept (h.serve aliasOk e r).1 := by
  have hinv := heap_inv hreach
  refine ⟨⟨hinv.bytes, hinv.bytes_le⟩, ⟨hinv.below, hinv.used_le⟩, ?_, ?_, ?_⟩
  · intro e r hfree
    rw [Heap.serve_free hfree]
    refine ⟨?_, Heap.release_none⟩
    intro i hcpu hdma hcmd
    rw [← hdma]
    exact hinv.release_eq hcpu hcmd
  · intro i hi
    exact ⟨hinv.cmd i hi, fun e r => (hinv.serve_cmdBuf e r hi).1⟩
  · intro e r err herr
    exact hinv.serve_error herr

/-! ## Runs -/

/-- The command buffer, and a buffer of 32 KiB for the firmware. -/
def heapRun : List HeapAct :=
  [.allocCmdBuf (.ok 0x4000),
    .serve { hdr := 0, size := 0x8000, mode := 0 } (.ok 0x8000)]

theorem heap_exact_free : ∃ h, (heapSystem (fun _ _ => true)).Reachable h ∧ h.bytes = 0xc000 ∧
      (h.serve (fun _ _ => true) { hdr := 0x8000, size := 0, mode := 0 }
        (.fails 0)).1 = h.drop 1 := by
  have hmap : ((heapSystem (fun _ _ => true)).run .empty heapRun).map
      (fun h => (h.slots 1, h.bytes, h.cmdBuf)) =
      some (.filled 0x8000 0x8000, 0xc000, some 0) := by decide
  obtain ⟨h, hrun, heq⟩ := Option.map_eq_some_iff.mp hmap
  simp only [Prod.mk.injEq] at heq
  obtain ⟨hslot, hbytes, hcmd⟩ := heq
  have hreach : (heapSystem (fun _ _ => true)).Reachable h :=
    ⟨.empty, heapRun, rfl, hrun⟩
  refine ⟨h, hreach, hbytes, ?_⟩
  refine ((heap_exact hreach).2.2.1 _ _ (by decide)).1 1 ?_ ?_ ?_
  · rw [hslot]
    rfl
  · rw [hslot]
    rfl
  · rw [hcmd]
    simp

/-- The firmware cannot reach the address of the new buffer.  The request
fails, and the table has the address in the slot that it tried. -/
theorem heap_exact_stale : ∃ h, (heapSystem (fun dma _ => dma != 0xc000)).Reachable h ∧
      (h.serve (fun dma _ => dma != 0xc000)
        { hdr := 0, size := 0x4000, mode := 0 } (.ok 0xc000)).2 =
        .error .ENOMEM ∧
      (h.serve (fun dma _ => dma != 0xc000)
        { hdr := 0, size := 0x4000, mode := 0 } (.ok 0xc000)).1.slots ≠
        h.slots := by
  have hmap : ((heapSystem (fun dma _ => dma != 0xc000)).run .empty
      heapRun).map (fun h =>
        let res := h.serve (fun dma _ => dma != 0xc000)
          { hdr := 0, size := 0x4000, mode := 0 } (.ok 0xc000)
        (res.2, (res.1.slots 2).dma, (h.slots 2).dma)) =
      some (.error .ENOMEM, 0xc000, 0) := by decide
  obtain ⟨h, hrun, heq⟩ := Option.map_eq_some_iff.mp hmap
  simp only [Prod.mk.injEq] at heq
  obtain ⟨hres, hnew, hold⟩ := heq
  refine ⟨h, ⟨.empty, heapRun, rfl, hrun⟩, hres, ?_⟩
  intro hsame
  rw [hsame, hold] at hnew
  exact absurd hnew (by decide)

end OmarchyAne.T6021
