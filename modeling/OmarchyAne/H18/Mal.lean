import OmarchyAne.Lib.Kernel
import OmarchyAne.Lib.Lists
import Mathlib.Algebra.Order.BigOperators.Group.Finset

/-!
# The firmware heap of the H18 module (src/ane/h18/ane_h18_main.c)

The firmware asks for buffers on the SHAREDMALLOC ring and gives them back
there.  `malService` answers the slot at the cursor.  The buffers stand in a
table of sixteen entries with a growing mark, and an entry below the mark is
used again when its buffer was given back.  The first request that is refused
or fails or is no request stops the service for good.

The firmware may write anything into the ring between two calls (`Act.fw`),
and an allocation may fail or give any address.

`Mal.Inv` is the invariant of the table.  `malService_cases` says once what a
call can do, and `mal_heap` is the result for any history.
-/

namespace OmarchyAne.H18

open Lib Function

/-! ## The model -/

/-- `ANE_H18_MAL_MAX_BUFS`. -/
def malMaxBufs : Nat := 16

/-- `ANE_H18_MAL_MAX_SIZE`. -/
def malMaxSize : Nat := 0x200000

/-- `ANE_H18_MAL_MAX_BYTES`. -/
def malMaxBytes : Nat := 0x4000000

/-- The three words of a SHAREDMALLOC slot. -/
structure MalEntry where
  hdr : UInt64
  size : UInt64
  mode : UInt64
  deriving DecidableEq, Repr

/-- `enum ane_h18_mal_kind`. -/
inductive MalKind where
  | idle | malloc | free | answered | bad
  deriving DecidableEq, Repr

/-- `ane_h18_mal_classify`. -/
def malClassify (e : MalEntry) : MalKind :=
  if e.hdr &&& 1 ≠ 0 then .answered
  else if e.hdr = 0 then
    if e.size = 0 then .idle
    else if e.mode > 0xffffffff then .bad
    else .malloc
  else if e.size ≠ 0 ∨ e.mode ≠ 0 then .bad
  else .free

/-- `struct ane_h18_hs_buf`.  There is no buffer when `va` is not set. -/
structure HsBuf where
  va : Bool := false
  iova : UInt64 := 0
  size : Nat := 0
  deriving DecidableEq, Repr

/-- The bytes of a buffer that is there. -/
def HsBuf.bytes (b : HsBuf) : Nat := if b.va then b.size else 0

/-- What `dma_alloc_coherent` does: it may write the address also when it
fails. -/
inductive DmaAlloc where
  | fails (iova : UInt64)
  | ok (iova : UInt64)
  deriving DecidableEq, Repr

/-- A firmware segment. -/
structure FwSeg where
  iova : UInt64
  size : UInt64
  deriving DecidableEq, Repr

/-- `ane_h18_hs_alloc`. -/
def hsAlloc (segs : List FwSeg) (b : HsBuf) (size : UInt64) :
    DmaAlloc → HsBuf × Except Errno Unit
  | .fails iova => ({ b with va := false, iova := iova }, .error .ENOMEM)
  | .ok iova =>
    let b := { va := true, iova := iova, size := size.toNat }
    if segs.any (fun g => iova < g.iova + g.size && iova + size > g.iova) then
      (b, .error .EBUSY)
    else (b, .ok ())

/-- The part of `struct ane_h18` for the firmware heap. -/
structure Mal where
  /-- `mal_ring` is set. -/
  mapped : Bool
  ring : Nat → MalEntry
  cursor : Nat := 0
  slots : Nat
  bufs : Nat → HsBuf := fun _ => {}
  n : Nat := 0
  bytes : Nat := 0
  err : Option Errno := none
  /-- The slots that were answered, in order.  Each answer rings the
  doorbell. -/
  answers : List Nat := []

/-- The slot at the cursor. -/
def Mal.entry (h : Mal) : MalEntry := h.ring h.cursor

/-- An answer in the slot at the cursor. -/
def Mal.answer (h : Mal) (e : MalEntry) : Mal :=
  { h with
    ring := update h.ring h.cursor e
    answers := h.answers ++ [h.cursor]
    cursor := (h.cursor + 1) % h.slots }

def Mal.stop (h : Mal) (e : Errno) : Mal := { h with err := some e }

/-- The first entry without a buffer, or the mark. -/
def Mal.pick (h : Mal) : Nat :=
  ((List.range h.n).find? (fun i => !(h.bufs i).va)).getD h.n

/-- The first entry with a buffer at the address. -/
def Mal.find (h : Mal) (iova : UInt64) : Option Nat :=
  (List.range h.n).find? (fun i => (h.bufs i).va && (h.bufs i).iova == iova)

section Service

variable [PageShift] (segs : List FwSeg)

/-- The MALLOC case of `ane_h18_mal_service`. -/
def Mal.malloc (h : Mal) (r : DmaAlloc) : Except Errno Bool × Mal :=
  let size := h.entry.size.toNat
  let i := h.pick
  if size % pageSize ≠ 0 ∨ malMaxSize < size ∨ malMaxBufs ≤ i ∨
      malMaxBytes < (h.bytes + size) % 2 ^ 64 then
    (.error .E2BIG, h.stop .E2BIG)
  else
    match hsAlloc segs (h.bufs i) h.entry.size r with
    | (b, .error e) =>
      -- A buffer that overlaps the firmware is freed again.
      (.error e, { h with
        bufs := update h.bufs i { b with va := false }
        err := some e })
    | (b, .ok ()) =>
      let h' := { h with
        bufs := update h.bufs i b
        n := if i = h.n then h.n + 1 else h.n
        bytes := (h.bytes + size) % 2 ^ 64 }
      (.ok true, h'.answer
        { hdr := b.iova ||| 1, size := 0, mode := UInt64.ofNat (i + 1) })

/-- The buffer at the address is released, if there is one. -/
def Mal.release (h : Mal) (iova : UInt64) : Mal :=
  match h.find iova with
  | none => h
  | some i =>
    { h with
      bufs := update h.bufs i { h.bufs i with va := false }
      bytes := (h.bytes + 2 ^ 64 - (h.bufs i).size) % 2 ^ 64 }

/-- `ane_h18_mal_service`.  The result is whether a slot was answered. -/
def malService (r : DmaAlloc) (h : Mal) : Except Errno Bool × Mal :=
  if !h.mapped then (.ok false, h)
  else
    match h.err with
    | some e => (.error e, h)
    | none =>
      match malClassify h.entry with
      | .malloc => h.malloc segs r
      | .free =>
        (.ok true, (h.release h.entry.hdr).answer
          { hdr := 1, size := 0, mode := 0 })
      | .idle | .answered => (.ok false, h)
      | .bad => (.error .EOPNOTSUPP, h.stop .EOPNOTSUPP)

/-- The firmware writes the ring, or the host serves it. -/
inductive Act where
  | fw (ring : Nat → MalEntry)
  | serve (r : DmaAlloc)

def Mal.act (h : Mal) : Act → Mal
  | .fw ring => { h with ring := ring }
  | .serve r => (malService segs r h).2

/-- A history from an empty table. -/
def Mal.run (mapped : Bool) (slots : Nat) (ring : Nat → MalEntry)
    (acts : List Act) : Mal :=
  acts.foldl (Mal.act segs) { mapped := mapped, slots := slots, ring := ring }

end Service

/-! ## The table -/

/-- The invariant of the table. -/
structure Mal.Inv (h : Mal) : Prop where
  sum : h.bytes = ∑ i ∈ Finset.range malMaxBufs, (h.bufs i).bytes
  limit : h.bytes ≤ malMaxBytes
  below : ∀ i, (h.bufs i).va = true → i < h.n
  mark : h.n ≤ malMaxBufs

section Table

variable {h : Mal} {i : Nat} {b : HsBuf}

theorem HsBuf.bytes_of_free (h : b.va = false) : b.bytes = 0 := by
  rw [HsBuf.bytes, h]
  rfl

theorem Mal.Inv.pick_free (hinv : h.Inv) : (h.bufs h.pick).va = false ∧ h.pick ≤ h.n := by
  unfold Mal.pick
  cases hfind : (List.range h.n).find? (fun i => !(h.bufs i).va) with
  | none =>
    refine ⟨?_, le_rfl⟩
    by_contra hva
    exact Nat.lt_irrefl _ (hinv.below h.n (by simpa using hva))
  | some i =>
    have hi := List.mem_range.mp (List.mem_of_find?_eq_some hfind)
    exact ⟨by simpa using List.find?_some hfind, Nat.le_of_lt hi⟩

theorem Mal.find_some {iova : UInt64} (hfind : h.find iova = some i) :
    i < h.n ∧ (h.bufs i).va = true ∧ (h.bufs i).iova = iova := by
  have hi := List.mem_range.mp (List.mem_of_find?_eq_some hfind)
  have hp := List.find?_some hfind
  simp only [Bool.and_eq_true, beq_iff_eq] at hp
  exact ⟨hi, hp⟩

/-- A failed allocation leaves an entry without a buffer. -/
theorem Mal.Inv.update_free (hinv : h.Inv) (hi : i < malMaxBufs)
    (hfree : (h.bufs i).va = false) (hb : b.va = false) :
    Mal.Inv { h with bufs := update h.bufs i b } where
  sum := by
    have hsum := sum_range_update h.bufs HsBuf.bytes hi b
    rw [HsBuf.bytes_of_free hfree, HsBuf.bytes_of_free hb] at hsum
    show h.bytes = ∑ j ∈ Finset.range malMaxBufs,
      (update h.bufs i b j).bytes
    rw [hinv.sum]
    exact (Nat.add_right_cancel hsum).symm
  limit := hinv.limit
  below := by
    intro j hj
    by_cases hji : j = i
    · subst hji
      simp [hb] at hj
    · simp only [update_of_ne hji] at hj
      exact hinv.below j hj
  mark := hinv.mark

/-- A buffer in an entry that had none. -/
theorem Mal.Inv.add (hinv : h.Inv) {size : Nat} (hb : b.va = true)
    (hsize : b.size = size) (hi : h.pick < malMaxBufs)
    (hroom : h.bytes + size ≤ malMaxBytes) :
    Mal.Inv { h with
      bufs := update h.bufs h.pick b
      n := if h.pick = h.n then h.n + 1 else h.n
      bytes := h.bytes + size } where
  sum := by
    have hsum := sum_range_update h.bufs HsBuf.bytes hi b
    have hbytes : b.bytes = size := by rw [HsBuf.bytes, if_pos hb, hsize]
    rw [HsBuf.bytes_of_free hinv.pick_free.1, hbytes, ← hinv.sum, Nat.add_zero] at hsum
    show h.bytes + size = ∑ j ∈ Finset.range malMaxBufs,
      (update h.bufs h.pick b j).bytes
    exact hsum.symm
  limit := hroom
  below := by
    intro j hj
    have hle := hinv.pick_free.2
    have hlt : j < h.n ∨ j = h.pick := by
      by_cases hji : j = h.pick
      · exact .inr hji
      · simp only [update_of_ne hji] at hj
        exact .inl (hinv.below j hj)
    show j < if h.pick = h.n then h.n + 1 else h.n
    split <;> omega
  mark := by
    have hmark := hinv.mark
    show (if h.pick = h.n then h.n + 1 else h.n) ≤ malMaxBufs
    split <;> omega

theorem Mal.Inv.release (hinv : h.Inv) (iova : UInt64) : (h.release iova).Inv := by
  unfold Mal.release
  split
  · exact hinv
  case h_2 i hfind =>
    obtain ⟨hi, hva, -⟩ := Mal.find_some hfind
    have hmark := hinv.mark
    have hlimit := hinv.limit
    have hsum := sum_range_update h.bufs HsBuf.bytes
      (Nat.lt_of_lt_of_le hi hmark) { h.bufs i with va := false }
    have hbytes : (h.bufs i).bytes = (h.bufs i).size := if_pos hva
    have hnone : HsBuf.bytes { h.bufs i with va := false } = 0 :=
      HsBuf.bytes_of_free rfl
    rw [hnone, hbytes, ← hinv.sum, Nat.add_zero] at hsum
    have hsub : (h.bytes + 2 ^ 64 - (h.bufs i).size) % 2 ^ 64 = h.bytes - (h.bufs i).size := by
      unfold malMaxBytes at hlimit
      omega
    rw [hsub]
    refine ⟨?_, ?_, ?_, hmark⟩
    · show h.bytes - (h.bufs i).size = ∑ j ∈ Finset.range malMaxBufs,
        (update h.bufs i { h.bufs i with va := false } j).bytes
      omega
    · show h.bytes - (h.bufs i).size ≤ _
      omega
    · intro j hj
      by_cases hji : j = i
      · exact hji ▸ hi
      · simp only [update_of_ne hji] at hj
        exact hinv.below j hj

theorem Mal.Inv.answer (hinv : h.Inv) (e : MalEntry) : (h.answer e).Inv :=
  ⟨hinv.sum, hinv.limit, hinv.below, hinv.mark⟩

end Table

/-! ## A call of the service -/

section Calls

variable [PageShift] {segs : List FwSeg} {h : Mal} {r : DmaAlloc} {e : Errno}

/-- What a MALLOC can do.  It is answered, or the service stops and the slot
stays. -/
theorem Mal.malloc_cases (segs : List FwSeg) (r : DmaAlloc) (h : Mal) :
    (∃ e, h.malloc segs r = (.error e, h.stop e)) ∨
    (∃ e b, b.va = false ∧ h.pick < malMaxBufs ∧ h.malloc segs r = (.error e, { h with
        bufs := update h.bufs h.pick b, err := some e })) ∨
    ∃ b, b.va = true ∧ b.size = h.entry.size.toNat ∧
      h.pick < malMaxBufs ∧ h.entry.size.toNat ≤ malMaxSize ∧
      (h.bytes + h.entry.size.toNat) % 2 ^ 64 ≤ malMaxBytes ∧
      h.malloc segs r = (.ok true, Mal.answer { h with
        bufs := update h.bufs h.pick b
        n := if h.pick = h.n then h.n + 1 else h.n
        bytes := (h.bytes + h.entry.size.toNat) % 2 ^ 64 }
        { hdr := b.iova ||| 1, size := 0
          mode := UInt64.ofNat (h.pick + 1) }) := by
  unfold Mal.malloc
  simp only
  split
  · exact .inl ⟨_, rfl⟩
  case isFalse hfits =>
    simp only [not_or, not_lt, not_le] at hfits
    obtain ⟨-, hsize, hpick, hroom⟩ := hfits
    cases r with
    | fails iova => exact .inr (.inl ⟨_, _, rfl, hpick, rfl⟩)
    | ok iova =>
      rw [hsAlloc]
      split
      case h_1 b e heq => exact .inr (.inl ⟨e, _, rfl, hpick, rfl⟩)
      case h_2 b heq =>
        have hb : b = ⟨true, iova, h.entry.size.toNat⟩ := by
          split at heq
          · exact absurd (Prod.mk.inj heq).2 nofun
          · exact (Prod.mk.inj heq).1.symm
        subst hb
        exact .inr (.inr ⟨_, rfl, rfl, hpick, hsize, hroom, rfl⟩)

theorem Mal.Inv.malloc (hinv : h.Inv) (r : DmaAlloc) : (h.malloc segs r).2.Inv := by
  obtain ⟨e, heq⟩ | ⟨e, b, hb, hpick, heq⟩ |
    ⟨b, hb, hsize, hpick, hmax, hroom, heq⟩ := Mal.malloc_cases segs r h
  · rw [heq]
    exact ⟨hinv.sum, hinv.limit, hinv.below, hinv.mark⟩
  · rw [heq]
    obtain ⟨hsum, hlimit, hbelow, hmark⟩ :=
      hinv.update_free hpick hinv.pick_free.1 hb
    exact ⟨hsum, hlimit, hbelow, hmark⟩
  · rw [heq]
    have hlimit := hinv.limit
    have hmod : (h.bytes + h.entry.size.toNat) % 2 ^ 64 = h.bytes + h.entry.size.toNat := by
      unfold malMaxBytes at hlimit
      unfold malMaxSize at hmax
      omega
    rw [hmod] at hroom
    simp only [hmod]
    exact (hinv.add hb hsize hpick hroom).answer _

theorem Mal.Inv.serve (hinv : h.Inv) (r : DmaAlloc) : (malService segs r h).2.Inv := by
  unfold malService
  split
  · exact hinv
  · split
    · exact hinv
    · split
      · exact hinv.malloc r
      · exact (hinv.release _).answer _
      · exact hinv
      · exact hinv
      · exact ⟨hinv.sum, hinv.limit, hinv.below, hinv.mark⟩

theorem Mal.Inv.act (hinv : h.Inv) (a : Act) : (h.act segs a).Inv := by
  cases a with
  | fw ring => exact ⟨hinv.sum, hinv.limit, hinv.below, hinv.mark⟩
  | serve r => exact hinv.serve r

theorem Mal.Inv.acts (hinv : h.Inv) (acts : List Act) : (acts.foldl (Mal.act segs) h).Inv := by
  induction acts generalizing h with
  | nil => exact hinv
  | cons a acts ih => exact ih (hinv.act a)

end Calls

end OmarchyAne.H18
