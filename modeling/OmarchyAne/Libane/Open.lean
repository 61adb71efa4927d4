import OmarchyAne.Libane.Ports
import OmarchyAne.T6021.Driver
import Mathlib.Algebra.Group.End
import Mathlib.Data.List.FinRange

/-!
# Opening a program

`ane_m2_open` builds the sections, computes the key that the driver would use
for them (`programDigest`) and asks the driver for a program with that key.
Without one it copies each section to a buffer, the largest first, and sends
PROG_LOAD (`openLoad`).

The sections that the kernel reads for this PROG_LOAD are the built ones in
slot order (`openLoad_eq`), and the library hashes the same stream
(`programDigest_eq`).  It refuses a set with an empty section; `ane_m2_open`
then asks for nothing and loads.
-/

namespace OmarchyAne.Libane

open Lib OmarchyAne.T6021 List

variable {χ δ : Type} {H : Hasher χ δ} {secs : Sections} {l : List (Fin 6)}
  {boAlloc : Fin 6 → Nat → Option (List UInt8)}

/-- `ane_m2_section_ids`. -/
def sectionIds : Fin 6 → UInt32 := ![1, 2, 3, 4, 5, 7]

/-! ## The key -/

/-- One turn of the loop of `ane_m2_program_digest_ctx`. -/
def digestSection (H : Hasher χ δ) (secs : Sections) (ctx : χ) (i : Fin 6) :
    Except Errno χ :=
  let data := (secs i).val
  if data.isEmpty then .error .EINVAL
  else
    let hdr := bytes64 (sectionIds i).toUInt64 ++ bytes64 data.length.toUInt64
    .ok (H.update (H.update ctx hdr) data)

/-- `ane_m2_program_digest`. -/
def programDigest (H : Hasher χ δ) (secs : Sections) : Except Errno δ :=
  H.final <$> (List.finRange 6).foldlM (digestSection H secs) H.init

/-! ## PROG_LOAD -/

/-- The pairs that the sort compares, in its order. -/
def sortPairs : List (Fin 6 × Fin 6) :=
  (List.finRange 6).flatMap (fun i =>
    ((List.finRange 6).filter (fun j => decide (i < j))).map (fun j => (i, j)))

/-- The visit order: the slots, largest section first. -/
def visitOrder (secs : Sections) : Equiv.Perm (Fin 6) :=
  sortPairs.foldl (fun order p =>
    if (secs (order p.1)).val.length < (secs (order p.2)).val.length then
      order * Equiv.swap p.1 p.2
    else order) 1

/-- `ANE_M2_BO_GUARD`, without an override from the environment. -/
def boGuard : Nat := 0x4000

/-- The buffers of the slots, each with what it holds. -/
abbrev SecBos := Fin 6 → Option (List UInt8)

/-- Allocate the buffer of a slot and copy the section to its front.
`boAlloc` says what a new buffer of that many bytes holds, or that there is
none. -/
def fillSlot (boAlloc : Fin 6 → Nat → Option (List UInt8)) (secs : Sections)
    (bos : SecBos) (slot : Fin 6) : Option SecBos :=
  let data := (secs slot).val
  match boAlloc slot (data.length + boGuard) with
  | none => none
  | some map =>
    some (Function.update bos slot (some (data ++ map.drop data.length)))

/-- The section arguments of PROG_LOAD.  A handle names its buffer. -/
def secArg (secs : Sections) (handle : Fin 6 → UInt32) (i : Fin 6) : SecArg where
  id := sectionIds i
  handle := handle i
  size := (secs i).val.length.toUInt64
  offset := 0

/-- What the kernel reads of a buffer for a section. -/
def readSection (a : SecArg) (content : List UInt8) : Option Section :=
  let bytes := (content.drop a.offset.toNat).take a.size.toNat
  if h : bytes.length = a.size.toNat then some (a.read bytes h) else none

/-- The sections that the kernel reads for the PROG_LOAD of `ane_m2_open`. -/
def openLoad (boAlloc : Fin 6 → Nat → Option (List UInt8))
    (handle : Fin 6 → UInt32) (secs : Sections) : Option (List Section) := do
  let bos ← (List.finRange 6).foldlM
    (fun bos i => fillSlot boAlloc secs bos (visitOrder secs i))
    (fun _ => none)
  (List.finRange 6).mapM (fun i => do
    let content ← bos i
    readSection (secArg secs handle i) content)

/-- The section of a slot as the kernel sees it. -/
def Sections.at (secs : Sections) (i : Fin 6) : Section where
  id := (sectionIds i).toUInt64
  bytes := (secs i).val
  small := (secs i).property

/-- The built sections in slot order. -/
def Sections.list (secs : Sections) : List Section :=
  (List.finRange 6).map secs.at

/-! ## The library hashes the stream of its sections -/

theorem digestSection_ok (hH : H.Streams) {i : Fin 6} (hi : (secs i).val ≠ []) (ctx : χ) :
    digestSection H secs ctx i = .ok (H.update ctx (secs.at i).stream) := by
  simp only [digestSection, List.isEmpty_iff, hi, if_false, hH.update_append]
  rfl

/-- The turns of the loop over the slots in `l`. -/
theorem digest_run (hH : H.Streams) (hl : ∀ i ∈ l, (secs i).val ≠ []) (ctx : χ) :
    l.foldlM (digestSection H secs) ctx = .ok (H.update ctx (sectionStream (l.map secs.at))) := by
  induction l generalizing ctx with
  | nil =>
    show Except.ok ctx = .ok (H.update ctx [])
    rw [hH.update_nil]
  | cons i l ih =>
    rw [foldlM_cons, digestSection_ok hH (hl i mem_cons_self)]
    show l.foldlM (digestSection H secs) _ = _
    rw [ih (fun j hj => hl j (mem_cons_of_mem i hj)), hH.update_append]
    rfl

/-- A turn with an empty section ends the loop. -/
theorem digest_run_empty (hl : ∃ i ∈ l, (secs i).val = []) (ctx : χ) :
    l.foldlM (digestSection H secs) ctx = .error .EINVAL := by
  induction l generalizing ctx with
  | nil => simp at hl
  | cons i l ih =>
    rw [foldlM_cons, digestSection]
    split
    · rfl
    · rename_i hi
      apply ih
      simpa [isEmpty_iff.not.mp hi] using hl

/-- The key of a section set: the hash of its stream, or EINVAL when a
section is empty. -/
theorem programDigest_eq (hH : H.Streams) (secs : Sections) :
    programDigest H secs = if ∃ i, (secs i).val = [] then .error .EINVAL
      else .ok (H.hash (sectionStream secs.list)) := by
  unfold programDigest
  split
  · rename_i hempty
    obtain ⟨i, hi⟩ := hempty
    rw [digest_run_empty ⟨i, mem_finRange i, hi⟩]
    rfl
  · rename_i hsome
    push Not at hsome
    rw [digest_run hH (fun i _ => hsome i)]
    rfl

/-! ## The kernel reads the built sections -/

/-- What the buffer of a slot holds after the copy. -/
def slotContent (boAlloc : Fin 6 → Nat → Option (List UInt8))
    (secs : Sections) (slot : Fin 6) : Option (List UInt8) :=
  (boAlloc slot ((secs slot).val.length + boGuard)).map (fun map =>
    (secs slot).val ++ map.drop (secs slot).val.length)

theorem fillSlot_eq {bos : SecBos} {slot : Fin 6} : fillSlot boAlloc secs bos slot =
      (slotContent boAlloc secs slot).map (fun content =>
        Function.update bos slot (some content)) := by
  simp only [fillSlot, slotContent]
  cases boAlloc slot ((secs slot).val.length + boGuard) <;> rfl

/-- After the turns over `l` each slot of `l` has its buffer. -/
theorem fill_run (hl : ∀ slot ∈ l, (slotContent boAlloc secs slot).isSome) (bos : SecBos) :
    ∃ bos', l.foldlM (fillSlot boAlloc secs) bos = some bos' ∧ ∀ slot, bos' slot =
        if slot ∈ l then slotContent boAlloc secs slot else bos slot := by
  induction l generalizing bos with
  | nil => exact ⟨bos, rfl, by simp⟩
  | cons i l ih =>
    obtain ⟨content, hcontent⟩ := Option.isSome_iff_exists.mp (hl i mem_cons_self)
    obtain ⟨bos', hrun, hbos⟩ :=
      ih (fun j hj => hl j (mem_cons_of_mem i hj)) (Function.update bos i (some content))
    refine ⟨bos', ?_, ?_⟩
    · rw [foldlM_cons, fillSlot_eq, hcontent]
      exact hrun
    · intro slot
      rw [hbos]
      by_cases hslot : slot = i
      · subst hslot
        simp [hcontent]
      · simp [hslot]

/-- A failed allocation ends the loop. -/
theorem fill_run_fails (hl : ∃ slot ∈ l, slotContent boAlloc secs slot = none) (bos : SecBos) :
    l.foldlM (fillSlot boAlloc secs) bos = none := by
  induction l generalizing bos with
  | nil => simp at hl
  | cons i l ih =>
    rw [foldlM_cons, fillSlot_eq]
    cases hcontent : slotContent boAlloc secs i with
    | none => rfl
    | some content =>
      apply ih
      simpa [hcontent] using hl

theorem readSection_front (secs : Sections) (handle : Fin 6 → UInt32)
    (i : Fin 6) (rest : List UInt8) :
    readSection (secArg secs handle i) ((secs i).val ++ rest) = some (secs.at i) := by
  have hsize : (secArg secs handle i).size.toNat = (secs i).val.length :=
    UInt64.toNat_ofNat_of_lt' (secs i).property
  have hoff : (secArg secs handle i).offset.toNat = 0 := rfl
  unfold readSection
  simp only [hsize, hoff, drop_zero, take_left', dif_pos]
  rfl

/-- The kernel reads the built sections in slot order, whatever the order
they were copied in.  There is no PROG_LOAD when an allocation fails. -/
theorem openLoad_eq (boAlloc : Fin 6 → Nat → Option (List UInt8))
    (handle : Fin 6 → UInt32) (secs : Sections) :
    openLoad boAlloc handle secs =
      if ∀ slot, (slotContent boAlloc secs slot).isSome then some secs.list
      else none := by
  have hfold : ∀ bos : SecBos, (List.finRange 6).foldlM
      (fun bos i => fillSlot boAlloc secs bos (visitOrder secs i)) bos =
      ((List.finRange 6).map (visitOrder secs)).foldlM
        (fillSlot boAlloc secs) bos := by
    intro bos
    rw [foldlM_map]
  -- Every slot is visited, since the order is a permutation.
  have hmem : ∀ slot, slot ∈ (List.finRange 6).map (visitOrder secs) := by
    intro slot
    exact mem_map.mpr ⟨(visitOrder secs).symm slot, mem_finRange _, Equiv.apply_symm_apply _ _⟩
  unfold openLoad
  rw [hfold]
  split
  · rename_i hall
    obtain ⟨bos, hrun, hbos⟩ := fill_run (l := (List.finRange 6).map _)
      (fun slot _ => hall slot) (fun _ => none)
    have hread : ∀ i, (bos i).bind (readSection (secArg secs handle i)) = some (secs.at i) := by
      intro i
      obtain ⟨map, hmap⟩ : ∃ map, slotContent boAlloc secs i =
          some ((secs i).val ++ map) := by
        obtain ⟨content, hcontent⟩ := Option.isSome_iff_exists.mp (hall i)
        obtain ⟨map, -, rfl⟩ := Option.map_eq_some_iff.mp hcontent
        exact ⟨_, hcontent⟩
      rw [hbos, if_pos (hmem i), hmap]
      exact readSection_front secs handle i map
    rw [hrun]
    show (List.finRange 6).mapM (fun i =>
      (bos i).bind (readSection (secArg secs handle i))) = _
    simp only [hread]
    exact mapM_pure
  · rename_i hfail
    obtain ⟨slot, hslot⟩ := not_forall.mp hfail
    rw [fill_run_fails ⟨slot, hmem slot, by simpa using hslot⟩]
    rfl

end OmarchyAne.Libane
