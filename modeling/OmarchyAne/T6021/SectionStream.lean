import OmarchyAne.Lib.Hash
import OmarchyAne.Lib.Lists
import OmarchyAne.Lib.Words

/-!
# The byte stream of a program

PROG_LOAD keys a program by a SHA-256 over its sections: for each one the id
and the size as 64-bit words, then the bytes.  There is no count in front.
The kernel hashes the words with one update and the bytes in slices of 1 MiB.

* `loadDigest_eq`: the slices do not matter, the digest is the one of the
  whole stream;
* `sectionStream_injective`: the stream shows where each section ends, so two
  section lists with the same stream are equal.
-/

namespace OmarchyAne.T6021

open Lib List

variable {χ δ : Type} {H : Hasher χ δ}

/-- One section as it is hashed.  Its size is a 64-bit word. -/
structure Section where
  id : UInt64
  bytes : List UInt8
  small : bytes.length < 2 ^ 64
  deriving DecidableEq, Repr

/-- The two words in front of the bytes of a section. -/
def Section.header (s : Section) : List UInt8 :=
  bytes64 s.id ++ bytes64 s.bytes.length.toUInt64

/-- `ANE_T6021_BO_HASH_CHUNK`. -/
def boHashChunk : Nat := 2 ^ 20

/-- The slice loop: every turn hashes at most `boHashChunk` bytes.  The length
of the rest is enough fuel. -/
def hashSlices (H : Hasher χ δ) : Nat → χ → List UInt8 → χ
  | 0, ctx, _ => ctx
  | fuel + 1, ctx, left =>
    if left.isEmpty then ctx
    else
      hashSlices H fuel (H.update ctx (left.take boHashChunk))
        (left.drop boHashChunk)

/-- What the loop of PROG_LOAD does for one section. -/
def hashSection (H : Hasher χ δ) (ctx : χ) (s : Section) : χ :=
  hashSlices H s.bytes.length (H.update ctx s.header) s.bytes

/-- The digest of a PROG_LOAD. -/
def loadDigest (H : Hasher χ δ) (secs : List Section) : δ :=
  H.final (secs.foldl (hashSection H) H.init)

/-- The stream of one section. -/
def Section.stream (s : Section) : List UInt8 := s.header ++ s.bytes

/-- The stream of a section list. -/
def sectionStream (secs : List Section) : List UInt8 :=
  secs.flatMap Section.stream

/-! ## The slices -/

/-- The slice loop hashes what is left, and it ends. -/
theorem hashSlices_eq (hH : H.Streams) {fuel : Nat} {left : List UInt8}
    (hfuel : left.length ≤ fuel) (ctx : χ) :
    hashSlices H fuel ctx left = H.update ctx left := by
  induction fuel generalizing ctx left with
  | zero =>
    obtain rfl := length_eq_zero_iff.mp (Nat.le_zero.mp hfuel)
    rw [hashSlices, hH.update_nil]
  | succ fuel ih =>
    rw [hashSlices]
    split
    · rename_i hempty
      rw [isEmpty_iff.mp hempty, hH.update_nil]
    · rename_i hsome
      have hpos : 0 < left.length := by
        apply length_pos_of_ne_nil
        intro hnil
        exact hsome (isEmpty_iff.mpr hnil)
      -- A slice is not empty, so less fuel is needed for the rest.
      have hrest : (left.drop boHashChunk).length ≤ fuel := by
        rw [length_drop]
        unfold boHashChunk
        omega
      rw [ih hrest, hH.update_append, take_append_drop]

theorem hashSection_eq (hH : H.Streams) (ctx : χ) (s : Section) :
    hashSection H ctx s = H.update ctx s.stream := by
  rw [hashSection, hashSlices_eq hH le_rfl, hH.update_append]
  rfl

/-- Hashing in slices gives the digest of the whole stream. -/
theorem loadDigest_eq (hH : H.Streams) (secs : List Section) :
    loadDigest H secs = H.hash (sectionStream secs) := by
  rw [loadDigest, hH.foldl_update (hashSection_eq hH)]
  rfl

/-! ## The stream determines the sections -/

/-- A section can be read off the front of a stream. -/
theorem Section.eq_of_stream_append {s t : Section} {xs ys : List UInt8}
    (h : s.stream ++ xs = t.stream ++ ys) : s = t := by
  simp only [Section.stream, Section.header, append_assoc] at h
  obtain ⟨hid, h⟩ := append_inj h (by simp)
  obtain ⟨hsize, h⟩ := append_inj h (by simp)
  have hlen : s.bytes.length = t.bytes.length := by
    have hword := congrArg UInt64.toNat (bytes64_injective hsize)
    rwa [UInt64.toNat_ofNat_of_lt' s.small, UInt64.toNat_ofNat_of_lt' t.small] at hword
  have hbytes := append_inj_left h hlen
  cases s
  cases t
  simp only [Section.mk.injEq]
  exact ⟨bytes64_injective hid, hbytes⟩

/-- Section lists with the same stream are equal. -/
theorem sectionStream_injective : Function.Injective sectionStream := by
  apply flatMap_injective
  · intro s h
    simpa [Section.stream, Section.header] using congrArg List.length h
  · intro s t xs ys
    exact Section.eq_of_stream_append

end OmarchyAne.T6021
