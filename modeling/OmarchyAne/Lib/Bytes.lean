import OmarchyAne.Lib.Words

/-!
# Byte buffers

`slice` reads a range of a buffer and `blit` writes one, as `memcpy` does.  Both
stay inside the buffer where they are used.  `getElem?_copyRuns` is what a
buffer holds after runs of another one were copied into it.
-/

namespace OmarchyAne.Lib

open List

abbrev Bytes := List UInt8

/-- The bytes of an ASCII text. -/
def ascii (s : String) : Bytes := s.toList.map fun c => c.val.toUInt8

section Ranges

variable {α : Type} {l : List α} {off : Nat} {src : List α}

/-- `n` elements from an offset on. -/
def slice (l : List α) (off n : Nat) : List α := (l.drop off).take n

/-- The list with the elements of `src` from an offset on. -/
def blit (l : List α) (off : Nat) (src : List α) : List α :=
  l.take off ++ src ++ l.drop (off + src.length)

theorem slice_length {n : Nat} (h : off + n ≤ l.length) : (slice l off n).length = n := by
  simp only [slice, length_take, length_drop]
  omega

theorem getElem?_slice (l : List α) (off n i : Nat) :
    (slice l off n)[i]? = if i < n then l[off + i]? else none := by
  simp only [slice, getElem?_take, getElem?_drop]

theorem blit_length (h : off + src.length ≤ l.length) : (blit l off src).length = l.length := by
  simp only [blit, length_append, length_take, length_drop]
  omega

theorem getElem?_blit (h : off + src.length ≤ l.length) (i : Nat) : (blit l off src)[i]? =
      if off ≤ i ∧ i < off + src.length then src[i - off]? else l[i]? := by
  have hoff : (l.take off).length = off := by
    rw [length_take]
    omega
  rw [blit, append_assoc]
  by_cases hlow : i < off
  · rw [getElem?_append_left (by omega), getElem?_take, if_pos hlow,
      if_neg (by omega)]
  · rw [getElem?_append_right (by omega), hoff]
    by_cases hmid : i < off + src.length
    · rw [getElem?_append_left (by omega), if_pos ⟨by omega, hmid⟩]
    · rw [getElem?_append_right (by omega), getElem?_drop,
        if_neg (by omega)]
      congr 1
      omega

/-- The runs of `n` elements at some offsets of `src`, copied to their places
in `l`. -/
def copyRuns (src : List α) (n : Nat) (offs : List Nat) (l : List α) : List α :=
  offs.foldl (fun l o => blit l o (slice src o n)) l

/-- An element inside a run is that of the source, and the others stay. -/
theorem getElem?_copyRuns {n : Nat} {offs : List Nat}
    (hlen : src.length = l.length) (hfit : ∀ o ∈ offs, o + n ≤ l.length)
    (i : Nat) :
    (copyRuns src n offs l)[i]? = if ∃ o ∈ offs, o ≤ i ∧ i < o + n then src[i]? else l[i]? := by
  induction offs generalizing l with
  | nil => simp [copyRuns]
  | cons o offs ih =>
    have ho : o + n ≤ l.length := hfit o mem_cons_self
    have hslice : (slice src o n).length = n := slice_length (by omega)
    have hblit : (blit l o (slice src o n)).length = l.length := blit_length (by omega)
    have hrest := ih (l := blit l o (slice src o n)) (by omega) fun o' ho' => by
      rw [hblit]
      exact hfit o' (mem_cons_of_mem o ho')
    have hstep : copyRuns src n (o :: offs) l =
      copyRuns src n offs (blit l o (slice src o n)) := rfl
    rw [hstep, hrest, getElem?_blit (by omega), hslice]
    simp only [exists_mem_cons_iff]
    by_cases hlater : ∃ o' ∈ offs, o' ≤ i ∧ i < o' + n
    · rw [if_pos hlater, if_pos (Or.inr hlater)]
    · rw [if_neg hlater]
      by_cases hhere : o ≤ i ∧ i < o + n
      · rw [if_pos hhere, if_pos (Or.inl hhere), getElem?_slice,
          if_pos (by omega)]
        congr 1
        omega
      · rw [if_neg hhere, if_neg]
        rintro (h | h)
        · exact hhere h
        · exact hlater h

end Ranges

/-- The number that bytes hold, lowest first. -/
def leValue (b : Bytes) : Nat := b.foldr (fun x n => x.toNat + 256 * n) 0

/-- `n` words of eight bytes each. -/
def words64 (n : Nat) (b : Bytes) : List Nat :=
  (List.range n).map fun i => leValue (slice b (8 * i) 8)

end OmarchyAne.Lib
