import Mathlib.Data.List.Induction
import OmarchyAne.Lib.Bytes

/-!
# Runs of a buffer, gathered and scattered

`gather` reads the runs at some offsets of a buffer, one after the other, and
`scatter` puts consecutive runs back at their offsets.  One after the other
they copy the runs from buffer to buffer (`scatter_gather`).

What is copied depends on the places that the runs cover only
(`copyRuns_congr`), so runs can be cut into pieces (`covered_pieces`) and runs
that touch can be joined (`covered_joined`).
-/

namespace OmarchyAne.Lib

open List

section Runs

variable {α : Type} {n : Nat} {l src : List α} {offs : List Nat} {r : List α}

def gather (src : List α) (n : Nat) (offs : List Nat) : List α :=
  offs.flatMap (slice src · n)

def scatter (src : List α) (n : Nat) (offs : List Nat) (l : List α) : List α :=
  offs.zipIdx.foldl (fun l x => blit l x.1 (slice src (n * x.2) n)) l

/-- Chunks of `n` elements, each written after the ones before it. -/
def fill (n : Nat) (chunks : List (List α)) (l : List α) : List α :=
  chunks.zipIdx.foldl (fun l x => blit l (n * x.2) x.1) l

private theorem fill_aux (chunks : List (List α)) :
    ∀ (k : Nat) (done l : List α), (∀ c ∈ chunks, c.length = n) →
      done.length = n * k → l.length = n * chunks.length →
      (chunks.zipIdx k).foldl (fun l x => blit l (n * x.2) x.1) (done ++ l) =
        done ++ chunks.flatten := by
  induction chunks with
  | nil =>
    intro k done l _ _ hl
    have hnil : l = [] := length_eq_zero_iff.1 (by simpa using hl)
    subst hnil
    rfl
  | cons c chunks ih =>
    intro k done l hc hdone hl
    have hlen : c.length = n := hc c mem_cons_self
    have hblit : blit (done ++ l) (n * k) c = (done ++ c) ++ l.drop n := by
      rw [blit, ← hdone, take_left, hlen, ← drop_drop, drop_left]
    rw [length_cons, Nat.mul_add, Nat.mul_one] at hl
    rw [zipIdx_cons, foldl_cons, hblit, ih (k + 1)]
    · rw [flatten_cons, append_assoc]
    · intro c' hc'
      exact hc c' (mem_cons_of_mem c hc')
    · rw [length_append, hdone, hlen, Nat.mul_add, Nat.mul_one]
    · rw [length_drop]
      omega

/-- A buffer that chunks fill is the chunks. -/
theorem fill_eq {chunks : List (List α)} (hchunks : ∀ c ∈ chunks, c.length = n)
    (hl : l.length = n * chunks.length) : fill n chunks l = chunks.flatten :=
  fill_aux chunks 0 [] l hchunks rfl hl

theorem gather_length (hfit : ∀ o ∈ offs, o + n ≤ src.length) :
    (gather src n offs).length = n * offs.length := by
  induction offs with
  | nil => rfl
  | cons o offs ih =>
    have hrest := ih fun o' ho' => hfit o' (mem_cons_of_mem o ho')
    have hlen : (slice src o n).length = n := slice_length (hfit o mem_cons_self)
    have hcons : gather src n (o :: offs) = slice src o n ++ gather src n offs :=
      rfl
    rw [hcons, length_append, hlen, hrest, length_cons, Nat.mul_add]
    omega

/-- Run `r` of what was gathered. -/
theorem slice_gather (hfit : ∀ o ∈ offs, o + n ≤ src.length) {r o : Nat} (hr : offs[r]? = some o) :
    slice (gather src n offs) (n * r) n = slice src o n := by
  induction offs generalizing r with
  | nil => simp at hr
  | cons o' offs ih =>
    have hlen : (slice src o' n).length = n := slice_length (hfit o' mem_cons_self)
    have hcons : gather src n (o' :: offs) = slice src o' n ++ gather src n offs :=
      rfl
    rw [hcons]
    cases r with
    | zero =>
      obtain rfl : o' = o := by simpa using hr
      rw [Nat.mul_zero, slice, drop_zero, take_left' hlen]
    | succ r =>
      have hdrop : n * (r + 1) = (slice src o' n).length + n * r := by
        rw [hlen, Nat.mul_add]
        omega
      rw [slice, hdrop, ← drop_drop, drop_left]
      exact ih (fun o'' ho'' => hfit o'' (mem_cons_of_mem o' ho'')) (by simpa using hr)

/-- Runs that are gathered and scattered are copied. -/
theorem scatter_gather (hfit : ∀ o ∈ offs, o + n ≤ src.length) (l : List α) :
    scatter (gather src n offs) n offs l = copyRuns src n offs l := by
  have hloop : copyRuns src n offs l =
      offs.zipIdx.foldl (fun l x => blit l x.1 (slice src x.1 n)) l := by
    have hfst : offs.zipIdx.map Prod.fst = offs := zipIdx_map_fst 0 offs
    rw [copyRuns]
    nth_rewrite 1 [← hfst]
    rw [foldl_map]
  rw [hloop, scatter]
  apply foldl_ext
  intro l x hx
  have hget : offs[x.2]? = some x.1 := mem_zipIdx_iff_getElem?.1 hx
  rw [slice_gather hfit hget]

/-! ## The places that runs cover -/

/-- The place is in a run. -/
def Covered (n : Nat) (offs : List Nat) (i : Nat) : Prop :=
  ∃ o ∈ offs, o ≤ i ∧ i < o + n

theorem copyRuns_congr {n' : Nat} {offs' : List Nat}
    (hlen : src.length = l.length) (hfit : ∀ o ∈ offs, o + n ≤ l.length)
    (hfit' : ∀ o ∈ offs', o + n' ≤ l.length)
    (hcover : ∀ i, Covered n offs i ↔ Covered n' offs' i) :
    copyRuns src n offs l = copyRuns src n' offs' l := by
  apply ext_getElem?
  intro i
  rw [getElem?_copyRuns hlen hfit, getElem?_copyRuns hlen hfit']
  simp only [show (∃ o ∈ offs, o ≤ i ∧ i < o + n) ↔ ∃ o ∈ offs', o ≤ i ∧ i < o + n' from hcover i]

/-- Each run cut into `w` pieces. -/
def pieces (n w : Nat) (offs : List Nat) : List Nat :=
  offs.flatMap fun o => (List.range w).map fun x => o + n * x

theorem covered_pieces (n w : Nat) (offs : List Nat) (i : Nat) :
    Covered n (pieces n w offs) i ↔ Covered (n * w) offs i := by
  simp only [Covered, pieces, mem_flatMap, mem_map, mem_range]
  constructor
  · rintro ⟨_, ⟨o, ho, x, hx, rfl⟩, hlow, hhigh⟩
    have hbound : n * (x + 1) ≤ n * w := Nat.mul_le_mul_left n hx
    rw [Nat.mul_add, Nat.mul_one] at hbound
    exact ⟨o, ho, by omega, by omega⟩
  · rintro ⟨o, ho, hlow, hhigh⟩
    have hpos : 0 < n := by
      rcases Nat.eq_zero_or_pos n with h | h
      · rw [h, Nat.zero_mul] at hhigh
        omega
      · exact h
    have hpiece : (i - o) / n < w := by
      rw [Nat.div_lt_iff_lt_mul hpos, Nat.mul_comm]
      omega
    have hdiv := Nat.div_add_mod (i - o) n
    have hmod := Nat.mod_lt (i - o) hpos
    exact ⟨_, ⟨o, ho, (i - o) / n, hpiece, rfl⟩, by omega, by omega⟩

/-- Runs that touch are one run. -/
theorem covered_joined (n R i : Nat) :
    Covered (n * R) [0] i ↔ Covered n ((List.range R).map (n * ·)) i := by
  have hpieces : (List.range R).map (n * ·) = pieces n R [0] := by
    simp [pieces]
  rw [hpieces, covered_pieces]

/-! ## Scattering and reading back -/

theorem scatter_concat (src : List α) (n : Nat) (offs : List Nat) (o : Nat) (l : List α) :
    scatter src n (offs ++ [o]) l =
      blit (scatter src n offs l) o (slice src (n * offs.length) n) := by
  rw [scatter, zipIdx_append, foldl_append, Nat.zero_add]
  rfl

/-- The runs are in order and do not touch each other. -/
def Apart (n : Nat) (offs : List Nat) : Prop :=
  offs.Pairwise fun a b => a + n ≤ b

/-- Induction over runs that fit, the last run first. -/
@[elab_as_elim]
theorem runs_induction {motive : List Nat → Prop} (nil : motive [])
    (concat : ∀ offs o, n * offs.length + n ≤ src.length →
      (∀ o ∈ offs, o + n ≤ l.length) → o + n ≤ l.length → motive offs →
      motive (offs ++ [o]))
    (hsrc : n * offs.length ≤ src.length)
    (hfit : ∀ o ∈ offs, o + n ≤ l.length) : motive offs := by
  induction offs using List.reverseRecOn with
  | nil => exact nil
  | append_singleton offs o ih =>
    rw [length_append, length_singleton, Nat.mul_add, Nat.mul_one] at hsrc
    rw [forall_mem_append, forall_mem_singleton] at hfit
    exact concat offs o hsrc hfit.1 hfit.2 (ih (by omega) hfit.1)

theorem scatter_length (hsrc : n * offs.length ≤ src.length) (hfit : ∀ o ∈ offs, o + n ≤ l.length) :
    (scatter src n offs l).length = l.length := by
  refine runs_induction rfl (fun offs o hsrc _ hlast ih => ?_) hsrc hfit
  have hslice := slice_length hsrc
  rw [scatter_concat, blit_length (by omega), ih]

/-- Outside the runs nothing changes. -/
theorem getElem?_scatter (hsrc : n * offs.length ≤ src.length)
    (hfit : ∀ o ∈ offs, o + n ≤ l.length) {i : Nat} :
    ¬ Covered n offs i → (scatter src n offs l)[i]? = l[i]? := by
  refine runs_induction (fun _ => rfl) (fun offs o hsrc hfit hlast ih hi => ?_) hsrc hfit
  have hlen := scatter_length (Nat.le_of_add_right_le hsrc) hfit
  have hslice := slice_length hsrc
  rw [scatter_concat, getElem?_blit (by omega), hslice, if_neg]
  · apply ih
    rintro ⟨o', ho', hin⟩
    exact hi ⟨o', mem_append_left _ ho', hin⟩
  · intro hin
    exact hi ⟨o, by simp, hin⟩

/-- A run that was written can be read back. -/
theorem slice_scatter (hsrc : n * offs.length ≤ src.length)
    (hfit : ∀ o ∈ offs, o + n ≤ l.length) {r o : Nat} :
    Apart n offs → offs[r]? = some o → slice (scatter src n offs l) o n = slice src (n * r) n := by
  refine runs_induction (fun _ hr => by cases hr)
    (fun offs last hsrc hfit hlast ih hapart hr => ?_) hsrc hfit
  obtain ⟨hpair, -, hsep⟩ := pairwise_append.1 hapart
  have hlen := scatter_length (Nat.le_of_add_right_le hsrc) hfit
  have hslice := slice_length hsrc
  rw [scatter_concat]
  by_cases hlt : r < offs.length
  · rw [getElem?_append_left hlt] at hr
    have hbefore := hsep o (mem_of_getElem? hr) last (by simp)
    rw [← ih hpair hr]
    apply ext_getElem?
    intro i
    rw [getElem?_slice, getElem?_slice]
    by_cases hi : i < n
    · rw [if_pos hi, if_pos hi, getElem?_blit (by omega), if_neg (by omega)]
    · rw [if_neg hi, if_neg hi]
  · rw [getElem?_append_right (by omega)] at hr
    have hzero : r - offs.length = 0 := by
      have hin := (List.getElem?_eq_some_iff.1 hr).1
      rw [length_singleton] at hin
      omega
    rw [hzero] at hr
    obtain rfl : last = o := Option.some.inj hr
    obtain rfl : r = offs.length := by omega
    apply ext_getElem?
    intro i
    rw [getElem?_slice]
    by_cases hi : i < n
    · rw [if_pos hi, getElem?_blit (by omega), if_pos (by omega),
        Nat.add_sub_cancel_left]
    · rw [if_neg hi, getElem?_eq_none (by omega)]

/-- Runs that follow each other are the front of the list. -/
theorem gather_range (src : List α) (n k : Nat) :
    gather src n ((List.range k).map (n * ·)) = src.take (n * k) := by
  induction k with
  | zero => simp [gather]
  | succ k ih =>
    rw [gather] at ih
    rw [range_succ, map_append, gather, flatMap_append, ih, Nat.mul_succ, take_add, map_singleton,
      flatMap_singleton, slice]

/-- What was scattered is gathered again. -/
theorem gather_scatter (hsrc : src.length = n * offs.length)
    (hfit : ∀ o ∈ offs, o + n ≤ l.length) (hapart : Apart n offs) :
    gather (scatter src n offs l) n offs = src := by
  have hoffs : offs.map (slice (scatter src n offs l) · n) =
      (List.range offs.length).map (fun r => slice src (n * r) n) := by
    apply ext_getElem?
    intro r
    rw [getElem?_map, getElem?_map]
    cases hr : offs[r]? with
    | none =>
      rw [getElem?_eq_none (by
        rw [length_range]
        exact getElem?_eq_none_iff.1 hr)]
      rfl
    | some o =>
      have hlt := (List.getElem?_eq_some_iff.1 hr).1
      rw [getElem?_range hlt, Option.map_some, Option.map_some,
        slice_scatter (Nat.le_of_eq hsrc.symm) hfit hapart hr]
  have hall := gather_range src n offs.length
  rw [gather, flatMap_map, ← hsrc, take_length] at hall
  rw [gather, flatMap_def, hoffs, ← flatMap_def, hall]

theorem gather_append_left (hfit : ∀ o ∈ offs, o + n ≤ l.length) :
    gather (l ++ r) n offs = gather l n offs := by
  rw [gather, gather]
  apply flatMap_congr
  intro o ho
  have hend := hfit o ho
  rw [slice, slice, drop_append_of_le_length (by omega), take_append_of_le_length]
  rw [length_drop]
  omega

theorem blit_append_left {off : Nat} (h : off + src.length ≤ l.length) :
    blit (l ++ r) off src = blit l off src ++ r := by
  rw [blit, blit, take_append_of_le_length (by omega), drop_append_of_le_length h]
  simp only [append_assoc]

/-- Runs in the front of a list leave the rest alone. -/
theorem scatter_append_left (hsrc : n * offs.length ≤ src.length)
    (hfit : ∀ o ∈ offs, o + n ≤ l.length) :
    scatter src n offs (l ++ r) = scatter src n offs l ++ r := by
  refine runs_induction rfl (fun offs o hsrc hfit hlast ih => ?_) hsrc hfit
  have hlen := scatter_length (Nat.le_of_add_right_le hsrc) hfit
  have hslice := slice_length hsrc
  rw [scatter_concat, scatter_concat, ih, blit_append_left (by omega)]

end Runs

/-- A list whose neighbours are `d` apart. -/
theorem eq_map_range_of_diffs {d : Nat} :
    ∀ (l : List Nat) (a : Nat), (∀ x ∈ (a :: l).zip l, x.1 + d = x.2) →
      a :: l = (List.range (l.length + 1)).map (a + d * ·) := by
  intro l
  induction l with
  | nil =>
    intro a _
    simp
  | cons b l ih =>
    intro a h
    have hb : a + d = b := h (a, b) (by simp)
    have hrest := ih b fun x hx => h x (by
      rw [zip_cons_cons]
      exact mem_cons_of_mem _ hx)
    rw [length_cons, range_succ_eq_map, map_cons, map_map, Nat.mul_zero, Nat.add_zero, hrest]
    congr 1
    apply map_congr_left
    intro r _
    rw [Function.comp_apply, ← hb, Nat.mul_succ]
    omega

/-- A loop that knows the number of each turn. -/
theorem zipIdx_map {α β : Type} {l : List α} {f : α → β} {g : α → Nat}
    (hg : l.map g = List.range l.length) :
    (l.map f).zipIdx = l.map fun x => (f x, g x) := by
  apply ext_getElem
  · simp
  · intro i hzip hmap
    have hi : i < l.length := by simpa using hmap
    have hnumber : (l.map g)[i]? = (List.range l.length)[i]? := by rw [hg]
    have hnumber : g l[i] = i := by simpa [hi] using hnumber
    simp [hnumber]

/-- A loop that never stops early. -/
theorem foldlM_some {α β : Type} {f : β → α → Option β} {g : β → α → β}
    {l : List α} (h : ∀ a ∈ l, ∀ b, f b a = some (g b a)) (b : β) :
    l.foldlM f b = some (l.foldl g b) := by
  induction l generalizing b with
  | nil => rfl
  | cons a l ih =>
    rw [foldlM_cons, h a mem_cons_self, foldl_cons]
    exact ih (fun a' ha' => h a' (mem_cons_of_mem a ha')) (g b a)

/-- The numbers of two nested loops are those of one. -/
theorem flatMap_range_mul (a b : Nat) :
    (List.range a).flatMap (fun i => (List.range b).map fun j => i * b + j) =
      List.range (a * b) := by
  induction a with
  | zero => simp
  | succ a ih =>
    rw [range_succ, flatMap_append, ih, Nat.succ_mul, range_add]
    simp

end OmarchyAne.Lib
