import Mathlib.Data.List.Basic
import Mathlib.Data.List.TakeWhile
import Mathlib.Order.Lattice

/-!
# Insertion sort

A loop that sorts an array in place takes each new entry and moves it to the
left past the entries with a larger key (`insertBy`).  `sortBy` is the whole
loop.  The result has the entries of the input (`sortBy_perm`), in the order
of their keys (`sortBy_sorted`), and strictly so when no key occurs twice
(`sortBy_strict`).
-/

namespace OmarchyAne.Lib

open List

variable {α κ : Type} [LinearOrder κ] (key : α → κ)

/-- One turn: the new entry moves left past the larger keys. -/
def insertBy (sorted : List α) (a : α) : List α :=
  let larger := fun b => decide (key a < key b)
  (sorted.reverse.dropWhile larger).reverse ++
    a :: (sorted.reverse.takeWhile larger).reverse

/-- The loop. -/
def sortBy (l : List α) : List α := l.foldl (insertBy key) []

theorem insertBy_perm (sorted : List α) (a : α) : (insertBy key sorted a).Perm (a :: sorted) := by
  refine perm_middle.trans (List.Perm.cons a ?_)
  rw [← reverse_append, takeWhile_append_dropWhile, reverse_reverse]

theorem insertBy_sorted {sorted : List α} (h : sorted.Pairwise (fun b c => key b ≤ key c)) (a : α) :
    (insertBy key sorted a).Pairwise (fun b c => key b ≤ key c) := by
  have hrev : sorted.reverse.Pairwise (fun b c => key c ≤ key b) :=
    pairwise_reverse.mpr h
  unfold insertBy
  generalize sorted.reverse = l at hrev ⊢
  set larger := fun b => decide (key a < key b)
  -- What the entry passes is larger, what stays in front of it is not.
  have hpassed : ∀ b ∈ l.takeWhile larger, key a ≤ key b := by
    intro b hb
    have hlt : larger b = true := mem_takeWhile_imp hb
    exact le_of_lt (of_decide_eq_true hlt)
  have hstays : ∀ b ∈ l.dropWhile larger, key b ≤ key a := by
    intro b hb
    have hdrop := hrev.sublist (dropWhile_sublist larger)
    cases hl : l.dropWhile larger with
    | nil => simp [hl] at hb
    | cons c rest =>
      have hc : key c ≤ key a := by
        have hnot := head?_dropWhile_not larger l
        rw [hl] at hnot
        exact not_lt.mp (of_decide_eq_false hnot)
      rw [hl] at hb hdrop
      obtain rfl | hb := mem_cons.mp hb
      · exact hc
      · exact le_trans (rel_of_pairwise_cons hdrop hb) hc
  rw [pairwise_append]
  refine ⟨?_, ?_, ?_⟩
  · exact pairwise_reverse.mpr (hrev.sublist (dropWhile_sublist larger))
  · rw [pairwise_cons]
    refine ⟨fun b hb => hpassed b (mem_reverse.mp hb), ?_⟩
    exact pairwise_reverse.mpr (hrev.sublist (takeWhile_sublist larger))
  · intro b hb c hc
    have hb' := hstays b (mem_reverse.mp hb)
    obtain rfl | hc := mem_cons.mp hc
    · exact hb'
    · exact le_trans hb' (hpassed c (mem_reverse.mp hc))

private theorem foldl_insertBy (l sorted : List α)
    (h : sorted.Pairwise (fun b c => key b ≤ key c)) :
    (l.foldl (insertBy key) sorted).Perm (sorted ++ l) ∧
      (l.foldl (insertBy key) sorted).Pairwise (fun b c => key b ≤ key c) := by
  induction l generalizing sorted with
  | nil => simpa using h
  | cons a l ih =>
    obtain ⟨hperm, hsorted⟩ := ih _ (insertBy_sorted key h a)
    refine ⟨hperm.trans ?_, hsorted⟩
    exact ((insertBy_perm key sorted a).append_right l).trans perm_middle.symm

theorem sortBy_perm (l : List α) : (sortBy key l).Perm l :=
  (foldl_insertBy key l [] .nil).1

theorem sortBy_sorted (l : List α) : (sortBy key l).Pairwise (fun b c => key b ≤ key c) :=
  (foldl_insertBy key l [] .nil).2

theorem sortBy_strict {l : List α} (h : (l.map key).Nodup) :
    (sortBy key l).Pairwise (fun b c => key b < key c) := by
  have hne : ((sortBy key l).map key).Nodup := (((sortBy_perm key l).map key).nodup_iff).mpr h
  rw [List.Nodup, pairwise_map] at hne
  exact (sortBy_sorted key l).imp₂ (fun _ _ => lt_of_le_of_ne) hne

end OmarchyAne.Lib
