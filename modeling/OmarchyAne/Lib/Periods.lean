import Mathlib.Algebra.BigOperators.Group.List.Basic
import Mathlib.Data.Set.Card
import Mathlib.Order.Interval.Finset.Nat

/-!
# Periods of time

A period is a half-open interval of numbers.  A log of periods is ordered when
each ends before the next one starts.  The length of the union of an ordered
log is the sum of its lengths (`Periods.Ordered.ncard`), so a counter that adds
up the lengths counts no moment twice.
-/

namespace OmarchyAne.Lib

/-- A list of periods. -/
abbrev Periods := List (Nat × Nat)

namespace Periods

variable {l : Periods} {p : Nat × Nat}

/-- The moments of a log. -/
def Inside (l : Periods) (x : Nat) : Prop := ∃ p ∈ l, p.1 ≤ x ∧ x < p.2

/-- The sum of the lengths. -/
def total (l : Periods) : Nat := (l.map (fun p => p.2 - p.1)).sum

/-- Each period ends before the next one starts. -/
def Ordered (l : Periods) : Prop := l.Pairwise (fun p q => p.2 ≤ q.1)

theorem total_concat (l : Periods) (p : Nat × Nat) : total (l ++ [p]) = total l + (p.2 - p.1) := by
  simp [total]

theorem inside_concat {x : Nat} : Inside (l ++ [p]) x ↔ Inside l x ∨ (p.1 ≤ x ∧ x < p.2) := by
  simp [Inside, or_and_right, exists_or]

/-- A period that starts after the end of the log. -/
theorem Ordered.concat (h : Ordered l) (hp : ∀ q ∈ l, q.2 ≤ p.1) : Ordered (l ++ [p]) := by
  rw [Ordered, List.pairwise_append]
  refine ⟨h, List.pairwise_singleton _ _, fun q hq r hr => ?_⟩
  obtain rfl := List.mem_singleton.mp hr
  exact hp q hq

theorem setOf_inside_cons (p : Nat × Nat) (l : Periods) :
    {x | Inside (p :: l) x} = Set.Ico p.1 p.2 ∪ {x | Inside l x} := by
  ext x
  simp [Inside]

theorem finite_inside (l : Periods) : {x | Inside l x}.Finite := by
  induction l with
  | nil => simp [Inside]
  | cons p l ih =>
    rw [setOf_inside_cons]
    exact (Set.finite_Ico _ _).union ih

/-- The length of the union of an ordered log. -/
theorem Ordered.ncard (h : Ordered l) : {x | Inside l x}.ncard = total l := by
  induction l with
  | nil => simp [Inside, total]
  | cons p l ih =>
    obtain ⟨hp, hl⟩ := List.pairwise_cons.mp h
    have hdisj : Disjoint (Set.Ico p.1 p.2) {x | Inside l x} := by
      rw [Set.disjoint_left]
      rintro x hx ⟨q, hq, hxq⟩
      have := hp q hq
      have := hx.2
      omega
    rw [setOf_inside_cons, Set.ncard_union_eq hdisj (Set.finite_Ico _ _)
      (finite_inside l), ih hl, ← Finset.coe_Ico, Set.ncard_coe_finset,
      Nat.card_Ico]
    simp [total]

end Periods

end OmarchyAne.Lib
