import Mathlib.Data.List.Perm.Subperm
import OmarchyAne.Lib.Checks

/-!
# The closure that a worklist computes

`visit` takes an element from the list of what is to do, and puts its
successors there unless it has seen the element.  If the successors stay in a
finite set, the list runs empty, and what was seen is what can be reached
(`visit_ends`).
-/

namespace OmarchyAne.Lib

open List

variable {α ε : Type} [DecidableEq α] (succ : α → Except ε (List α)) (stuck : ε)

/-- The loop.  The head of `todo` is next, and `stuck` says that the fuel ran
out. -/
def visit : Nat → List α → List α → Except ε (List α)
  | _, [], seen => .ok seen
  | 0, _ :: _, _ => .error stuck
  | fuel + 1, a :: todo, seen =>
    if a ∈ seen then visit fuel todo seen
    else do
      let targets ← succ a
      visit fuel (targets.reverse ++ todo) (a :: seen)

/-- An edge of the graph. -/
def Next (a b : α) : Prop := ∃ targets, succ a = .ok targets ∧ b ∈ targets

variable {succ stuck} {todo seen out nodes : List α} {fuel : Nat}

/-- What is returned holds what was seen and what was to do, it is closed, and
every closed set with these holds it. -/
theorem visit_spec (h : visit succ stuck fuel todo seen = .ok out) :
    (∀ a, a ∈ seen ∨ a ∈ todo → a ∈ out) ∧
    (∀ a ∈ out, a ∈ seen ∨ ∀ b, Next succ a b → b ∈ out) ∧
    ∀ S : α → Prop, (∀ a, a ∈ seen ∨ a ∈ todo → S a) →
      (∀ a b, S a → Next succ a b → S b) → ∀ b ∈ out, S b := by
  fun_induction visit succ stuck fuel todo seen with
  | case1 fuel seen =>
    cases h
    exact ⟨by simp, fun a => .inl, fun S hS _ b hb => hS b (.inl hb)⟩
  | case2 => cases h
  | case3 fuel a todo seen ha ih =>
    have hsame : ∀ x, x ∈ seen ∨ x ∈ a :: todo ↔ x ∈ seen ∨ x ∈ todo := by
      intro x
      rw [mem_cons]
      constructor
      · rintro (hx | rfl | hx)
        · exact .inl hx
        · exact .inl ha
        · exact .inr hx
      · exact Or.imp_right .inr
    simp only [hsame]
    exact ih h
  | case4 fuel a todo seen ha ih =>
    obtain ⟨targets, hsucc, h⟩ := bind_eq_ok.mp h
    obtain ⟨hin, hclosed, hleast⟩ := ih targets h
    have hnext : ∀ b, Next succ a b ↔ b ∈ targets := fun b => by
      simp [Next, hsucc]
    simp only [mem_cons, mem_append, mem_reverse] at hin hclosed hleast ⊢
    refine ⟨fun x hx => hin x (by tauto), fun x hx => ?_, fun S hS hstep => ?_⟩
    · obtain (rfl | hx) | hx := hclosed x hx
      · exact .inr fun b hb => hin b (.inr (.inl ((hnext b).mp hb)))
      · exact .inl hx
      · exact .inr hx
    · refine hleast S (fun x hx => ?_) hstep
      obtain (rfl | hx) | hx | hx := hx
      · exact hS x (.inr (.inl rfl))
      · exact hS x (.inl hx)
      · exact hstep a x (hS a (.inr (.inl rfl))) ((hnext x).mpr hx)
      · exact hS x (.inr (.inr hx))

/-- The list runs empty: a turn takes from it, or there is more to be seen. -/
theorem visit_total (hsucc : ∀ a ∈ nodes, ∃ targets, succ a = .ok targets ∧ targets ⊆ nodes)
    (k : Nat) (hk : nodes.length < seen.length + k) (hnodup : seen.Nodup)
    (hseen : seen ⊆ nodes) (htodo : todo ⊆ nodes) :
    ∃ fuel out, ∀ more, visit succ stuck (fuel + more) todo seen = .ok out := by
  have hle := (subperm_of_subset hnodup hseen).length_le
  induction k generalizing todo seen with
  | zero => omega
  | succ k ihk =>
    induction todo with
    | nil => exact ⟨0, seen, fun more => by rw [visit]⟩
    | cons a todo iht =>
      obtain ⟨ha, htodo⟩ := cons_subset.mp htodo
      -- one more turn
      suffices hturn : ∃ todo' seen',
          (∀ n, visit succ stuck (n + 1) (a :: todo) seen = visit succ stuck n todo' seen') ∧
          ∃ fuel out, ∀ more, visit succ stuck (fuel + more) todo' seen' = .ok out by
        obtain ⟨todo', seen', hstep, fuel, out, hrest⟩ := hturn
        refine ⟨fuel + 1, out, fun more => ?_⟩
        rw [Nat.add_right_comm, hstep, hrest]
      by_cases hmem : a ∈ seen
      · exact ⟨todo, seen, fun n => by rw [visit, if_pos hmem], iht htodo⟩
      · obtain ⟨targets, htargets, hsub⟩ := hsucc a ha
        have hnodup' := nodup_cons.mpr ⟨hmem, hnodup⟩
        have hseen' := cons_subset.mpr ⟨ha, hseen⟩
        refine ⟨targets.reverse ++ todo, a :: seen, fun n => ?_,
          ihk ?_ hnodup' hseen' ?_ (subperm_of_subset hnodup' hseen').length_le⟩
        · rw [visit, if_neg hmem, htargets]
          rfl
        · rw [length_cons]
          omega
        · simpa [append_subset] using ⟨hsub, htodo⟩

/-- In a finite graph the loop ends, and it returns the least closed set. -/
theorem visit_ends (hsucc : ∀ a ∈ nodes, ∃ targets, succ a = .ok targets ∧ targets ⊆ nodes)
    (htodo : todo ⊆ nodes) :
    ∃ fuel out, (∀ more, visit succ stuck (fuel + more) todo [] = .ok out) ∧
      (∀ a ∈ todo, a ∈ out) ∧ (∀ a ∈ out, ∀ b, Next succ a b → b ∈ out) ∧
      ∀ S : α → Prop, (∀ a ∈ todo, S a) → (∀ a b, S a → Next succ a b → S b) → ∀ b ∈ out, S b := by
  obtain ⟨fuel, out, hout⟩ : ∃ fuel out, ∀ more, visit succ stuck (fuel + more) todo [] = .ok out :=
    visit_total hsucc (nodes.length + 1) (by simp) nodup_nil (by simp) htodo
  have hspec := visit_spec (hout 0)
  simp only [not_mem_nil, false_or] at hspec
  exact ⟨fuel, out, hout, hspec⟩

end OmarchyAne.Lib
