import Mathlib.Data.List.Basic

/-!
# Rules about the events before an event

A rule says of an event and the events before it that they fit.  `Past P l`
says that every event of the trace `l` meets the rule `P` with what is before
it in `l`.

The lemmas follow the way in which a trace is built.  `past_append` moves what
is before into the rule, so a trace that is put together from parts is checked
part by part.
-/

namespace OmarchyAne.Lib

variable {α : Type} {P : List α → α → Prop}

/-- Every event meets the rule with the events before it. -/
def Past (P : List α → α → Prop) (l : List α) : Prop :=
  ∀ pre e post, l = pre ++ e :: post → P pre e

@[simp]
theorem past_nil : Past P [] := by
  intro pre e post h
  simp at h

@[simp]
theorem past_cons {a : α} {l : List α} :
    Past P (a :: l) ↔ P [] a ∧ Past (fun pre => P (a :: pre)) l := by
  constructor
  · intro h
    refine ⟨h [] a l rfl, ?_⟩
    intro pre e post heq
    exact h (a :: pre) e post (by rw [heq]; rfl)
  · rintro ⟨ha, h⟩ pre e post heq
    cases pre with
    | nil =>
      obtain ⟨rfl, -⟩ := List.cons_eq_cons.mp heq
      exact ha
    | cons b pre =>
      obtain ⟨rfl, hrest⟩ := List.cons_eq_cons.mp heq
      exact h pre e post hrest

theorem past_append {l l' : List α} :
    Past P (l ++ l') ↔ Past P l ∧ Past (fun pre => P (l ++ pre)) l' := by
  induction l generalizing P with
  | nil => simp
  | cons a l ih =>
    rw [List.cons_append, past_cons, past_cons, ih, and_assoc]
    rfl

end OmarchyAne.Lib
