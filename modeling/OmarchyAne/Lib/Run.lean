import Mathlib.Data.List.Basic

/-!
# Runs of a guarded step function

A `System` is a set of initial states and a partial step function.  The
action of a step carries every choice that the environment makes, so a run
is a list of actions and one list of actions has at most one outcome.

`System.run_invariant` is the induction that every safety result uses: a
property that each step keeps holds along a run.
`System.reachable_invariant` starts it at an initial state.

`System.restrict` keeps the steps that meet a condition on the state before
the step and the action.  Its runs are exactly the runs of the system whose
steps all meet the condition (`System.run_restrict_iff`), so a result about
the reachable states of a restricted system is a result about those runs.
-/

namespace OmarchyAne.Lib

variable {σ α : Type}

/-- A guarded transition system.  `step s a` is the state after the action
`a`, and `none` when the action cannot happen in `s`. -/
structure System (σ α : Type) where
  init : σ → Prop
  step : σ → α → Option σ

namespace System

variable {S : System σ α} {s s' : σ} {as : List α} {I : σ → Prop} {ok : σ → α → Bool}

/-- The state after a list of actions. -/
def run (S : System σ α) : σ → List α → Option σ
  | s, [] => some s
  | s, a :: as =>
    match S.step s a with
    | none => none
    | some s' => S.run s' as

/-- A state that some run from an initial state ends in. -/
def Reachable (S : System σ α) (s : σ) : Prop :=
  ∃ s₀ as, S.init s₀ ∧ S.run s₀ as = some s

theorem run_cons {a : α} (h : S.run s (a :: as) = some s') :
    ∃ t, S.step s a = some t ∧ S.run t as = some s' := by
  rw [run] at h
  cases hstep : S.step s a with
  | none => simp [hstep] at h
  | some t => exact ⟨t, rfl, by simpa [hstep] using h⟩

/-- A property that each step keeps holds along a run. -/
theorem run_invariant (hstep : ∀ s a s', I s → S.step s a = some s' → I s')
    (hs : I s) (hrun : S.run s as = some s') :
    I s' := by
  induction as generalizing s with
  | nil =>
    rw [run] at hrun
    exact Option.some.inj hrun ▸ hs
  | cons a as ih =>
    obtain ⟨t, hst, hrun'⟩ := run_cons hrun
    exact ih (hstep s a t hs hst) hrun'

/-- A property of the initial states that each step keeps holds in every
reachable state. -/
theorem reachable_invariant (hinit : ∀ s, S.init s → I s)
    (hstep : ∀ s a s', I s → S.step s a = some s' → I s') (hs : S.Reachable s) :
    I s := by
  obtain ⟨s₀, as, h₀, hrun⟩ := hs
  exact run_invariant hstep (hinit s₀ h₀) hrun

/-! ## Runs whose steps meet a condition -/

/-- The steps of `S` that meet the condition `ok`. -/
def restrict (S : System σ α) (ok : σ → α → Bool) : System σ α where
  init := S.init
  step s a := if ok s a then S.step s a else none

theorem restrict_step {a : α} (h : (S.restrict ok).step s a = some s') :
    ok s a = true ∧ S.step s a = some s' := by
  simp only [restrict] at h
  split at h
  · exact ⟨‹_›, h⟩
  · cases h

/-- Every step of the run meets the condition. -/
def StepsMeet (S : System σ α) (ok : σ → α → Bool) : σ → List α → Prop
  | _, [] => True
  | s, a :: as =>
    ok s a = true ∧ ∀ s', S.step s a = some s' → S.StepsMeet ok s' as

/-- The runs of the restricted system are the runs whose steps all meet the
condition. -/
theorem run_restrict_iff : (S.restrict ok).run s as = some s' ↔
      S.run s as = some s' ∧ S.StepsMeet ok s as := by
  induction as generalizing s with
  | nil => simp [run, StepsMeet]
  | cons a as ih =>
    constructor
    · intro h
      obtain ⟨t, hst, hrun⟩ := run_cons h
      obtain ⟨hok, hst'⟩ := restrict_step hst
      obtain ⟨hrun', hmeet⟩ := ih.mp hrun
      refine ⟨by rw [run, hst']; exact hrun', hok, ?_⟩
      intro u hu
      rw [hst'] at hu
      exact Option.some.inj hu ▸ hmeet
    · rintro ⟨h, hok, hmeet⟩
      obtain ⟨t, hst, hrun⟩ := run_cons h
      have hres : (S.restrict ok).step s a = some t := by
        simp [restrict, hok, hst]
      rw [run, hres]
      exact ih.mpr ⟨hrun, hmeet t hst⟩

/-! ## Properties of every state of a run -/

/-- The property holds in every state of the run. -/
def Always (S : System σ α) (P : σ → Prop) : σ → List α → Prop
  | s, [] => P s
  | s, a :: as => P s ∧ ∀ s', S.step s a = some s' → S.Always P s' as

/-- A property that a step keeps exactly when the step meets the condition
holds in every state of a run exactly when all its steps meet it. -/
theorem always_iff_stepsMeet {P : σ → Prop} (hinv : ∀ s a s', I s → S.step s a = some s' → I s')
    (hstep : ∀ s a s', I s → P s → S.step s a = some s' →
      (P s' ↔ ok s a = true)) (hs : I s) (hp : P s)
    (hrun : S.run s as = some s') :
    S.Always P s as ↔ S.StepsMeet ok s as := by
  induction as generalizing s with
  | nil => exact iff_of_true hp trivial
  | cons a as ih =>
    obtain ⟨t, hst, hrun'⟩ := run_cons hrun
    have hnext : ∀ {Q : σ → Prop},
        (∀ u, S.step s a = some u → Q u) ↔ Q t := by
      intro Q
      refine ⟨fun h => h t hst, ?_⟩
      intro h u hu
      rw [hst] at hu
      exact Option.some.inj hu ▸ h
    have hiff := hstep s a t hs hp hst
    rw [Always, StepsMeet, hnext, hnext, and_iff_right hp]
    constructor
    · intro h
      have hpt : P t := by
        cases as with
        | nil => exact h
        | cons b bs => exact h.1
      exact ⟨hiff.mp hpt, (ih (hinv s a t hs hst) hpt hrun').mp h⟩
    · rintro ⟨hok, hmeet⟩
      exact (ih (hinv s a t hs hst) (hiff.mpr hok) hrun').mpr hmeet

end System

end OmarchyAne.Lib
