import OmarchyAne.Lib.Repeat

/-!
# Computations that leave a trace

A computation that may fail and that records what it does, also up to where it
failed.  `All` says that every event of the trace has a property.  A sequence of
computations has it if the first has it, and the second has it from each result
of the first (`all_bind`).

`Meets` says the same of the error with which it stops, so one proof gives
that all accesses are good and that some error does not occur.

Without its trace a computation is one in `Except`, and its loops are `repeatM`
and `firstM` (`res_repeatT`, `res_firstT`).
-/

namespace OmarchyAne.Lib

/-- The events, and how the computation ended. -/
structure Traced (ε ω α : Type) where
  log : List ω
  res : Except ε α

namespace Traced

variable {ε ω α β : Type} {x : Traced ε ω α} {a : α} {ε' : Type} {P : ω → Prop}
  {f : Nat → Traced ε ω (Option α)} {E : ε → Prop}

instance : Monad (Traced ε ω) where
  pure a := ⟨[], .ok a⟩
  bind x f :=
    match x.res with
    | .error e => ⟨x.log, .error e⟩
    | .ok a => ⟨x.log ++ (f a).log, (f a).res⟩

/-- Record an event. -/
def emit (w : ω) : Traced ε ω Unit := ⟨[w], .ok ()⟩

/-- Stop. -/
def fail (e : ε) : Traced ε ω α := ⟨[], .error e⟩

/-- Every event has the property. -/
def All (P : ω → Prop) (x : Traced ε ω α) : Prop := ∀ w ∈ x.log, P w

@[simp] theorem res_pure (a : α) : (pure a : Traced ε ω α).res = .ok a := rfl

@[simp] theorem res_emit (w : ω) : (emit w : Traced ε ω Unit).res = .ok () := rfl

@[simp] theorem res_fail (e : ε) : (fail e : Traced ε ω α).res = .error e := rfl

theorem res_bind_eq_ok {f : α → Traced ε ω β} {b : β} :
    (x >>= f).res = .ok b ↔ ∃ a, x.res = .ok a ∧ (f a).res = .ok b := by
  change (match x.res with
    | .error e => (⟨x.log, .error e⟩ : Traced ε ω β)
    | .ok a => ⟨x.log ++ (f a).log, (f a).res⟩).res = _ ↔ _
  cases x.res with
  | error e => simp
  | ok a => simp

theorem res_bind (x : Traced ε ω α) (f : α → Traced ε ω β) :
    (x >>= f).res = x.res >>= fun a => (f a).res := by
  change (match x.res with
    | .error e => (⟨x.log, .error e⟩ : Traced ε ω β)
    | .ok a => ⟨x.log ++ (f a).log, (f a).res⟩).res = _
  cases x.res with
  | error e => rfl
  | ok a => rfl

theorem res_bind_of_ok (h : x.res = .ok a) (f : α → Traced ε ω β) :
    (x >>= f).res = (f a).res := by
  rw [res_bind, h]
  rfl

theorem res_bind_of_error {e : ε} (h : x.res = .error e) (f : α → Traced ε ω β) :
    (x >>= f).res = .error e := by
  rw [res_bind, h]
  rfl

/-- The computation whose failure is a result. -/
def attempt {ε' : Type} (x : Traced ε ω α) : Traced ε' ω (Except ε α) :=
  ⟨x.log, .ok x.res⟩

@[simp] theorem res_attempt (x : Traced ε ω α) :
    (x.attempt : Traced ε' ω (Except ε α)).res = .ok x.res := rfl

@[simp] theorem all_attempt : (x.attempt : Traced ε' ω (Except ε α)).All P ↔ x.All P := Iff.rfl

@[simp] theorem all_pure (a : α) : (pure a : Traced ε ω α).All P := by
  intro w hw
  cases hw

@[simp] theorem all_fail (e : ε) : (fail e : Traced ε ω α).All P := by
  intro w hw
  cases hw

@[simp] theorem all_emit {w : ω} : (emit w : Traced ε ω Unit).All P ↔ P w := by
  simp [All, emit]

theorem all_bind {f : α → Traced ε ω β} :
    (x >>= f).All P ↔ x.All P ∧ ∀ a, x.res = .ok a → (f a).All P := by
  change (∀ w ∈ (match x.res with
    | .error e => (⟨x.log, .error e⟩ : Traced ε ω β)
    | .ok a => ⟨x.log ++ (f a).log, (f a).res⟩).log, P w) ↔ _
  cases x.res with
  | error e => simp [All]
  | ok a => simp [All, or_imp, forall_and]

/-! ## Loops -/

/-- `n` steps. -/
def repeatT (f : α → Traced ε ω α) : Nat → α → Traced ε ω α
  | 0, a => pure a
  | n + 1, a => f a >>= repeatT f n

/-- The first find at an index from `i` on, in `n` tries. -/
def firstT (f : Nat → Traced ε ω (Option α)) :
    Nat → Nat → Traced ε ω (Option α)
  | 0, _ => pure none
  | n + 1, i => do
    match ← f i with
    | some a => pure (some a)
    | none => firstT f n (i + 1)

theorem res_repeatT {f : α → Traced ε ω α} {g : α → Except ε α} {I : α → Prop}
    (hres : ∀ a, I a → (f a).res = g a)
    (hinv : ∀ a a', I a → g a = .ok a' → I a') (n : Nat) (ha : I a) :
    (repeatT f n a).res = repeatM g n a := by
  induction n generalizing a with
  | zero => rfl
  | succ n ih =>
    rw [repeatT, repeatM, res_bind, hres a ha]
    cases hg : g a with
    | error e => rfl
    | ok a' => exact ih (hinv a a' ha hg)

theorem all_repeatT {f : α → Traced ε ω α} {I : α → Prop} (hall : ∀ a, I a → (f a).All P)
    (hinv : ∀ a a', I a → (f a).res = .ok a' → I a') (n : Nat) (ha : I a) :
    (repeatT f n a).All P := by
  induction n generalizing a with
  | zero => exact all_pure _
  | succ n ih =>
    rw [repeatT, all_bind]
    exact ⟨hall a ha, fun a' ha' => ih (hinv a a' ha ha')⟩

theorem res_firstT {g : Nat → Except ε (Option α)} (hres : ∀ i, (f i).res = g i) (n i : Nat) :
    (firstT f n i).res = firstM g n i := by
  induction n generalizing i with
  | zero => rfl
  | succ n ih =>
    rw [firstT, firstM, res_bind, hres i]
    cases g i with
    | error e => rfl
    | ok r =>
      cases r with
      | some a => rfl
      | none => exact ih (i + 1)

/-- A search leaves a good trace exactly when each try up to its end does. -/
theorem all_firstT (n i : Nat) : (firstT f n i).All P ↔
      ∀ k < n, (∀ j < k, (f (i + j)).res = .ok none) → (f (i + k)).All P := by
  induction n generalizing i with
  | zero => simp [firstT]
  | succ n ih =>
    rw [firstT, all_bind]
    constructor
    · rintro ⟨hfirst, hrest⟩ k hk hbefore
      cases k with
      | zero => exact hfirst
      | succ k =>
        have hnone := hbefore 0 (Nat.succ_pos k)
        have hnext := (ih (i + 1)).1 (hrest none hnone) k (by omega)
        rw [show i + (k + 1) = i + 1 + k by omega]
        apply hnext
        intro j hj
        rw [show i + 1 + j = i + (j + 1) by omega]
        exact hbefore (j + 1) (by omega)
    · intro h
      refine ⟨h 0 (Nat.succ_pos n) (fun j hj => absurd hj (Nat.not_lt_zero j)), ?_⟩
      intro r hr
      cases r with
      | some a => exact all_pure _
      | none =>
        refine (ih (i + 1)).2 ?_
        intro k hk hbefore
        rw [show i + 1 + k = i + (k + 1) by omega]
        apply h (k + 1) (by omega)
        intro j hj
        cases j with
        | zero => exact hr
        | succ j =>
          rw [show i + (j + 1) = i + 1 + j by omega]
          exact hbefore j (by omega)

/-! ## Traces and errors -/

/-- Every event has the property, and so has the error if there is one. -/
structure Meets (P : ω → Prop) (E : ε → Prop) (x : Traced ε ω α) : Prop where
  all : x.All P
  error : ∀ e, x.res = .error e → E e

theorem meets_pure (a : α) : (pure a : Traced ε ω α).Meets P E :=
  ⟨all_pure a, fun _ h => nomatch h⟩

theorem meets_fail {e : ε} (h : E e) : (fail e : Traced ε ω α).Meets P E := by
  refine ⟨all_fail e, ?_⟩
  rintro _ ⟨⟩
  exact h

theorem meets_of_ok (hall : x.All P) (hres : x.res = .ok a) : x.Meets P E := by
  refine ⟨hall, fun e he => ?_⟩
  rw [hres] at he
  cases he

theorem meets_emit {w : ω} (h : P w) : (emit w : Traced ε ω Unit).Meets P E :=
  meets_of_ok (all_emit.2 h) rfl

theorem meets_attempt {E' : ε' → Prop} (h : x.All P) :
    (x.attempt : Traced ε' ω (Except ε α)).Meets P E' :=
  meets_of_ok (all_attempt.2 h) rfl

theorem meets_bind {f : α → Traced ε ω β} (hx : x.Meets P E)
    (hf : ∀ a, x.res = .ok a → (f a).Meets P E) :
    (x >>= f).Meets P E := by
  refine ⟨all_bind.2 ⟨hx.all, fun a ha => (hf a ha).all⟩, ?_⟩
  intro e he
  cases hres : x.res with
  | error e' =>
    rw [res_bind_of_error hres] at he
    cases he
    exact hx.error _ hres
  | ok a =>
    rw [res_bind_of_ok hres] at he
    exact (hf a hres).error e he

theorem meets_repeatT {f : α → Traced ε ω α} (h : ∀ a, (f a).Meets P E)
    (n : Nat) (a : α) : (repeatT f n a).Meets P E := by
  induction n generalizing a with
  | zero => exact meets_pure a
  | succ n ih => exact meets_bind (h a) (fun a' _ => ih a')

theorem meets_firstT (h : ∀ i, (f i).Meets P E) (n i : Nat) : (firstT f n i).Meets P E := by
  induction n generalizing i with
  | zero => exact meets_pure none
  | succ n ih =>
    refine meets_bind (h i) (fun r _ => ?_)
    cases r with
    | some a => exact meets_pure _
    | none => exact ih (i + 1)

end Traced

end OmarchyAne.Lib
