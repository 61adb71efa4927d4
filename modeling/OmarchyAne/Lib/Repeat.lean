import OmarchyAne.Lib.Checks

/-!
# Loops that can stop

`repeatM` does a step a number of times, and `firstM` goes over an index until a
test finds something.  Both stop at the first error.
-/

namespace OmarchyAne.Lib

variable {ε α : Type} {f : α → Except ε α} {n : Nat} {a c : α}

/-- `n` steps. -/
def repeatM (f : α → Except ε α) : Nat → α → Except ε α
  | 0, a => .ok a
  | n + 1, a => f a >>= repeatM f n

/-- The first find at an index from `i` on, in `n` tries. -/
def firstM (f : Nat → Except ε (Option α)) : Nat → Nat → Except ε (Option α)
  | 0, _ => .ok none
  | n + 1, i => do
    match ← f i with
    | some a => .ok (some a)
    | none => firstM f n (i + 1)

theorem repeatM_succ_ok : repeatM f (n + 1) a = .ok c ↔ ∃ b, f a = .ok b ∧ repeatM f n b = .ok c :=
  bind_eq_ok

/-- The last step on its own. -/
theorem repeatM_concat_ok :
    repeatM f (n + 1) a = .ok c ↔ ∃ b, repeatM f n a = .ok b ∧ f b = .ok c := by
  induction n generalizing a with
  | zero =>
    rw [repeatM_succ_ok]
    constructor
    · rintro ⟨b, hb, hc⟩
      cases hc
      exact ⟨a, rfl, hb⟩
    · rintro ⟨b, hb, hc⟩
      cases hb
      exact ⟨c, hc, rfl⟩
  | succ n ih =>
    rw [repeatM_succ_ok]
    constructor
    · rintro ⟨b, hb, hrest⟩
      obtain ⟨d, hd, hc⟩ := ih.1 hrest
      exact ⟨d, repeatM_succ_ok.2 ⟨b, hb, hd⟩, hc⟩
    · rintro ⟨d, hd, hc⟩
      obtain ⟨b, hb, hrest⟩ := repeatM_succ_ok.1 hd
      exact ⟨b, hb, ih.2 ⟨d, hrest, hc⟩⟩

/-- A loop in two parts. -/
theorem repeatM_add_ok {m : Nat} : repeatM f (m + n) a = .ok c ↔
      ∃ b, repeatM f m a = .ok b ∧ repeatM f n b = .ok c := by
  induction n generalizing c with
  | zero =>
    constructor
    · intro h
      exact ⟨c, h, rfl⟩
    · rintro ⟨b, hb, hc⟩
      cases hc
      exact hb
  | succ n ih =>
    rw [← Nat.add_assoc, repeatM_concat_ok]
    constructor
    · rintro ⟨d, hd, hc⟩
      obtain ⟨b, hb, hrest⟩ := ih.1 hd
      exact ⟨b, hb, repeatM_concat_ok.2 ⟨d, hrest, hc⟩⟩
    · rintro ⟨b, hb, hrest⟩
      obtain ⟨d, hd, hc⟩ := repeatM_concat_ok.1 hrest
      exact ⟨d, ih.2 ⟨b, hb, hd⟩, hc⟩

/-- A step that finds more does not change a loop that ends. -/
theorem repeatM_mono {g : α → Except ε α}
    (hfg : ∀ a b, f a = .ok b → g a = .ok b) (h : repeatM f n a = .ok c) :
    repeatM g n a = .ok c := by
  induction n generalizing a with
  | zero => exact h
  | succ n ih =>
    obtain ⟨b, hb, hrest⟩ := repeatM_succ_ok.1 h
    exact repeatM_succ_ok.2 ⟨b, hfg a b hb, ih hrest⟩

/-- What each step keeps holds at the end. -/
theorem repeatM_invariant {I : α → Prop} (hinv : ∀ a b, I a → f a = .ok b → I b)
    (ha : I a) (h : repeatM f n a = .ok c) : I c := by
  induction n generalizing a with
  | zero => exact Except.ok.inj h ▸ ha
  | succ n ih =>
    obtain ⟨b, hb, hrest⟩ := repeatM_succ_ok.1 h
    exact ih (hinv a b ha hb) hrest

/-- What the loop found, and that it found nothing before. -/
theorem firstM_some {f : Nat → Except ε (Option α)} {i : Nat} (h : firstM f n i = .ok (some a)) :
    ∃ j, j < n ∧ f (i + j) = .ok (some a) ∧ ∀ k < j, f (i + k) = .ok none := by
  induction n generalizing i with
  | zero => cases h
  | succ n ih =>
    obtain ⟨found, hfound, hrest⟩ := bind_eq_ok.1 h
    cases found with
    | some b =>
      obtain rfl : b = a := Option.some.inj (Except.ok.inj hrest)
      exact ⟨0, Nat.succ_pos n, hfound, fun k hk => absurd hk (Nat.not_lt_zero k)⟩
    | none =>
      obtain ⟨j, hj, hfj, hbefore⟩ := ih hrest
      refine ⟨j + 1, by omega, ?_, ?_⟩
      · rw [← hfj]
        congr 1
        omega
      · intro k hk
        cases k with
        | zero => exact hfound
        | succ k =>
          rw [← hbefore k (by omega)]
          congr 1
          omega

/-- A search along a list. -/
theorem firstM_eq_findIdx? {β : Type} {f : Nat → Except ε (Option α)}
    {test : β → Bool} {found : Nat → β → α} {l : List β} {i : Nat}
    (h : ∀ j c, l[j]? = some c →
      f (i + j) = .ok (if test c then some (found (i + j) c) else none)) :
    firstM f l.length i = .ok ((l.findIdx? test).bind fun j => l[j]?.map (found (i + j))) := by
  induction l generalizing i with
  | nil => rfl
  | cons c l ih =>
    have hfirst := h 0 c rfl
    rw [Nat.add_zero] at hfirst
    rw [List.length_cons, firstM, hfirst, List.findIdx?_cons]
    by_cases hc : test c
    · rw [if_pos hc, if_pos hc]
      rfl
    · rw [if_neg hc, if_neg hc]
      have hrest := @ih (i + 1) (fun j d hd => by
        rw [show i + 1 + j = i + (j + 1) by omega]
        exact h (j + 1) d hd)
      refine Eq.trans hrest ?_
      cases l.findIdx? test with
      | none => rfl
      | some j =>
        simp only [Option.bind_some, Option.map_some, List.getElem?_cons_succ]
        rw [show i + 1 + j = i + (j + 1) by omega]

end OmarchyAne.Lib
