import Mathlib.Data.List.Forall2

/-!
# Checked computations

A computation in `Except` that stops at the first check that fails.  The
rules turn "it succeeded" into the facts that its checks established, for one
check, for a check of every member of a list (`forM_eq_ok`) and for a loop
with a state (`foldlM_invariant`).  `foldlM_simulates` runs a second loop
beside a loop that succeeds.
-/

namespace OmarchyAne.Lib

open List

variable {ε α β : Type} {b : β} {l : List α} {f : β → α → Except ε β}

/-- Stop with `e` when `c` holds. -/
def stopIf (c : Prop) [Decidable c] (e : ε) : Except ε Unit :=
  if c then .error e else .ok ()

@[simp] theorem stopIf_eq_ok {c : Prop} [Decidable c] {e : ε} {u : Unit} :
    stopIf c e = .ok u ↔ ¬ c := by
  unfold stopIf
  split <;> simp [*]

theorem bind_eq_ok {x : Except ε α} {f : α → Except ε β} :
    (x >>= f) = .ok b ↔ ∃ a, x = .ok a ∧ f a = .ok b := by
  cases x with
  | error e => simp [bind, Except.bind]
  | ok a => simp [bind, Except.bind]

theorem pure_eq_ok {a b : α} : (pure a : Except ε α) = .ok b ↔ a = b := by
  simp [pure, Except.pure]

/-- A check made for every member of a list. -/
theorem forM_eq_ok {f : α → Except ε Unit} {u : Unit} :
    l.forM f = .ok u ↔ ∀ a ∈ l, f a = .ok () := by
  induction l with
  | nil => simp [List.forM, pure_eq_ok]
  | cons a l ih =>
    rw [forall_mem_cons, ← ih]
    refine Iff.trans bind_eq_ok ?_
    exact ⟨fun ⟨_, ha, hl⟩ => ⟨ha, hl⟩, fun ⟨ha, hl⟩ => ⟨(), ha, hl⟩⟩

/-- Lists from every member of a list, joined. -/
theorem mapM_flatten {f : α → Except ε (List β)} {q : α → β → Prop}
    (h : ∀ a ∈ l, ∃ bs, f a = .ok bs ∧ ∀ b, b ∈ bs ↔ q a b) :
    ∃ bss, l.mapM f = .ok bss ∧ ∀ b, b ∈ bss.flatten ↔ ∃ a ∈ l, q a b := by
  induction l with
  | nil => exact ⟨[], rfl, by simp⟩
  | cons a l ih =>
    obtain ⟨⟨bs, hbs, hmem⟩, hrest⟩ := forall_mem_cons.mp h
    obtain ⟨bss, hbss, hall⟩ := ih hrest
    refine ⟨bs :: bss, ?_, fun b => by simp [hmem, hall]⟩
    rw [mapM_cons, hbs, hbss]
    rfl

/-- A function that can fail, applied to every member of a list. -/
theorem mapM_eq_ok {f : α → Except ε β} {g : α → β} {bs : List β}
    (hf : ∀ {a b}, f a = .ok b → b = g a) (h : l.mapM f = .ok bs) :
    bs = l.map g ∧ ∀ a ∈ l, f a = .ok (g a) := by
  induction l generalizing bs with
  | nil =>
    rw [mapM_nil, pure_eq_ok] at h
    exact ⟨h.symm, by simp⟩
  | cons a l ih =>
    simp only [mapM_cons, bind_eq_ok, pure_eq_ok] at h
    obtain ⟨b, hb, bs', hbs, rfl⟩ := h
    obtain ⟨rfl, hall⟩ := ih hbs
    obtain rfl := hf hb
    exact ⟨rfl, forall_mem_cons.mpr ⟨hb, hall⟩⟩

/-- A loop whose turns all succeed. -/
theorem foldlM_ok {g : β → α → β} (h : ∀ a ∈ l, ∀ b, f b a = .ok (g b a)) :
    l.foldlM f b = .ok (l.foldl g b) := by
  induction l generalizing b with
  | nil => rfl
  | cons a l ih =>
    obtain ⟨ha, hl⟩ := forall_mem_cons.mp h
    rw [foldlM_cons, ha, foldl_cons]
    exact ih hl

/-- The invariant rule of a loop that stops at the first failure.  The
invariant speaks of the part of the list that is done. -/
theorem foldlM_invariant {I : List α → β → Prop} {b' : β}
    (h : l.foldlM f b = .ok b') (hstart : I [] b)
    (hstep : ∀ {done c a c'}, I done c → f c a = .ok c' → I (done ++ [a]) c') :
    I l b' := by
  have key : ∀ {rest done : List α} {c : β}, I done c →
      rest.foldlM f c = .ok b' → I (done ++ rest) b' := by
    intro rest
    induction rest with
    | nil =>
      intro done c hI hc
      rw [foldlM_nil, pure_eq_ok] at hc
      rwa [append_nil, ← hc]
    | cons a rest ih =>
      intro done c hI hc
      rw [foldlM_cons, bind_eq_ok] at hc
      obtain ⟨c', hstep', hrest⟩ := hc
      have := ih (hstep hI hstep') hrest
      rwa [append_assoc, singleton_append] at this
  simpa using key hstart h

/-- A loop beside one that succeeds, with a relation of their states. -/
theorem foldlM_simulates {γ : Type} {g : γ → α → Except ε γ} {R : β → γ → Prop}
    {b' : β} {c : γ} (h : l.foldlM f b = .ok b') (hstart : R b c)
    (hstep : ∀ {b a b' c}, f b a = .ok b' → R b c → ∃ c', g c a = .ok c' ∧ R b' c') :
    ∃ c', l.foldlM g c = .ok c' ∧ R b' c' := by
  induction l generalizing b c with
  | nil =>
    rw [foldlM_nil, pure_eq_ok] at h
    exact ⟨c, rfl, h ▸ hstart⟩
  | cons a l ih =>
    rw [foldlM_cons, bind_eq_ok] at h
    obtain ⟨b₁, hfirst, hrest⟩ := h
    obtain ⟨c₁, hc₁, hR⟩ := hstep hfirst hstart
    obtain ⟨c', hc', hR'⟩ := ih hrest hR
    refine ⟨c', ?_, hR'⟩
    rw [foldlM_cons, bind_eq_ok]
    exact ⟨c₁, hc₁, hc'⟩

end OmarchyAne.Lib
