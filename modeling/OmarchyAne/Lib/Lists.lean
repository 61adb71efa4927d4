import Mathlib.Algebra.BigOperators.Group.Finset.Basic
import Mathlib.Algebra.BigOperators.Group.List.Basic
import Mathlib.Algebra.Order.Ring.Int
import Mathlib.Data.List.Count
import Mathlib.Logic.Function.Basic

/-!
# Lists

A system with many operations in progress keeps them in a list, and a step
changes one entry of that list.  `sum_map_set` says how a sum over the list
changes then, in any commutative monoid, so it serves byte counts and
occurrence counts alike.  `countP_update` is the same for a count of the
members that pass a test, when the test changes at one member.

`sum_range_update` is for a table, which is a function on the numbers below a
mark.

`filter_key` and `find?_key` are for a table that is a list without two
entries of one key.

`foldl_overwrite` is for a search loop that keeps the last hit, and
`flatMap_injective` is about a list that is written as one string: when each
code shows where it ends, the string shows the list.

`dropFirst` takes the first members that pass a test out of a list.
-/

namespace OmarchyAne.Lib

open List

variable {α : Type} {l : List α} {i : Nat} {x : α} {j : Nat} {a : α} {β : Type}

/-- Changing entry `i` from `x` to `y` exchanges `f x` for `f y`. -/
theorem sum_map_set {M : Type} [AddCommMonoid M] (f : α → M) (hx : l[i]? = some x) (y : α) :
    ((l.set i y).map f).sum + f x = (l.map f).sum + f y := by
  induction l generalizing i with
  | nil => simp at hx
  | cons a l ih =>
    cases i with
    | zero =>
      simp only [getElem?_cons_zero, Option.some.injEq] at hx
      subst hx
      simp only [set_cons_zero, map_cons, sum_cons]
      ac_rfl
    | succ i =>
      simp only [getElem?_cons_succ] at hx
      simp only [set_cons_succ, map_cons, sum_cons]
      rw [add_assoc, ih hx, add_assoc]

/-- The same for the entries that pass a test. -/
theorem countP_set (f : α → Bool) (hx : l[i]? = some x) (y : α) :
    (l.set i y).countP f + (f x).toNat = l.countP f + (f y).toNat := by
  induction l generalizing i with
  | nil => simp at hx
  | cons a l ih =>
    cases i with
    | zero =>
      obtain rfl : a = x := by simpa using hx
      rw [set_cons_zero, countP_cons, countP_cons]
      cases f a <;> cases f y <;> simp
    | succ i =>
      have hrest := ih (by simpa using hx)
      rw [set_cons_succ, countP_cons, countP_cons]
      omega

theorem mem_set_self (hx : l[i]? = some x) (a : α) : a ∈ l.set i a := by
  have hi := (List.getElem?_eq_some_iff.mp hx).1
  exact mem_iff_getElem?.mpr ⟨i, by simp [hi]⟩

theorem mem_set_of_ne (hx : l[j]? = some x) (hne : j ≠ i) (a : α) : x ∈ l.set i a := by
  refine mem_iff_getElem?.mpr ⟨j, ?_⟩
  rw [getElem?_set_ne hne.symm, hx]

/-- An entry that passes a test stays, if the changed one does not fail. -/
theorem exists_mem_set {f : α → Prop} (hx : l[i]? = some x) (hf : f x → f a) (h : ∃ y ∈ l, f y) :
    ∃ y ∈ l.set i a, f y := by
  obtain ⟨y, hy, hfy⟩ := h
  obtain ⟨j, hj⟩ := mem_iff_getElem?.mp hy
  by_cases hji : j = i
  · subst hji
    obtain rfl := Option.some.inj (hj.symm.trans hx)
    exact ⟨a, mem_set_self hx a, hf hfy⟩
  · exact ⟨y, mem_set_of_ne hj hji a, hfy⟩

/-- An entry that passes a test was there, if the changed one passed before. -/
theorem exists_of_mem_set {f : α → Prop} (hx : l[i]? = some x) (hf : f a → f x)
    (h : ∃ y ∈ l.set i a, f y) : ∃ y ∈ l, f y := by
  obtain ⟨y, hy, hfy⟩ := h
  obtain rfl | hmem := mem_or_eq_of_mem_set hy |>.symm
  · exact ⟨x, mem_of_getElem? hx, hf hfy⟩
  · exact ⟨y, hmem, hfy⟩

/-- At most one entry passes the test. -/
theorem index_eq_of_countP_le_one {f : α → Bool} (h : l.countP f ≤ 1) {y : α}
    (hx : l[i]? = some x) (hy : l[j]? = some y) (hfx : f x = true)
    (hfy : f y = true) : i = j := by
  -- Split the list between the two.
  wlog hij : i < j generalizing i j x y
  · rcases Nat.lt_trichotomy i j with hlt | heq | hgt
    · exact absurd hlt hij
    · exact heq
    · exact (this hy hx hfy hfx hgt).symm
  · have hsplit : l.countP f = (l.take j).countP f + (l.drop j).countP f := by
      rw [← countP_append, take_append_drop]
    have hleft : 0 < (l.take j).countP f := by
      refine countP_pos_iff.mpr ⟨x, ?_, hfx⟩
      exact mem_of_getElem? (by rw [getElem?_take_of_lt hij, hx])
    have hright : 0 < (l.drop j).countP f := by
      refine countP_pos_iff.mpr ⟨y, ?_, hfy⟩
      exact mem_of_getElem? (i := 0) (by rw [getElem?_drop]; exact hy)
    omega

/-- Erasing an entry that occurs takes one occurrence away. -/
theorem count_erase_add [DecidableEq α] {b : α} (h : [a].count b ≤ l.count b) :
    (l.erase a).count b + [a].count b = l.count b := by
  by_cases hab : a = b
  · subst hab
    rw [count_singleton_self] at h ⊢
    rw [count_erase_self]
    omega
  · rw [count_erase_of_ne (Ne.symm hab), count_singleton]
    simp [hab]

/-- Changing a test at one member of a list without duplicates exchanges the
answers at that member. -/
theorem countP_update [DecidableEq α] (hnodup : l.Nodup) (ha : a ∈ l) (g : α → Bool) (b : Bool) :
    l.countP (Function.update g a b) + (g a).toNat = l.countP g + b.toNat := by
  induction l with
  | nil => exact absurd ha not_mem_nil
  | cons x l ih =>
    obtain ⟨hx, hl⟩ := nodup_cons.mp hnodup
    rw [countP_cons, countP_cons]
    rcases mem_cons.mp ha with rfl | hmem
    · have hsame : l.countP (Function.update g a b) = l.countP g := by
        refine countP_congr (fun y hy => ?_)
        have hne : y ≠ a := fun h => hx (h ▸ hy)
        rw [Function.update_of_ne hne]
      rw [hsame, Function.update_self]
      cases b <;> cases g a <;> simp
    · have hne : x ≠ a := fun h => hx (h ▸ hmem)
      rw [Function.update_of_ne hne]
      have := ih hl hmem
      omega

/-- Changing slot `i` of a table from `s i` to `x` exchanges their weights. -/
theorem sum_range_update (s : Nat → α) (f : α → Nat) {n : Nat} (hi : i < n) (x : α) :
    ∑ j ∈ Finset.range n, f (Function.update s i x j) + f (s i) =
      ∑ j ∈ Finset.range n, f (s j) + f x := by
  have hmem : i ∈ Finset.range n := Finset.mem_range.mpr hi
  have hrest : ∑ j ∈ (Finset.range n).erase i, f (Function.update s i x j) =
      ∑ j ∈ (Finset.range n).erase i, f (s j) := by
    refine Finset.sum_congr rfl (fun j hj => ?_)
    rw [Function.update_of_ne (Finset.ne_of_mem_erase hj)]
  rw [← Finset.add_sum_erase _ _ hmem, hrest, Function.update_self,
    ← Finset.add_sum_erase _ (fun j => f (s j)) hmem]
  omega

/-- An entry of a list that changed at one place is the new one or an old
one elsewhere. -/
theorem getElem?_set_cases (h : (l.set i a)[j]? = some x) :
    (j = i ∧ x = a) ∨ (j ≠ i ∧ l[j]? = some x) := by
  rw [getElem?_set] at h
  split at h
  · rename_i hij
    split at h
    · exact Or.inl ⟨hij.symm, (Option.some.inj h).symm⟩
    · cases h
  · rename_i hij
    exact Or.inr ⟨fun heq => hij heq.symm, h⟩

/-- An entry of a log that grew by one is an old entry or the new one. -/
theorem getElem?_concat_cases {m : Nat} (h : (l ++ [a])[m]? = some x) :
    (m < l.length ∧ l[m]? = some x) ∨ (m = l.length ∧ x = a) := by
  have hm := (List.getElem?_eq_some_iff.mp h).1
  simp only [length_append, length_singleton] at hm
  rcases Nat.lt_or_ge m l.length with hlt | hge
  · rw [getElem?_append_left hlt] at h
    exact Or.inl ⟨hlt, h⟩
  · obtain rfl : m = l.length := by omega
    rw [getElem?_concat_length] at h
    exact Or.inr ⟨rfl, (Option.some.inj h).symm⟩

/-- A list without two entries of one key, seen at a key. -/
theorem filter_key {κ : Type} [DecidableEq κ] {key : α → κ} (h : (l.map key).Nodup) (k : κ) :
    l.filter (fun a => key a == k) = (l.find? (fun a => key a == k)).toList := by
  induction l with
  | nil => rfl
  | cons a l ih =>
    rw [map_cons, nodup_cons] at h
    by_cases hk : key a = k
    · have hnone : l.filter (fun a => key a == k) = [] := by
        refine filter_eq_nil_iff.mpr (fun b hb hbk => h.1 ?_)
        rw [hk, ← beq_iff_eq.mp hbk]
        exact mem_map_of_mem hb
      simp [hk, hnone]
    · simp [hk, ih h.2]

/-- Such a list has an entry exactly if a search for its key finds it. -/
theorem find?_key {κ : Type} [DecidableEq κ] {key : α → κ} (h : (l.map key).Nodup) :
    l.find? (fun b => key b == key a) = some a ↔ a ∈ l := by
  have hfilter := filter_key h (key a)
  constructor
  · exact mem_of_find?_eq_some
  · intro ha
    have hmem : a ∈ l.filter (fun b => key b == key a) := by simp [ha]
    rw [hfilter] at hmem
    simpa using hmem

theorem mem_drop_range {a k n : Nat} : a ∈ (List.range n).drop k ↔ k ≤ a ∧ a < n := by
  constructor
  · intro h
    obtain ⟨i, hi⟩ := mem_iff_getElem?.1 h
    rw [getElem?_drop] at hi
    obtain ⟨hin, heq⟩ := List.getElem?_eq_some_iff.1 hi
    rw [length_range] at hin
    rw [getElem_range] at heq
    omega
  · rintro ⟨hge, hlt⟩
    apply mem_iff_getElem?.2 ⟨a - k, ?_⟩
    rw [getElem?_drop, Nat.add_sub_cancel' hge, getElem?_range hlt]

/-- A property that each turn of a loop keeps, or establishes for some
entries. -/
theorem foldl_iff {P : β → Prop} {Q : α → Prop} {f : β → α → β}
    (h : ∀ b a, P (f b a) ↔ P b ∨ Q a) (l : List α) (b : β) :
    P (l.foldl f b) ↔ P b ∨ ∃ a ∈ l, Q a := by
  induction l generalizing b with
  | nil => simp
  | cons a l ih =>
    simp only [foldl_cons, ih, h, mem_cons, exists_eq_or_imp, or_assoc]

/-- A loop that does nothing at each entry does nothing. -/
theorem foldl_skip {f : β → α → β} {b : β} (h : ∀ a ∈ l, f b a = b) : l.foldl f b = b := by
  induction l with
  | nil => rfl
  | cons a l ih =>
    obtain ⟨ha, hl⟩ := forall_mem_cons.mp h
    rw [foldl_cons, ha]
    exact ih hl

/-- A loop that overwrites its result at every entry that passes a test ends
with the start value or with what such an entry gave. -/
theorem foldl_overwrite {p : α → Prop} [DecidablePred p] {f : α → β} {b c : β}
    (h : l.foldl (fun acc a => if p a then f a else acc) b = c) :
    c = b ∧ (∀ a ∈ l, ¬ p a) ∨ ∃ a ∈ l, p a ∧ c = f a := by
  induction l generalizing b with
  | nil => exact .inl ⟨h.symm, by simp⟩
  | cons a l ih =>
    obtain ⟨hc, hnone⟩ | ⟨x, hx, hpx⟩ := ih h
    · by_cases ha : p a
      · exact .inr ⟨a, mem_cons_self, ha, hc.trans (if_pos ha)⟩
      · exact .inl ⟨hc.trans (if_neg ha), forall_mem_cons.mpr ⟨ha, hnone⟩⟩
    · exact .inr ⟨x, mem_cons_of_mem _ hx, hpx⟩

/-- Codes that determine what they code, whatever follows them, can be
written one after the other without a separator. -/
theorem flatMap_injective {code : α → List β} (hne : ∀ a, code a ≠ [])
    (hcode : ∀ a b xs ys, code a ++ xs = code b ++ ys → a = b) :
    Function.Injective (fun l : List α => l.flatMap code) := by
  intro l
  induction l with
  | nil =>
    intro m h
    cases m with
    | nil => rfl
    | cons b m => exact absurd h.symm (by simp [hne b])
  | cons a l ih =>
    intro m h
    cases m with
    | nil => exact absurd h (by simp [hne a])
    | cons b m =>
      simp only [flatMap_cons] at h
      obtain rfl := hcode a b _ _ h
      rw [ih (append_cancel_left h)]

section DropFirst

variable {α : Type} {q : α → Bool}

/-- A list without its first `k` members that pass a test. -/
def dropFirst (q : α → Bool) : Nat → List α → List α
  | 0, l => l
  | k + 1, l => dropFirst q k (l.eraseP q)

theorem dropFirst_sublist (k : Nat) (l : List α) : (dropFirst q k l).Sublist l := by
  induction k generalizing l with
  | zero => exact List.Sublist.refl l
  | succ k ih => exact (ih (l.eraseP q)).trans (eraseP_sublist)

theorem filter_eraseP (l : List α) : (l.eraseP q).filter q = (l.filter q).tail := by
  induction l with
  | nil => rfl
  | cons a l ih =>
    by_cases ha : q a = true
    · rw [eraseP_cons_of_pos ha, filter_cons_of_pos ha, tail_cons]
    · rw [eraseP_cons_of_neg ha, filter_cons_of_neg ha, filter_cons_of_neg ha, ih]

theorem filter_dropFirst (k : Nat) (l : List α) :
    (dropFirst q k l).filter q = (l.filter q).drop k := by
  induction k generalizing l with
  | zero => rfl
  | succ k ih =>
    rw [dropFirst, ih, filter_eraseP, drop_tail]

theorem filter_not_dropFirst (k : Nat) (l : List α) :
    (dropFirst q k l).filter (fun a => !q a) = l.filter (fun a => !q a) := by
  induction k generalizing l with
  | zero => rfl
  | succ k ih =>
    rw [dropFirst, ih]
    induction l with
    | nil => rfl
    | cons a l ihl =>
      by_cases ha : q a = true
      · rw [eraseP_cons_of_pos ha, filter_cons_of_neg (by simp [ha])]
      · rw [eraseP_cons_of_neg ha, filter_cons_of_pos (by simp [ha]),
          filter_cons_of_pos (by simp [ha]), ihl]

end DropFirst

end OmarchyAne.Lib
