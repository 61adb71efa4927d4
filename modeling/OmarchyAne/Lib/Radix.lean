import Mathlib.Algebra.Group.Nat.Defs
import Mathlib.Data.Nat.Basic
import Mathlib.Data.Option.Basic
import Mathlib.Order.Basic

/-!
# Radix trees in memory

A radix tree keeps its tables in memory, each under an address.  An entry of a
table leads to a table one level down, or to nothing (`child`).  `node` is the
table that a number leads to: the digits of the number, to base `fanout`,
select the entries from the root on.

A tree of `depth` levels is separate when no table is reached in two ways
(`Separate`).  Two updates keep this: a new entry in a table of the last level
(`separate_setLeaf`) and a new empty table under an unused entry
(`Growth.separate`).  `find` is the entry of a number at the last level, if it
leads anywhere.  A leaf update changes `find` at one number
(`find_setLeaf`), a new table nowhere (`Growth.find_eq`).
-/

namespace OmarchyAne.Lib

/-- How a radix tree is laid out: where an entry leads, the entries of a
table, and the number of levels. -/
structure Radix (α ε : Type) where
  child : ε → Option α
  fanout : Nat
  depth : Nat

namespace Radix

variable {α ε : Type} {R : Radix α ε} {mem : α → Nat → ε} {root : α}

/-- The table at level `d` that the number `q` leads to. -/
def node (R : Radix α ε) (mem : α → Nat → ε) (root : α) :
    Nat → Nat → Option α
  | 0, q => if q = 0 then some root else none
  | d + 1, q =>
    (node R mem root d (q / R.fanout)).bind (fun a =>
      R.child (mem a (q % R.fanout)))

/-- No table of the tree is reached in two ways. -/
def Separate (R : Radix α ε) (mem : α → Nat → ε) (root : α) : Prop :=
  ∀ {d d' q q' a}, d < R.depth → d' < R.depth →
    R.node mem root d q = some a → R.node mem root d' q' = some a →
    d = d' ∧ q = q'

/-- The place of a number at the last level: a table and an index. -/
def place (R : Radix α ε) (mem : α → Nat → ε) (root : α) (p : Nat) :
    Option (α × Nat) :=
  (R.node mem root (R.depth - 1) (p / R.fanout)).map
    (fun a => (a, p % R.fanout))

/-- The entry of a number at the last level, if it leads anywhere. -/
def find (R : Radix α ε) (mem : α → Nat → ε) (root : α) (p : Nat) :
    Option ε :=
  ((R.place mem root p).map (fun s => mem s.1 s.2)).filter
    (fun e => (R.child e).isSome)

theorem node_succ_eq_some {d q : Nat} {b : α} : R.node mem root (d + 1) q = some b ↔
      ∃ a, R.node mem root d (q / R.fanout) = some a ∧ R.child (mem a (q % R.fanout)) = some b := by
  rw [node, Option.bind_eq_some_iff]

/-- Under a missing table there is nothing. -/
theorem node_eq_none_of_above {d k q : Nat} (h : R.node mem root d (q / R.fanout ^ k) = none) :
    R.node mem root (d + k) q = none := by
  induction k generalizing q with
  | zero => simpa using h
  | succ k ih =>
    rw [Nat.pow_succ', ← Nat.div_div_eq_div_mul] at h
    rw [← Nat.add_assoc, node, ih h, Option.bind_none]

/-- Two numbers never share a place. -/
theorem Separate.place_injective (h : R.Separate mem root)
    (hdepth : 0 < R.depth) {p q : Nat} {s : α × Nat}
    (hp : R.place mem root p = some s) (hq : R.place mem root q = some s) :
    p = q := by
  obtain ⟨a, ha, rfl⟩ := Option.map_eq_some_iff.mp hp
  obtain ⟨b, hb, heq⟩ := Option.map_eq_some_iff.mp hq
  obtain ⟨rfl, hmod⟩ := Prod.mk.inj heq
  obtain ⟨-, hdiv⟩ := h (by omega) (by omega) ha hb
  rw [← Nat.div_add_mod p R.fanout, ← Nat.div_add_mod q R.fanout, hdiv, hmod]

/-- What it takes to add a table for the number `q` at level `d + 1`: the
table `a` above has no entry for `q`, and the new table `b`, which `e` leads
to, is not part of the tree. -/
structure Growth (R : Radix α ε) (mem : α → Nat → ε) (root : α)
    (d q : Nat) (a b : α) (zero e : ε) : Prop where
  inner : d + 1 < R.depth
  parent : R.node mem root d (q / R.fanout) = some a
  unused : R.child (mem a (q % R.fanout)) = none
  fresh : ∀ {d' q'}, d' < R.depth → R.node mem root d' q' ≠ some b
  empty : R.child zero = none
  link : R.child e = some b

theorem Growth.ne {d q : Nat} {a b : α} {zero e : ε}
    (g : Growth R mem root d q a b zero e) : a ≠ b := by
  rintro rfl
  have := g.inner
  exact g.fresh (by omega) g.parent

/-! ## Updates -/

variable [DecidableEq α]

/-- Write one entry of one table. -/
def setEntry (mem : α → Nat → ε) (a : α) (i : Nat) (e : ε) : α → Nat → ε :=
  fun b j => if b = a ∧ j = i then e else mem b j

/-- Fill a table with one value. -/
def fill (mem : α → Nat → ε) (a : α) (e : ε) : α → Nat → ε :=
  fun b j => if b = a then e else mem b j

/-- Fill the table `b`, and hang it under entry `i` of the table `a`. -/
def hang (mem : α → Nat → ε) (a : α) (i : Nat) (b : α) (zero e : ε) :
    α → Nat → ε :=
  setEntry (fill mem b zero) a i e

/-! ## A new entry at the last level -/

section Leaf

variable {p : Nat} {a : α} {i : Nat} (e : ε)

/-- A write to a table of the last level moves no table. -/
theorem node_setLeaf (h : R.Separate mem root)
    (hp : R.place mem root p = some (a, i)) {d : Nat} (hd : d < R.depth)
    (q : Nat) :
    R.node (setEntry mem a i e) root d q = R.node mem root d q := by
  obtain ⟨a', ha, heq⟩ := Option.map_eq_some_iff.mp hp
  obtain ⟨rfl, -⟩ := Prod.mk.inj heq
  induction d generalizing q with
  | zero => rfl
  | succ d ih =>
    rw [node, node, ih (by omega)]
    cases hb : R.node mem root d (q / R.fanout) with
    | none => rfl
    | some b =>
      -- The table above is not one of the last level.
      have hne : b ≠ a' := by
        rintro rfl
        have := (h (by omega) (by omega) hb ha).1
        omega
      simp [setEntry, hne]

theorem separate_setLeaf (h : R.Separate mem root) (hp : R.place mem root p = some (a, i)) :
    R.Separate (setEntry mem a i e) root := by
  intro d d' q q' b hd hd' hb hb'
  rw [node_setLeaf e h hp hd] at hb
  rw [node_setLeaf e h hp hd'] at hb'
  exact h hd hd' hb hb'

theorem place_setLeaf (h : R.Separate mem root)
    (hp : R.place mem root p = some (a, i)) (hdepth : 0 < R.depth)
    (q : Nat) :
    R.place (setEntry mem a i e) root q = R.place mem root q := by
  rw [place, place, node_setLeaf e h hp (by omega)]

/-- A write at the place of a number is seen at that number only. -/
theorem find_setLeaf (h : R.Separate mem root)
    (hp : R.place mem root p = some (a, i)) (hdepth : 0 < R.depth)
    (he : (R.child e).isSome) (q : Nat) :
    R.find (setEntry mem a i e) root q = if q = p then some e else R.find mem root q := by
  rw [find, find, place_setLeaf e h hp hdepth]
  split
  case isTrue hqp =>
    subst hqp
    simp [hp, setEntry, he]
  case isFalse hqp =>
    cases hq : R.place mem root q with
    | none => rfl
    | some s =>
      have hne : ¬ (s.1 = a ∧ s.2 = i) := by
        rintro ⟨rfl, rfl⟩
        exact hqp (h.place_injective hdepth hq hp)
      simp only [Option.map_some, setEntry, if_neg hne]

end Leaf

/-! ## A new table -/

namespace Growth

variable {d q : Nat} {a b : α} {zero e : ε}

/-- The new table is reached by one number, and no other table moves. -/
theorem node_eq (g : Growth R mem root d q a b zero e)
    (h : R.Separate mem root) {d' : Nat} (hd' : d' < R.depth) (p : Nat) :
    R.node (hang mem a (q % R.fanout) b zero e) root d' p =
      if d' = d + 1 ∧ p = q then some b else R.node mem root d' p := by
  have hin := g.inner
  induction d' generalizing p with
  | zero => rw [if_neg (by omega)]; rfl
  | succ d' ih =>
    rw [node, ih (by omega)]
    split
    case isTrue hnew =>
      -- Under the new table there is nothing, before and after.
      obtain ⟨rfl, hp⟩ := hnew
      rw [if_neg (by omega), node, hp]
      have hold : R.node mem root (d + 1) q = none := by
        rw [node, g.parent]
        exact g.unused
      rw [hold]
      simp only [Option.bind_some, Option.bind_none, hang, setEntry]
      rw [if_neg (fun hc => g.ne hc.1.symm), fill, if_pos rfl]
      exact g.empty
    case isFalse hold =>
      rw [node]
      cases hc : R.node mem root d' (p / R.fanout) with
      | none =>
        rw [if_neg]
        · rfl
        · rintro ⟨hd, rfl⟩
          obtain rfl : d' = d := by omega
          rw [g.parent] at hc
          cases hc
      | some c =>
        have hcb : c ≠ b := fun heq => g.fresh (by omega) (heq ▸ hc)
        simp only [Option.bind_some, hang, setEntry]
        by_cases hca : c = a ∧ p % R.fanout = q % R.fanout
        · obtain ⟨rfl, hmod⟩ := hca
          obtain ⟨rfl, hdiv⟩ := h (by omega) (by omega) hc g.parent
          have hpq : p = q := by
            rw [← Nat.div_add_mod p R.fanout, hdiv, hmod, Nat.div_add_mod]
          rw [if_pos ⟨rfl, hmod⟩, if_pos ⟨rfl, hpq⟩]
          exact g.link
        · rw [if_neg hca, if_neg, fill, if_neg hcb]
          rintro ⟨hd, rfl⟩
          obtain rfl : d' = d := by omega
          rw [g.parent] at hc
          exact hca ⟨(Option.some.inj hc).symm, rfl⟩

theorem separate (g : Growth R mem root d q a b zero e)
    (h : R.Separate mem root) : R.Separate (hang mem a (q % R.fanout) b zero e) root := by
  intro d₁ d₂ q₁ q₂ c h₁ h₂ hc₁ hc₂
  rw [g.node_eq h h₁] at hc₁
  rw [g.node_eq h h₂] at hc₂
  split at hc₁ <;> split at hc₂
  case isTrue.isTrue hn₁ hn₂ =>
    exact ⟨hn₁.1.trans hn₂.1.symm, hn₁.2.trans hn₂.2.symm⟩
  case isTrue.isFalse =>
    obtain rfl := Option.some.inj hc₁
    exact absurd hc₂ (g.fresh h₂)
  case isFalse.isTrue =>
    obtain rfl := Option.some.inj hc₂
    exact absurd hc₁ (g.fresh h₁)
  case isFalse.isFalse => exact h h₁ h₂ hc₁ hc₂

/-- A new table adds no entry that leads anywhere. -/
theorem find_eq (g : Growth R mem root d q a b zero e) (h : R.Separate mem root) (p : Nat) :
    R.find (hang mem a (q % R.fanout) b zero e) root p = R.find mem root p := by
  have hin := g.inner
  rw [find, find, place, place, g.node_eq h (by omega)]
  split
  case isTrue hnew =>
    obtain ⟨hd, hp⟩ := hnew
    have hold : R.node mem root (R.depth - 1) (p / R.fanout) = none := by
      rw [hp, hd, node, g.parent]
      exact g.unused
    have hnone : R.child (hang mem a (q % R.fanout) b zero e b
        (p % R.fanout)) = none := by
      simp only [hang, setEntry]
      rw [if_neg (fun hc => g.ne hc.1.symm), fill, if_pos rfl]
      exact g.empty
    simp [hold, hnone]
  case isFalse hold =>
    cases hc : R.node mem root (R.depth - 1) (p / R.fanout) with
    | none => rfl
    | some c =>
      have hcb : c ≠ b := fun heq => g.fresh (by omega) (heq ▸ hc)
      have hca : c ≠ a := by
        rintro rfl
        have := (h (by omega) (by omega) hc g.parent).1
        omega
      simp [hang, setEntry, hca, fill, hcb]

end Growth

end Radix

end OmarchyAne.Lib
