import OmarchyAne.Dart.PageTable
import Mathlib.Data.Nat.Bitwise

/-!
# What a map does to the tables

An entry gives back what it was made of (`dart8LeafPa_leafPte`,
`dart8LeafPa_tablePte`), and the digits of an address are the indices of the
walk (`dart8Index_eq`).  So `descend` moves along the nodes of the radix tree
and only adds empty tables (`descend_spec`), and `mapPage` writes one leaf
entry (`mapPage_spec`).  `Inv` is the invariant of a run: the tables form a
separate tree, and all of them come from the allocator.  `Enters` says which
leaf entries a step can add.
-/

namespace OmarchyAne.Dart

open Lib

variable {i pte pa : Nat} {c : Cfg} {pt pt' : Pt} {page l iova root table prot : Nat}

/-! ## Entries -/

theorem testBit_genmask (h l i : Nat) : (genmask h l).testBit i = decide (l ≤ i ∧ i < h + 1) := by
  rw [genmask, Nat.testBit_shiftLeft, Nat.testBit_two_pow_sub_one,
    ← Bool.decide_and, decide_eq_decide]
  omega

theorem and_two_pow_ne_zero {x : Nat} : x &&& 2 ^ i ≠ 0 ↔ x.testBit i = true := by
  rw [Nat.and_two_pow]
  cases x.testBit i <;> simp

/-- Bit `i` of the address of an entry. -/
theorem testBit_leafPa (pte i : Nat) : (dart8LeafPa pte).testBit i =
      (decide (14 ≤ i ∧ i < 42) && pte.testBit (i - 4)) := by
  rw [dart8LeafPa, Nat.testBit_shiftLeft, Nat.testBit_and, d8PaddrMask, testBit_genmask]
  by_cases h : 14 ≤ i ∧ i < 42
  · simp [h, show 4 ≤ i by omega, show 10 ≤ i - 4 by omega,
      show i - 4 < 38 by omega]
  · have hnot : ¬ (4 ≤ i ∧ 10 ≤ i - 4 ∧ i - 4 < 38) := by omega
    simp only [h, decide_false, Bool.false_and, Bool.and_eq_false_imp, decide_eq_true_eq]
    intro h4
    simp only [decide_eq_false_iff_not]
    intro _ hin
    exact hnot ⟨h4, hin⟩

/-- An entry with the address field of `pa` leads to `pa`, if that is a page
below `2 ^ 42`. -/
theorem leafPa_of_field (halign : pa % d8Granule = 0) (hpa : pa < 2 ^ 42)
    (hfield : ∀ i, 10 ≤ i → i < 38 → pte.testBit i = pa.testBit (4 + i)) :
    dart8LeafPa pte = pa := by
  apply Nat.eq_of_testBit_eq
  intro i
  rw [testBit_leafPa]
  by_cases h : 14 ≤ i ∧ i < 42
  · rw [hfield (i - 4) (by omega) (by omega),
      show 4 + (i - 4) = i by omega]
    simp [h]
  · simp only [h, decide_false, Bool.false_and]
    symm
    rcases Nat.lt_or_ge i 14 with hlow | hhigh
    · have hmod := Nat.testBit_mod_two_pow pa 14 i
      have hzero : pa % 2 ^ 14 = 0 := halign
      rw [hzero, Nat.zero_testBit] at hmod
      simpa [hlow] using hmod.symm
    · exact Nat.testBit_lt_two_pow (Nat.lt_of_lt_of_le hpa
        (Nat.pow_le_pow_right (by omega) (by omega)))

theorem dart8LeafPa_tablePte {t : Nat} (halign : t % d8Granule = 0)
    (ht : t < 2 ^ 42) : dart8LeafPa (dart8TablePte t) = t := by
  refine leafPa_of_field halign ht (fun i hlo hhi => ?_)
  simp only [dart8TablePte, Nat.testBit_or, Nat.testBit_and,
    Nat.testBit_shiftRight, d8PaddrMask, testBit_genmask, d8PteValid,
    Nat.testBit_two_pow]
  simp [hlo, hhi, show ¬ 0 = i by omega]

theorem tablePte_valid (t : Nat) : dart8TablePte t &&& d8PteValid ≠ 0 := by
  rw [d8PteValid, and_two_pow_ne_zero, dart8TablePte, Nat.testBit_or,
    d8PteValid, Nat.testBit_two_pow_self, Bool.or_true]

/-- A permission bit of a leaf entry is the one that was asked for. -/
theorem testBit_leafPte_prot (pa prot : Nat) (hlo : 1 ≤ i) (hhi : i < 4) :
    (dart8LeafPte pa prot).testBit i = prot.testBit i := by
  have hmask : protMask = genmask 3 1 := by decide
  simp only [dart8LeafPte, Nat.testBit_or, Nat.testBit_and, d8PaddrMask,
    d8PteSubpageEnd, hmask, testBit_genmask, d8PteValid, Nat.testBit_two_pow]
  simp [hlo, hhi, show ¬ 10 ≤ i by omega, show ¬ 40 ≤ i by omega,
    show ¬ 0 = i by omega]

theorem dart8LeafPa_leafPte (prot : Nat) (halign : pa % d8Granule = 0) (hpa : pa < 2 ^ 42) :
    dart8LeafPa (dart8LeafPte pa prot) = pa := by
  have hmask : protMask = genmask 3 1 := by decide
  refine leafPa_of_field halign hpa (fun i hlo hhi => ?_)
  simp only [dart8LeafPte, Nat.testBit_or, Nat.testBit_and,
    Nat.testBit_shiftRight, d8PaddrMask, d8PteSubpageEnd, hmask,
    testBit_genmask, d8PteValid, Nat.testBit_two_pow]
  simp [hlo, hhi, show ¬ 40 ≤ i by omega, show ¬ i < 4 by omega,
    show ¬ 0 = i by omega]

theorem leafPte_valid (pa prot : Nat) : dart8LeafPte pa prot &&& d8PteValid ≠ 0 := by
  rw [d8PteValid, and_two_pow_ne_zero, dart8LeafPte, Nat.testBit_or,
    d8PteValid, Nat.testBit_two_pow_self, Bool.or_true]

/-! ## Digits -/

/-- The number that leads to the table at level `l` on the way to a page. -/
def digits (c : Cfg) (page l : Nat) : Nat :=
  page / d8Entries ^ (c.walkLevels + 1 - l)

theorem digits_succ_div (hl : l ≤ c.walkLevels) :
    digits c page (l + 1) / d8Entries = digits c page l := by
  have hexp : c.walkLevels + 1 - l = c.walkLevels + 1 - (l + 1) + 1 := by
    omega
  rw [digits, digits, Nat.div_div_eq_div_mul, hexp, Nat.pow_succ]

/-- The index at level `l` is the last digit of the next number. -/
theorem dart8Index_eq (hl : l ≤ c.walkLevels) : dart8Index c iova l =
      digits c (iova / d8Granule) (l + 1) % d8Entries := by
  have hexp : c.walkLevels + 1 - (l + 1) = c.walkLevels - l := by omega
  have hpow : d8Granule * d8Entries ^ (c.walkLevels - l) = 2 ^ (14 + 11 * (c.walkLevels - l)) := by
    rw [Nat.pow_add, Nat.pow_mul]
    rfl
  rw [dart8Index, digits, hexp, Nat.div_div_eq_div_mul, hpow, Nat.shiftRight_eq_div_pow]

theorem digits_last (page : Nat) : digits c page c.walkLevels = page / d8Entries := by
  have hexp : c.walkLevels + 1 - c.walkLevels = 1 := by omega
  rw [digits, hexp, Nat.pow_one]

theorem digits_leaf (page : Nat) : digits c page (c.walkLevels + 1) = page := by
  simp [digits]

/-! ## The invariant -/

/-- The allocator returns fresh pages below `2 ^ 42`, or fails. -/
structure Fresh (c : Cfg) (root : Nat) : Prop where
  aligned : ∀ i, c.alloc i % d8Granule = 0
  below : ∀ i, c.alloc i < 2 ^ 42
  ne_root : ∀ i, c.alloc i ≠ root
  distinct : ∀ i j, c.alloc i = c.alloc j → c.alloc i ≠ 0 → i = j

/-- The tables are a tree whose tables are the root and the tables that the
allocator returned so far. -/
structure Inv (c : Cfg) (root : Nat) (pt : Pt) : Prop where
  root_eq : pt.root = root
  root_ne : root ≠ 0
  separate : c.radix.Separate pt.mem root
  owned : ∀ {d q a}, d < c.walkLevels →
    c.radix.node pt.mem root d q = some a →
      a = root ∨ ∃ i < pt.allocs, c.alloc i = a ∧ a ≠ 0

/-- The leaf entry of a page, if it is valid. -/
def leaf (c : Cfg) (pt : Pt) (page : Nat) : Option Nat :=
  c.radix.find pt.mem pt.root page

theorem radix_child_eq_some {a : Nat} : c.radix.child pte = some a ↔
      pte &&& d8PteValid ≠ 0 ∧ dart8LeafPa pte = a := by
  simp only [Cfg.radix]
  split
  case isTrue h => simp [h]
  case isFalse h => simp [not_not.mp h]

theorem radix_child_eq_none : c.radix.child pte = none ↔ pte &&& d8PteValid = 0 := by
  simp only [Cfg.radix]
  split
  case isTrue h => simp [h]
  case isFalse h => simp [not_not.mp h]

/-- A table that the allocator returns now is not in the tree yet. -/
theorem Inv.fresh (h : Inv c root pt) (hc : Fresh c root)
    (ht : c.alloc pt.allocs ≠ 0) {d q : Nat} (hd : d < c.walkLevels) :
    c.radix.node pt.mem root d q ≠ some (c.alloc pt.allocs) := by
  intro hnode
  obtain heq | ⟨i, hi, heq, -⟩ := h.owned hd hnode
  · exact hc.ne_root _ heq
  · have := hc.distinct pt.allocs i heq.symm ht
    omega

/-- A missing table under a table of the walk is a place to grow. -/
theorem Inv.growth (h : Inv c root pt) (hc : Fresh c root)
    (ht : c.alloc pt.allocs ≠ 0) (hl : 1 ≤ l) (hlt : l < c.walkLevels)
    (hnode : c.radix.node pt.mem root (l - 1) (digits c page l) = some table)
    (hmiss : pt.mem table (digits c page (l + 1) % d8Entries) &&& d8PteValid = 0) :
    Radix.Growth c.radix pt.mem root (l - 1) (digits c page (l + 1)) table
      (c.alloc pt.allocs) 0 (dart8TablePte (c.alloc pt.allocs)) where
  inner := by
    show l - 1 + 1 < c.walkLevels
    omega
  parent := by
    show c.radix.node _ _ _ (digits c page (l + 1) / d8Entries) = _
    rw [digits_succ_div (by omega)]
    exact hnode
  unused := radix_child_eq_none.mpr hmiss
  fresh := h.fresh hc ht
  empty := by simp [radix_child_eq_none]
  link := radix_child_eq_some.mpr ⟨tablePte_valid _,
    dart8LeafPa_tablePte (hc.aligned _) (hc.below _)⟩

/-! ## One page -/

/-- What stays while tables are added: the invariant and the leaf entries. -/
structure Kept (c : Cfg) (root : Nat) (pt pt' : Pt) : Prop where
  inv : Inv c root pt'
  leaf : ∀ page, leaf c pt' page = leaf c pt page

theorem Inv.count (h : Inv c root pt) : Kept c root pt { pt with allocs := pt.allocs + 1 } where
  inv := {
    root_eq := h.root_eq
    root_ne := h.root_ne
    separate := h.separate
    owned := fun hd hnode => (h.owned hd hnode).imp id
      (fun ⟨i, hi, heq⟩ => ⟨i, Nat.lt_succ_of_lt hi, heq⟩) }
  leaf := fun _ => rfl

theorem Inv.grow (h : Inv c root pt) {d q : Nat} (ht : c.alloc pt.allocs ≠ 0)
    (g : Radix.Growth c.radix pt.mem root d q table (c.alloc pt.allocs) 0
      (dart8TablePte (c.alloc pt.allocs))) :
    Kept c root pt { pt with
      mem := Radix.hang pt.mem table (q % d8Entries) (c.alloc pt.allocs) 0
        (dart8TablePte (c.alloc pt.allocs))
      allocs := pt.allocs + 1 } where
  inv := {
    root_eq := h.root_eq
    root_ne := h.root_ne
    separate := g.separate h.separate
    owned := by
      intro d' q' a hd' hnode
      have hnode' := g.node_eq h.separate hd' q'
      rw [show c.radix.fanout = d8Entries from rfl] at hnode'
      rw [hnode'] at hnode
      split at hnode
      · cases hnode
        exact .inr ⟨pt.allocs, Nat.lt_succ_self _, rfl, ht⟩
      · exact (h.owned hd' hnode).imp id
          (fun ⟨i, hi, heq⟩ => ⟨i, Nat.lt_succ_of_lt hi, heq⟩) }
  leaf := by
    intro page
    rw [leaf, leaf]
    simp only [h.root_eq]
    exact g.find_eq h.separate page

theorem Kept.trans {pt'' : Pt} (h : Kept c root pt pt')
    (h' : Kept c root pt' pt'') : Kept c root pt pt'' where
  inv := h'.inv
  leaf := fun page => (h'.leaf page).trans (h.leaf page)

/-- One turn of the inner loop: it ends without memory at a missing table, or
it goes on with the table of the next level. -/
theorem descend_turn (hc : Fresh c root) (left : Nat) (h : Inv c root pt)
    (hl : 1 ≤ l) (hlt : l < c.walkLevels)
    (hnode : c.radix.node pt.mem root (l - 1) (digits c (iova / d8Granule) l) = some table) :
    (pt.mem table (digits c (iova / d8Granule) (l + 1) % d8Entries) &&&
        d8PteValid = 0 ∧ c.alloc pt.allocs = 0 ∧
      descend c iova (left + 1) l table pt = (none, { pt with allocs := pt.allocs + 1 })) ∨
    ∃ table₁ pt₁, descend c iova (left + 1) l table pt = descend c iova left (l + 1) table₁ pt₁ ∧
      Kept c root pt pt₁ ∧ pt.allocs ≤ pt₁.allocs ∧
      c.radix.node pt₁.mem root (l + 1 - 1)
        (digits c (iova / d8Granule) (l + 1)) = some table₁ := by
  have hdigit : digits c (iova / d8Granule) (l + 1) / d8Entries =
    digits c (iova / d8Granule) l := digits_succ_div (by omega)
  rw [descend, dart8Index_eq (by omega)]
  split
  case isTrue hvalid =>
    refine .inr ⟨_, pt, rfl, ⟨h, fun _ => rfl⟩, le_rfl, ?_⟩
    rw [show l + 1 - 1 = l - 1 + 1 by omega, Radix.node_succ_eq_some]
    refine ⟨table, ?_, radix_child_eq_some.mpr ⟨hvalid, rfl⟩⟩
    rw [show c.radix.fanout = d8Entries from rfl, hdigit]
    exact hnode
  case isFalse hmiss =>
    rw [not_not] at hmiss
    simp only
    split
    case isTrue hzero => exact .inl ⟨hmiss, hzero, rfl⟩
    case isFalse ht =>
      have g := h.growth hc ht hl hlt hnode hmiss
      have hentry : dart8LeafPa (Radix.hang pt.mem table
          (digits c (iova / d8Granule) (l + 1) % d8Entries)
          (c.alloc pt.allocs) 0 (dart8TablePte (c.alloc pt.allocs)) table
          (digits c (iova / d8Granule) (l + 1) % d8Entries)) =
          c.alloc pt.allocs := by
        rw [Radix.hang, Radix.setEntry, if_pos ⟨rfl, rfl⟩]
        exact dart8LeafPa_tablePte (hc.aligned _) (hc.below _)
      rw [hentry]
      refine .inr ⟨_, _, rfl, h.grow ht g, Nat.le_succ _, ?_⟩
      have hdepth : l < c.radix.depth := hlt
      have hnew := g.node_eq h.separate hdepth (digits c (iova / d8Granule) (l + 1))
      rw [if_pos ⟨by omega, rfl⟩] at hnew
      exact hnew

/-- The inner loop ends at the table of the last level, or without memory.
No leaf entry changes. -/
theorem descend_spec (hc : Fresh c root) {left : Nat} {r : Option Nat}
    (h : Inv c root pt) (hl : 1 ≤ l) (hleft : l + left = c.walkLevels)
    (hnode : c.radix.node pt.mem root (l - 1) (digits c (iova / d8Granule) l) = some table)
    (hrun : descend c iova left l table pt = (r, pt')) :
    Kept c root pt pt' ∧ pt.allocs ≤ pt'.allocs ∧ ∀ table', r = some table' →
      c.radix.node pt'.mem root (c.walkLevels - 1)
        (iova / d8Granule / d8Entries) = some table' := by
  induction left generalizing l table pt with
  | zero =>
    cases hrun
    refine ⟨⟨h, fun _ => rfl⟩, le_rfl, fun table' heq => ?_⟩
    cases heq
    obtain rfl : l = c.walkLevels := by omega
    rw [digits_last] at hnode
    exact hnode
  | succ left ih =>
    obtain ⟨-, -, hstop⟩ | ⟨table₁, pt₁, hgo, hkept, hle, hnode₁⟩ :=
      descend_turn hc left h hl (by omega) hnode
    · obtain ⟨rfl, rfl⟩ := Prod.mk.inj (hstop.symm.trans hrun)
      exact ⟨h.count, Nat.le_succ _, fun _ heq => absurd heq (by simp)⟩
    · obtain ⟨hrest, hle', hend⟩ := ih hkept.inv (by omega) (by omega) hnode₁
        (hgo.symm.trans hrun)
      exact ⟨hkept.trans hrest, Nat.le_trans hle hle', hend⟩

/-- The configuration has at least one level, and the root has no digits in
front of it. -/
structure Covers (c : Cfg) (page : Nat) : Prop where
  levels : 1 ≤ c.walkLevels
  page : page < d8Entries ^ c.walkLevels

theorem Covers.node_root (h : Covers c page) (mem : Nat → Nat → Nat) :
    c.radix.node mem root (1 - 1) (digits c page 1) = some root := by
  have hzero : digits c page 1 = 0 := by
    rw [digits, Nat.add_sub_cancel]
    exact Nat.div_eq_of_lt h.page
  rw [hzero]
  rfl

/-- Leaf entries are added, and on the pages of `S` only. -/
structure Enters (c : Cfg) (root : Nat) (S : Nat → Prop) (pt pt' : Pt) :
    Prop where
  inv : Inv c root pt'
  keep : ∀ {page pte}, leaf c pt page = some pte → leaf c pt' page = some pte
  frame : ∀ {page}, ¬ S page → leaf c pt' page = leaf c pt page

theorem Kept.enters (h : Kept c root pt pt') (S : Nat → Prop) : Enters c root S pt pt' where
  inv := h.inv
  keep := fun hpte => (h.leaf _).trans hpte
  frame := fun _ => h.leaf _

theorem Enters.trans {S : Nat → Prop} {pt'' : Pt}
    (h : Enters c root S pt pt') (h' : Enters c root S pt' pt'') :
    Enters c root S pt pt'' where
  inv := h'.inv
  keep := fun hpte => h'.keep (h.keep hpte)
  frame := fun hpage => (h'.frame hpage).trans (h.frame hpage)

theorem Enters.mono {S T : Nat → Prop} (h : Enters c root S pt pt')
    (hST : ∀ page, S page → T page) : Enters c root T pt pt' where
  inv := h.inv
  keep := h.keep
  frame := fun hpage => h.frame (fun hS => hpage (hST _ hS))

/-- The place of a page, once its last table is known. -/
theorem place_of_node
    (hnode : c.radix.node pt.mem root (c.walkLevels - 1)
      (iova / d8Granule / d8Entries) = some table) :
    c.radix.place pt.mem root (iova / d8Granule) =
      some (table, dart8Index c iova c.walkLevels) := by
  rw [dart8Index_eq le_rfl, digits_leaf, Radix.place]
  show (c.radix.node pt.mem root (c.walkLevels - 1) (iova / d8Granule / d8Entries)).map _ = _
  rw [hnode]
  rfl

/-- A leaf entry is a valid entry at its place. -/
theorem leaf_eq_some (hroot : pt.root = root)
    (hplace : c.radix.place pt.mem root page = some (table, i)) :
    leaf c pt page = some pte ↔ pt.mem table i = pte ∧ pte &&& d8PteValid ≠ 0 := by
  rw [leaf, hroot, Radix.find, hplace, Option.filter_eq_some_iff,
    Option.map_some, Option.some.injEq, Option.isSome_iff_exists]
  refine and_congr_right (fun _ => ⟨?_, fun hvalid => ?_⟩)
  · rintro ⟨a, ha⟩
    exact (radix_child_eq_some.mp ha).1
  · exact ⟨_, radix_child_eq_some.mpr ⟨hvalid, rfl⟩⟩

/-- The write of a leaf entry, over nothing or over the same entry. -/
theorem Inv.write (h : Inv c root pt) (hlev : 0 < c.walkLevels)
    (hplace : c.radix.place pt.mem root page = some (table, i))
    (hfree : ∀ pte, leaf c pt page = some pte → pte = dart8LeafPte pa prot)
    (hpt' : pt' = { pt with
      mem := Radix.setEntry pt.mem table i (dart8LeafPte pa prot) }) :
    Enters c root (· = page) pt pt' ∧
      leaf c pt' page = some (dart8LeafPte pa prot) := by
  have hvalid : (c.radix.child (dart8LeafPte pa prot)).isSome := by
    rw [Option.isSome_iff_exists]
    exact ⟨_, radix_child_eq_some.mpr ⟨leafPte_valid _ _, rfl⟩⟩
  have hsep : c.radix.Separate pt.mem root := h.separate
  have hleaf : ∀ q, leaf c pt' q = if q = page then
      some (dart8LeafPte pa prot) else leaf c pt q := by
    intro q
    rw [hpt', leaf, leaf]
    simp only [h.root_eq]
    exact Radix.find_setLeaf _ hsep hplace hlev hvalid q
  refine ⟨⟨?_, fun {q pte} hpte => ?_, fun hq => ?_⟩, ?_⟩
  · subst hpt'
    refine ⟨h.root_eq, h.root_ne, Radix.separate_setLeaf _ hsep hplace, fun hd hnode => ?_⟩
    rw [Radix.node_setLeaf _ hsep hplace hd] at hnode
    exact h.owned hd hnode
  · rw [hleaf]
    split
    case isTrue heq => rw [hfree pte (heq ▸ hpte)]
    case isFalse => exact hpte
  · rw [hleaf, if_neg hq]
  · rw [hleaf, if_pos rfl]

/-- One turn of the outer loop enters its page, or fails. -/
theorem mapPage_spec (hc : Fresh c root) (h : Inv c root pt) {r : Option Errno}
    (hcov : Covers c (iova / d8Granule))
    (hrun : mapPage c pt iova pa prot = (r, pt')) :
    Enters c root (· = iova / d8Granule) pt pt' ∧
      (r = none → leaf c pt' (iova / d8Granule) = some (dart8LeafPte pa prot)) := by
  have hlev := hcov.levels
  unfold mapPage at hrun
  rw [h.root_eq] at hrun
  cases hdesc : descend c iova (c.walkLevels - 1) 1 root pt with
  | mk found pt₁ =>
    rw [hdesc] at hrun
    obtain ⟨hkept, -, hend⟩ := descend_spec hc h (Nat.le_refl 1) (by omega) (hcov.node_root _) hdesc
    cases found with
    | none =>
      cases hrun
      exact ⟨hkept.enters _, fun hr => absurd hr (by simp)⟩
    | some table =>
      have hplace := place_of_node (hend table rfl)
      simp only at hrun
      split at hrun
      case isTrue =>
        cases hrun
        exact ⟨hkept.enters _, fun hr => absurd hr (by simp)⟩
      case isFalse hfree =>
        obtain ⟨rfl, hpt'⟩ := Prod.mk.inj hrun
        obtain ⟨henters, hleaf⟩ := hkept.inv.write hlev hplace
          (fun pte hpte => by
            obtain ⟨rfl, hvalid⟩ := (leaf_eq_some hkept.inv.root_eq hplace).mp hpte
            by_contra hne
            exact hfree ⟨hvalid, hne⟩) hpt'.symm
        exact ⟨(hkept.enters _).trans henters, fun _ => hleaf⟩

/-! ## A range -/

/-- The outer loop enters pages of its range, and all of them if it
succeeds. -/
theorem mapPages_spec (hc : Fresh c root) {n j : Nat} {r : Option Errno}
    (h : Inv c root pt) (hcov : ∀ i < j + n, Covers c (iova / d8Granule + i))
    (hrun : mapPages c iova pa prot n (j * d8Granule) pt = (r, pt')) :
    Enters c root (fun page => ∃ i < j + n, page = iova / d8Granule + i) pt pt' ∧
      (r = none → ∀ i, j ≤ i → i < j + n → leaf c pt' (iova / d8Granule + i) =
          some (dart8LeafPte ((pa + i * d8Granule) % 2 ^ 64) prot)) := by
  induction n generalizing j pt with
  | zero =>
    cases hrun
    exact ⟨⟨h, id, fun _ => rfl⟩, fun _ i hlo hhi => absurd hhi (by omega)⟩
  | succ n ih =>
    rw [mapPages] at hrun
    have hfirst : (iova + j * d8Granule) / d8Granule =
        iova / d8Granule + j := Nat.add_mul_div_right _ _ (by decide)
    cases hpage : mapPage c pt (iova + j * d8Granule)
        ((pa + j * d8Granule) % 2 ^ 64) prot with
    | mk r₁ pt₁ =>
      rw [hpage] at hrun
      obtain ⟨hone, hleaf⟩ := mapPage_spec hc h (by rw [hfirst]; exact hcov j (by omega)) hpage
      have hone' := hone.mono (T := fun page =>
        ∃ i < j + (n + 1), page = iova / d8Granule + i)
        (fun page hp => ⟨j, by omega, hp.trans hfirst⟩)
      cases r₁ with
      | some e =>
        cases hrun
        exact ⟨hone', fun hr => absurd hr (by simp)⟩
      | none =>
        rw [hfirst] at hleaf
        rw [show j * d8Granule + d8Granule = (j + 1) * d8Granule by
          rw [Nat.succ_mul]] at hrun
        obtain ⟨hrest, hall⟩ := ih hone.inv (fun i hi => hcov i (by omega)) hrun
        refine ⟨hone'.trans (hrest.mono (fun page ⟨i, hi, heq⟩ =>
          ⟨i, by omega, heq⟩)), fun hr i hlo hhi => ?_⟩
        obtain rfl | hlt := Nat.eq_or_lt_of_le hlo
        · exact hrest.keep (hleaf rfl)
        · exact hall hr i (by omega) (by omega)

end OmarchyAne.Dart
