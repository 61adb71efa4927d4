import OmarchyAne.Dart.Tables

/-!
# What the page tables translate

A successful `dart8_map` adds exactly its range to the translations.

`dart8_translate` reads the leaf entry of a page (`walk_spec`), an accepted
configuration has digits for every page of its window (`dart8CfgInit_covers`),
and a call enters leaf entries in its range only (`dart8Map_spec`).  The
results on one call carry over to a run (`run_enters`), and
`dart8Map_translate` puts them together.
-/

namespace OmarchyAne.Dart

open Lib

variable {c : Cfg} {pt pt' : Pt} {root iova : Nat} {vmBase vmSize : UInt64}
  {alloc : Option (Nat → Nat)} {hasFree : Bool} {a : Call} {pt₀ : Pt}

/-! ## The walk -/

/-- A missing entry on the way to a page, at level `l`. -/
theorem leaf_eq_none {page l table : Nat} (hroot : pt.root = root)
    (hl : 1 ≤ l) (hlt : l ≤ c.walkLevels)
    (hnode : c.radix.node pt.mem root (l - 1) (digits c page l) = some table)
    (hmiss : pt.mem table (digits c page (l + 1) % d8Entries) &&&
      d8PteValid = 0) : leaf c pt page = none := by
  obtain rfl | hlt := Nat.eq_or_lt_of_le hlt
  · rw [digits_last] at hnode
    rw [digits_leaf] at hmiss
    rw [Option.eq_none_iff_forall_ne_some]
    intro pte hpte
    have hplace : c.radix.place pt.mem root page = some (table, page % d8Entries) := by
      rw [Radix.place]
      exact Option.map_eq_some_iff.mpr ⟨table, hnode, rfl⟩
    obtain ⟨rfl, hvalid⟩ := (leaf_eq_some hroot hplace).mp hpte
    exact hvalid hmiss
  · have hnone : c.radix.node pt.mem root l (digits c page (l + 1)) = none := by
      rw [show l = l - 1 + 1 by omega, Radix.node]
      show (c.radix.node pt.mem root (l - 1)
        (digits c page (l - 1 + 1 + 1) / d8Entries)).bind _ = none
      rw [show l - 1 + 1 = l by omega, digits_succ_div (by omega), hnode]
      exact radix_child_eq_none.mpr hmiss
    have hlast : c.radix.node pt.mem root (l + (c.walkLevels - 1 - l))
        (page / d8Entries) = none := by
      apply Radix.node_eq_none_of_above
      show c.radix.node _ _ _ (_ / d8Entries ^ _) = none
      rw [Nat.div_div_eq_div_mul, ← Nat.pow_succ',
        show (c.walkLevels - 1 - l).succ = c.walkLevels + 1 - (l + 1) by
          omega]
      exact hnone
    rw [show l + (c.walkLevels - 1 - l) = c.walkLevels - 1 by omega] at hlast
    rw [leaf, hroot, Radix.find, Radix.place]
    show Option.filter _ (Option.map _ (Option.map _ (c.radix.node pt.mem root
      (c.walkLevels - 1) (page / d8Entries)))) = none
    rw [hlast]
    rfl

/-- The walk finds the leaf entry, or faults at some level if there is
none. -/
theorem walk_spec {left l table : Nat} (write : Bool) (hroot : pt.root = root)
    (hl : 1 ≤ l) (hleft : l + left = c.walkLevels)
    (hnode : c.radix.node pt.mem root (l - 1) (digits c (iova / d8Granule) l) = some table) :
    (∃ pte, leaf c pt (iova / d8Granule) = some pte ∧ walk c pt iova write left l table = .ok pte) ∨
    (leaf c pt (iova / d8Granule) = none ∧ ∃ l' ≥ 1, l' ≤ c.walkLevels ∧
      walk c pt iova write left l table = .error (dart8FaultAt c l' write)) := by
  induction left generalizing l table with
  | zero =>
    obtain rfl : l = c.walkLevels := by omega
    rw [walk]
    split
    case isTrue hmiss =>
      rw [dart8Index_eq le_rfl] at hmiss
      exact .inr ⟨leaf_eq_none hroot hl le_rfl hnode hmiss,
        c.walkLevels, hl, le_rfl, rfl⟩
    case isFalse hvalid =>
      rw [digits_last] at hnode
      exact .inl ⟨_, (leaf_eq_some hroot (place_of_node hnode)).mpr ⟨rfl, hvalid⟩, rfl⟩
  | succ left ih =>
    rw [walk]
    split
    case isTrue hmiss =>
      rw [dart8Index_eq (by omega)] at hmiss
      exact .inr ⟨leaf_eq_none hroot hl (by omega) hnode hmiss, l, hl,
        by omega, rfl⟩
    case isFalse hvalid =>
      refine ih (by omega) (by omega) ?_
      rw [show l + 1 - 1 = l - 1 + 1 by omega, Radix.node_succ_eq_some]
      refine ⟨table, ?_, ?_⟩
      · show c.radix.node _ _ _ (digits c _ (l + 1) / d8Entries) = _
        rw [digits_succ_div (by omega)]
        exact hnode
      · rw [dart8Index_eq (by omega)] at hvalid ⊢
        exact radix_child_eq_some.mpr ⟨hvalid, rfl⟩

/-- A page without a leaf entry faults. -/
theorem dart8Translate_none (h : Inv c root pt) (hcov : Covers c (iova / d8Granule)) (write : Bool)
    (hleaf : leaf c pt (iova / d8Granule) = none) :
    ∃ l ≥ 1, l ≤ c.walkLevels ∧
      dart8Translate c pt iova write = .error (dart8FaultAt c l write) := by
  have hlev := hcov.levels
  have hne : pt.root ≠ 0 := h.root_eq ▸ h.root_ne
  obtain ⟨pte, hpte, -⟩ | ⟨-, l, hl, hle, hwalk⟩ := walk_spec write h.root_eq
    (Nat.le_refl 1) (show 1 + (c.walkLevels - 1) = c.walkLevels by omega)
    (hcov.node_root pt.mem)
  · rw [hleaf] at hpte
    cases hpte
  · refine ⟨l, hl, hle, ?_⟩
    rw [dart8Translate, if_neg hne, h.root_eq, hwalk]

/-- A leaf entry decides the access. -/
theorem dart8Translate_some (h : Inv c root pt) {pte : Nat}
    (hcov : Covers c (iova / d8Granule)) (write : Bool)
    (hleaf : leaf c pt (iova / d8Granule) = some pte) :
    dart8Translate c pt iova write =
      if (if write then pte &&& d8PteNoWrite else pte &&& d8PteNoRead) ≠ 0
      then .error (negated (accessFault write))
      else .ok (dart8LeafPa pte + iova % d8Granule) := by
  have hlev := hcov.levels
  have hne : pt.root ≠ 0 := h.root_eq ▸ h.root_ne
  obtain ⟨pte', hpte, hwalk⟩ | ⟨hnone, -⟩ := walk_spec write h.root_eq
    (Nat.le_refl 1) (show 1 + (c.walkLevels - 1) = c.walkLevels by omega)
    (hcov.node_root pt.mem)
  · rw [hleaf] at hpte
    cases hpte
    rw [dart8Translate, if_neg hne, h.root_eq, hwalk]
  · rw [hleaf] at hnone
    cases hnone

/-! ## A call -/

/-- The window of a configuration. -/
def InWindow (c : Cfg) (iova : Nat) : Prop :=
  c.vmBase.toNat ≤ iova ∧ iova < c.vmBase.toNat + c.vmSize.toNat

/-- The addresses that a call maps. -/
def Call.Contains (a : Call) (iova : Nat) : Prop :=
  a.iova.toNat ≤ iova ∧ iova < a.iova.toNat + a.size.toNat

/-- The address bits above the page. -/
theorem lt_two_pow_vaBits (top : Nat) :
    top < 2 ^ (14 + if top >>> 14 ≠ 0 then Nat.log2 top + 1 - 14 else 0) := by
  rw [Nat.shiftRight_eq_div_pow]
  split
  case isTrue h =>
    have htop := Nat.lt_log2_self (n := top)
    exact Nat.lt_of_lt_of_le htop
      (Nat.pow_le_pow_right (by decide) (by omega))
  case isFalse h => omega

/-- An accepted configuration has two or three levels, and its window ends
below what they reach. -/
theorem dart8CfgInit_ok (h : dart8CfgInit vmBase vmSize alloc hasFree = .ok c) :
    2 ≤ c.walkLevels ∧ c.walkLevels ≤ 3 ∧
      c.vmBase.toNat + c.vmSize.toNat ≤ d8Granule * d8Entries ^ c.walkLevels := by
  unfold dart8CfgInit at h
  cases alloc with
  | none => cases h
  | some alloc =>
    have hbits := lt_two_pow_vaBits (vmBase + vmSize - 1).toNat
    simp only at h
    generalize (if (vmBase + vmSize - 1).toNat >>> 14 ≠ 0 then
      Nat.log2 (vmBase + vmSize - 1).toNat + 1 - 14 else 0) = vaBits at h hbits
    split at h
    case isTrue => cases h
    case isFalse =>
      split at h
      case isTrue => cases h
      case isFalse hwrap =>
        split at h
        case isTrue => cases h
        case isFalse hlev =>
          cases h
          refine ⟨by show 2 ≤ max _ 2; omega, by show max _ 2 ≤ 3; omega, ?_⟩
          show vmBase.toNat + vmSize.toNat ≤
            2 ^ 14 * (2 ^ 11) ^ max ((vaBits + 10) / 11) 2
          rw [← Nat.pow_mul, ← Nat.pow_add]
          have hle : 2 ^ (14 + vaBits) ≤ 2 ^ (14 + 11 * max ((vaBits + 10) / 11) 2) :=
            Nat.pow_le_pow_right (by decide) (by omega)
          rw [UInt64.lt_iff_toNat_lt] at hwrap
          have := vmBase.toNat_lt
          have := vmSize.toNat_lt
          simp only [UInt64.toNat_sub, UInt64.toNat_add, UInt64.toNat_ofNat] at hwrap hbits
          omega

theorem dart8CfgInit_fit (h : dart8CfgInit vmBase vmSize alloc hasFree = .ok c) :
    c.vmBase.toNat + c.vmSize.toNat < 2 ^ 64 := by
  obtain ⟨-, hlev3, hreach⟩ := dart8CfgInit_ok h
  have hle : d8Entries ^ c.walkLevels ≤ d8Entries ^ 3 := Nat.pow_le_pow_right (by decide) hlev3
  simp only [d8Entries, d8Granule] at hreach hle
  omega

theorem dart8CfgInit_covers (h : dart8CfgInit vmBase vmSize alloc hasFree = .ok c)
    (hin : InWindow c iova) : Covers c (iova / d8Granule) := by
  obtain ⟨hlev, -, hreach⟩ := dart8CfgInit_ok h
  exact ⟨by omega, Nat.div_lt_of_lt_mul (Nat.lt_of_lt_of_le hin.2 hreach)⟩

/-- What a call does: it is refused, or it runs the outer loop over pages of
the window. -/
theorem dart8Map_cases (c : Cfg) (pt : Pt) (a : Call)
    (hfit : c.vmBase.toNat + c.vmSize.toNat < 2 ^ 64) :
    (∃ e, (e = .EINVAL ∨ e = .ERANGE) ∧ dart8Map c pt a = (some e, pt)) ∨
    (a.iova.toNat % d8Granule = 0 ∧ a.pa.toNat % d8Granule = 0 ∧ a.size.toNat % d8Granule = 0 ∧
      (∀ iova, a.Contains iova → InWindow c iova) ∧
      dart8Map c pt a = mapPages c a.iova.toNat a.pa.toNat
        (a.prot.toNat &&& protMask) (a.size.toNat / d8Granule) 0 pt) := by
  rw [dart8Map]
  split
  case isTrue => exact .inl ⟨_, .inl rfl, rfl⟩
  case isFalse hargs =>
    split
    case isTrue => exact .inl ⟨_, .inr rfl, rfl⟩
    case isFalse hrange =>
      simp only [not_or, not_not] at hargs hrange
      obtain ⟨-, halign, hsize⟩ := hargs
      obtain ⟨hlo, hwrap, hhi⟩ := hrange
      rw [UInt64.lt_iff_toNat_lt] at hlo hwrap
      rw [UInt64.le_iff_toNat_le] at hhi
      have hbits : (a.iova.toNat ||| a.pa.toNat ||| a.size.toNat) % 2 ^ 14 = 0 := by
        rw [← UInt64.toNat_or, ← UInt64.toNat_or]
        exact halign
      rw [Nat.or_mod_two_pow, Nat.or_mod_two_pow, Nat.or_eq_zero_iff, Nat.or_eq_zero_iff] at hbits
      refine .inr ⟨hbits.1.1, hbits.1.2, hbits.2, ?_, rfl⟩
      have hpos : a.size.toNat ≠ 0 := by
        intro hzero
        exact hsize (UInt64.toNat_inj.mp hzero)
      have := a.iova.toNat_lt
      have := a.size.toNat_lt
      simp only [UInt64.toNat_sub, UInt64.toNat_add, UInt64.toNat_ofNat] at hwrap hhi
      rintro iova ⟨hge, hlt⟩
      constructor <;> omega

/-- The page of an address in the range of a call. -/
theorem contains_iff_page (halign : a.iova.toNat % d8Granule = 0)
    (hsize : a.size.toNat % d8Granule = 0) :
    a.Contains iova ↔ ∃ i < a.size.toNat / d8Granule,
      iova / d8Granule = a.iova.toNat / d8Granule + i := by
  rw [Call.Contains, d8Granule] at *
  constructor
  · rintro ⟨hlo, hhi⟩
    exact ⟨iova / 0x4000 - a.iova.toNat / 0x4000, by omega, by omega⟩
  · rintro ⟨i, hi, heq⟩
    omega

/-- Every address of a page is in the range of a call. -/
def Call.OnPage (a : Call) (page : Nat) : Prop :=
  ∀ iova, iova / d8Granule = page → a.Contains iova

/-- The levels have digits for every page of a range in the window. -/
theorem covers_range (halign : a.iova.toNat % d8Granule = 0) (hsize : a.size.toNat % d8Granule = 0)
    (hwin : ∀ iova, a.Contains iova → InWindow c iova)
    (hcov : ∀ {iova}, InWindow c iova → Covers c (iova / d8Granule)) :
    ∀ i < 0 + a.size.toNat / d8Granule, Covers c (a.iova.toNat / d8Granule + i) := by
  intro i hi
  -- Page `i` of the range is the page of its first address.
  have hdiv : (a.iova.toNat + i * d8Granule) / d8Granule = a.iova.toNat / d8Granule + i :=
    Nat.add_mul_div_right _ _ (by decide)
  rw [← hdiv]
  exact hcov (hwin _ ((contains_iff_page halign hsize).mpr
    ⟨i, by omega, hdiv⟩))

/-- A call adds leaf entries in its range only, and all of them if it
succeeds. -/
theorem dart8Map_spec (hc : Fresh c root) (h : Inv c root pt)
    (hfit : c.vmBase.toNat + c.vmSize.toNat < 2 ^ 64)
    (hcov : ∀ {iova}, InWindow c iova → Covers c (iova / d8Granule))
    {r : Option Errno} (hrun : dart8Map c pt a = (r, pt')) :
    Enters c root a.OnPage pt pt' ∧
      (r = none → a.pa.toNat % d8Granule = 0 ∧ a.iova.toNat % d8Granule = 0 ∧
        ∀ iova, a.Contains iova → InWindow c iova ∧
          leaf c pt' (iova / d8Granule) = some (dart8LeafPte
            ((a.pa.toNat + (iova / d8Granule - a.iova.toNat / d8Granule) *
              d8Granule) % 2 ^ 64) (a.prot.toNat &&& protMask))) := by
  obtain ⟨e, -, herr⟩ | ⟨hiova, hpa, hsize, hwin, heq⟩ :=
    dart8Map_cases c pt a hfit
  · obtain ⟨rfl, rfl⟩ := Prod.mk.inj (herr.symm.trans hrun)
    exact ⟨⟨h, id, fun _ => rfl⟩, fun hr => absurd hr (by simp)⟩
  · have hloop : mapPages c a.iova.toNat a.pa.toNat
        (a.prot.toNat &&& protMask) (a.size.toNat / d8Granule)
        (0 * d8Granule) pt = (r, pt') := by
      rw [Nat.zero_mul]
      exact heq.symm.trans hrun
    obtain ⟨henters, hall⟩ := mapPages_spec hc h (covers_range hiova hsize hwin hcov) hloop
    refine ⟨henters.mono ?_, fun hr => ⟨hpa, hiova, fun iova hin => ?_⟩⟩
    · rintro page ⟨i, hi, rfl⟩ iova hpage
      exact (contains_iff_page hiova hsize).mpr ⟨i, by omega, hpage⟩
    · obtain ⟨i, hi, hdiv⟩ := (contains_iff_page hiova hsize).mp hin
      refine ⟨hwin iova hin, ?_⟩
      rw [hdiv, Nat.add_sub_cancel_left]
      exact hall hr i (by omega) (by omega)

/-! ## A run -/

/-- The page of an address has a valid leaf entry. -/
def Mapped (c : Cfg) (pt : Pt) (iova : Nat) : Prop :=
  (leaf c pt (iova / d8Granule)).isSome

/-- The answer to an access to a page that was mapped to `pa` with the
permissions `prot`. -/
def granted (pa prot : Nat) (write : Bool) : Except Int Nat :=
  if prot &&& (if write then d8PteNoWrite else d8PteNoRead) ≠ 0 then
    .error (negated (accessFault write))
  else .ok pa

/-- At the start the tree has no table but the root. -/
theorem node_of_init (h : (mapSystem c root).init pt₀) {d q a : Nat}
    (hnode : c.radix.node pt₀.mem root d q = some a) :
    d = 0 ∧ q = 0 ∧ a = root := by
  obtain ⟨-, -, hzero, -⟩ := h
  induction d generalizing q a with
  | zero =>
    rw [Radix.node] at hnode
    split at hnode
    · exact ⟨rfl, ‹_›, (Option.some.inj hnode).symm⟩
    · cases hnode
  | succ d ih =>
    obtain ⟨b, hb, hchild⟩ := Radix.node_succ_eq_some.mp hnode
    obtain ⟨-, -, rfl⟩ := ih hb
    rw [hzero] at hchild
    exact absurd (radix_child_eq_some.mp hchild).1 (by simp)

theorem inv_of_init (h : (mapSystem c root).init pt₀) : Inv c root pt₀ := by
  refine ⟨h.1, h.2.1, fun {d d' q q' a} _ _ hq hq' => ?_,
    fun _ ha => .inl (node_of_init h ha).2.2⟩
  obtain ⟨rfl, rfl, -⟩ := node_of_init h hq
  obtain ⟨rfl, rfl, -⟩ := node_of_init h hq'
  exact ⟨rfl, rfl⟩

theorem leaf_of_init (h : (mapSystem c root).init pt₀) (hlev : 2 ≤ c.walkLevels)
    (page : Nat) : leaf c pt₀ page = none := by
  have hnone : c.radix.node pt₀.mem root (c.radix.depth - 1) (page / c.radix.fanout) = none := by
    rw [Option.eq_none_iff_forall_ne_some]
    intro a ha
    have hzero : c.walkLevels - 1 = 0 := (node_of_init h ha).1
    omega
  rw [leaf, h.1, Radix.find, Radix.place, hnone]
  rfl

/-- The run adds leaf entries in the ranges of its calls only. -/
theorem run_enters (hc : Fresh c root) (hfit : c.vmBase.toNat + c.vmSize.toNat < 2 ^ 64)
    (hcov : ∀ {iova}, InWindow c iova → Covers c (iova / d8Granule))
    (h : Inv c root pt) {calls : List Call}
    (hrun : (mapSystem c root).run pt calls = some pt') :
    Enters c root (fun page => ∃ a ∈ calls, a.OnPage page) pt pt' := by
  induction calls generalizing pt with
  | nil =>
    cases hrun
    exact ⟨h, id, fun _ => rfl⟩
  | cons a calls ih =>
    obtain ⟨t, hstep, hrest⟩ := System.run_cons hrun
    cases hstep
    have hmap : dart8Map c pt a = ((dart8Map c pt a).1, (dart8Map c pt a).2) :=
      rfl
    obtain ⟨hone, -⟩ := dart8Map_spec hc h hfit hcov hmap
    refine (hone.mono fun page hp => ?_).trans
      ((ih hone.inv hrest).mono fun page hp => ?_)
    · exact ⟨a, List.mem_cons_self, hp⟩
    · obtain ⟨b, hb, hpage⟩ := hp
      exact ⟨b, List.mem_cons_of_mem a hb, hpage⟩

/-- The address of a mapped page is translated as it was asked for. -/
theorem dart8Translate_leafPte (h : Inv c root pt) {pa prot : Nat}
    (hcov : Covers c (iova / d8Granule)) (halign : pa % d8Granule = 0)
    (hpa : pa < 2 ^ 42)
    (hleaf : leaf c pt (iova / d8Granule) =
      some (dart8LeafPte pa (prot &&& protMask))) (write : Bool) :
    dart8Translate c pt iova write = granted (pa + iova % d8Granule) prot write := by
  have hbit : ∀ i, 1 ≤ i → i < 4 →
      (dart8LeafPte pa (prot &&& protMask) &&& 2 ^ i ≠ 0 ↔
        prot &&& 2 ^ i ≠ 0) := by
    intro i hlo hhi
    have hmask : protMask = genmask 3 1 := by decide
    rw [and_two_pow_ne_zero, and_two_pow_ne_zero,
      testBit_leafPte_prot _ _ hlo hhi, Nat.testBit_and, hmask,
      testBit_genmask]
    simp [hlo, hhi]
  rw [dart8Translate_some h hcov write hleaf, dart8LeafPa_leafPte _ halign hpa, granted]
  cases write with
  | false => exact if_congr (hbit 3 (by decide) (by decide)) rfl rfl
  | true => exact if_congr (hbit 2 (by decide) (by decide)) rfl rfl

/-- Both accesses to an address fault, at some level of the walk. -/
def Faults (c : Cfg) (pt : Pt) (iova : Nat) : Prop :=
  ∀ write, ∃ l ≥ 1, l ≤ c.walkLevels ∧
    dart8Translate c pt iova write = .error (dart8FaultAt c l write)

/-- After any run of `dart8_map` calls: a further call that succeeds maps its
range as asked, and later calls do not change this.  It keeps every
translation of the window and adds none outside its range.  An address in the
range of no call faults.  Two pages of the window never share a leaf
entry. -/
theorem dart8Map_translate {vmBase vmSize : UInt64}
    {alloc : Option (Nat → Nat)} {hasFree : Bool} {pt₀ : Pt}
    {calls : List Call}
    (hcfg : dart8CfgInit vmBase vmSize alloc hasFree = .ok c)
    (hc : Fresh c root) (hinit : (mapSystem c root).init pt₀)
    (hrun : (mapSystem c root).run pt₀ calls = some pt) :
    (∀ a pt', dart8Map c pt a = (none, pt') → a.pa.toNat + a.size.toNat ≤ 2 ^ 42 →
      (∀ later ptEnd, (mapSystem c root).run pt' later = some ptEnd →
        ∀ k < a.size.toNat, Mapped c ptEnd (a.iova.toNat + k) ∧
          ∀ write, dart8Translate c ptEnd (a.iova.toNat + k) write =
            granted (a.pa.toNat + k) a.prot.toNat write) ∧
      (∀ iova, InWindow c iova → Mapped c pt iova → ∀ write,
        dart8Translate c pt' iova write = dart8Translate c pt iova write) ∧
      ∀ iova, InWindow c iova → ¬ Mapped c pt iova → ¬ a.Contains iova → Faults c pt' iova) ∧
    (∀ iova, InWindow c iova → (∀ a ∈ calls, ¬ a.Contains iova) → Faults c pt iova) ∧
    ∀ iova iova' s, InWindow c iova → InWindow c iova' →
      leafEntry c pt iova = some s → leafEntry c pt iova' = some s →
      iova / d8Granule = iova' / d8Granule := by
  obtain ⟨hlev, -, -⟩ := dart8CfgInit_ok hcfg
  have hcov : ∀ {iova}, InWindow c iova → Covers c (iova / d8Granule) :=
    dart8CfgInit_covers hcfg
  have hfit := dart8CfgInit_fit hcfg
  have h₀ := inv_of_init hinit
  have hpast := run_enters hc hfit hcov h₀ hrun
  have h := hpast.inv
  refine ⟨fun a pt' hmap hpa => ?_, fun iova hin hnot write => ?_,
    fun iova iova' s _ _ hs hs' => ?_⟩
  · obtain ⟨hone, hok⟩ := dart8Map_spec hc h hfit hcov hmap
    obtain ⟨hpaAlign, hiova, hall⟩ := hok rfl
    refine ⟨fun later ptEnd hlater k hk => ?_, fun iova hin hmapped write => ?_,
      fun iova hin hnot hout write => ?_⟩
    · obtain ⟨hwin, hleaf⟩ := hall (a.iova.toNat + k) ⟨by omega, by omega⟩
      have hend := run_enters hc hfit hcov hone.inv hlater
      have hkept := hend.keep hleaf
      -- The page is whole, so the offsets of both addresses agree.
      have hpage : (a.pa.toNat + ((a.iova.toNat + k) / d8Granule -
          a.iova.toNat / d8Granule) * d8Granule) % 2 ^ 64 =
          a.pa.toNat + k / d8Granule * d8Granule := by
        rw [d8Granule] at hiova hpaAlign ⊢
        omega
      rw [hpage] at hkept
      refine ⟨by rw [Mapped, hkept]; rfl, fun write => ?_⟩
      rw [dart8Translate_leafPte hend.inv (hcov hwin)
        (by rw [d8Granule] at hpaAlign ⊢; omega)
        (by rw [d8Granule]; omega) hkept]
      congr 1
      rw [d8Granule] at hiova ⊢
      omega
    · obtain ⟨pte, hpte⟩ := Option.isSome_iff_exists.mp hmapped
      rw [dart8Translate_some hone.inv (hcov hin) write (hone.keep hpte),
        dart8Translate_some h (hcov hin) write hpte]
    · refine dart8Translate_none hone.inv (hcov hin) write ?_
      rw [hone.frame (fun hpage => hout (hpage iova rfl))]
      exact Option.not_isSome_iff_eq_none.mp hnot
  · refine dart8Translate_none h (hcov hin) write ?_
    rw [hpast.frame]
    · exact leaf_of_init hinit hlev _
    · rintro ⟨a, ha, hpage⟩
      exact hnot a ha (hpage iova rfl)
  · rw [leafEntry, h.root_eq] at hs hs'
    exact Radix.Separate.place_injective h.separate
      (by show 0 < c.walkLevels; omega) hs hs'

/-- Four pages at address 0, and an allocator with eight tables. -/
def fourPages : Cfg where
  vmBase := 0
  vmSize := 0x10000
  walkLevels := 2
  alloc i := if i < 8 then (i + 2) * 0x4000 else 0

/-- An empty root table. -/
def emptyPt : Pt where
  root := 0x4000
  mem := fun _ _ => 0
  allocs := 0

/-- Two pages without write permission. -/
def twoPages : Call where
  iova := 0x4000
  pa := 0x100000
  size := 0x8000
  prot := 4

theorem fourPages_fresh : Fresh fourPages 0x4000 where
  aligned i := by
    simp only [fourPages, d8Granule]
    split <;> omega
  below i := by
    simp only [fourPages]
    split <;> omega
  ne_root i := by
    simp only [fourPages]
    split <;> omega
  distinct i j heq hne := by
    simp only [fourPages] at heq hne
    split_ifs at heq hne <;> omega

theorem dart8Map_translate_twoPages :
    dart8Translate fourPages (dart8Map fourPages emptyPt twoPages).2 0x8007 false = .ok 0x104007 ∧
      dart8Translate fourPages (dart8Map fourPages emptyPt twoPages).2 0x8007 true = .error (-16) ∧
      Faults fourPages (dart8Map fourPages emptyPt twoPages).2 0xC000 := by
  have hsuccess : (dart8Map fourPages emptyPt twoPages).1 = none := by
    decide +kernel
  have hmap : dart8Map fourPages emptyPt twoPages =
      (none, (dart8Map fourPages emptyPt twoPages).2) := by
    rw [← hsuccess]
  obtain ⟨hcall, hfault, -⟩ := dart8Map_translate
    (show dart8CfgInit 0 0x10000 (some fourPages.alloc) true = .ok fourPages
      from rfl)
    fourPages_fresh
    (show (mapSystem fourPages 0x4000).init emptyPt from
      ⟨rfl, by decide, fun _ => rfl, rfl⟩)
    (show (mapSystem fourPages 0x4000).run emptyPt [] = some emptyPt from rfl)
  have hunmapped : ¬ Mapped fourPages emptyPt 0xC000 := by
    show ¬ (leaf fourPages emptyPt (0xC000 / d8Granule)).isSome = true
    decide +kernel
  obtain ⟨hrange, -, hother⟩ := hcall twoPages _ hmap (by decide)
  obtain ⟨-, hpage⟩ := hrange [] _ rfl 0x4007 (by decide)
  exact ⟨hpage false, hpage true, hother 0xC000 ⟨by decide, by decide⟩ hunmapped
    (fun hin => absurd hin.2 (by decide))⟩

end OmarchyAne.Dart
