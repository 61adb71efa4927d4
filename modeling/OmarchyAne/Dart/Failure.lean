import OmarchyAne.Dart.Translate

/-!
# A map that fails

`dart8_map` can return in the middle of its loops.  It has then entered the
pages below the one at which it stopped (`mapPages_fails`), and added tables
that have no valid leaf entry.  So no translation is lost, and the gained ones
are those of the pages below (`dart8Map_fails`).

An entry has room for 42 bits of the output address.  A call does not look at
the bits above, so that a page is mapped to the low 42 bits of its target
(`dart8LeafPte_mod`).

`dart8_translate` does not look at the bits of an address above those that the
levels use (`dart8Translate_dva`), so the results are about all addresses.
-/

namespace OmarchyAne.Dart

open Lib

variable {c : Cfg} {pt pt' : Pt} {root iova l pa prot : Nat} {e : Errno}

/-! ## The bits that do not count -/

/-- The part of an address that the levels and the page use. -/
def Cfg.dva (c : Cfg) (iova : Nat) : Nat :=
  iova % (d8Granule * d8Entries ^ c.walkLevels)

theorem Cfg.dva_eq (c : Cfg) (iova : Nat) : c.dva iova = iova % 2 ^ (14 + 11 * c.walkLevels) := by
  rw [Cfg.dva, Nat.pow_add, Nat.pow_mul]
  rfl

theorem dart8Index_dva (hl : 1 ≤ l) (hle : l ≤ c.walkLevels) :
    dart8Index c (c.dva iova) l = dart8Index c iova l := by
  rw [dart8Index, dart8Index, c.dva_eq, show d8Entries = 2 ^ 11 from rfl]
  apply Nat.eq_of_testBit_eq
  intro i
  simp only [Nat.testBit_mod_two_pow, Nat.testBit_shiftRight]
  by_cases hi : i < 11
  · have hin : 14 + 11 * (c.walkLevels - l) + i < 14 + 11 * c.walkLevels := by
      omega
    simp [hi, hin]
  · simp [hi]

theorem walk_dva {left table : Nat} (write : Bool) (hl : 1 ≤ l) (hleft : l + left ≤ c.walkLevels) :
    walk c pt (c.dva iova) write left l table = walk c pt iova write left l table := by
  induction left generalizing l table with
  | zero => rw [walk, walk, dart8Index_dva hl hleft]
  | succ left ih =>
    rw [walk, walk, dart8Index_dva hl (by omega)]
    simp only [ih (show 1 ≤ l + 1 by omega) (show l + 1 + left ≤ c.walkLevels by omega)]

theorem dart8Translate_dva (hlev : 1 ≤ c.walkLevels) (iova : Nat) (write : Bool) :
    dart8Translate c pt (c.dva iova) write = dart8Translate c pt iova write := by
  have hmod : c.dva iova % d8Granule = iova % d8Granule := Nat.mod_mul_right_mod _ _ _
  rw [dart8Translate, dart8Translate, hmod, walk_dva write (Nat.le_refl 1) (by omega)]

theorem Cfg.dva_covers (hlev : 1 ≤ c.walkLevels) (iova : Nat) :
    Covers c (c.dva iova / d8Granule) := by
  refine ⟨hlev, Nat.div_lt_of_lt_mul (Nat.mod_lt _ ?_)⟩
  exact Nat.mul_pos (by decide) (Nat.pow_pos (by decide))

/-- A leaf entry has the low 42 bits of the address. -/
theorem dart8LeafPte_mod (pa prot : Nat) :
    dart8LeafPte (pa % 2 ^ 42) prot = dart8LeafPte pa prot := by
  have hfield : (pa % 2 ^ 42) >>> 4 &&& d8PaddrMask = pa >>> 4 &&& d8PaddrMask := by
    apply Nat.eq_of_testBit_eq
    intro i
    simp only [d8PaddrMask, Nat.testBit_and, Nat.testBit_shiftRight,
      Nat.testBit_mod_two_pow, testBit_genmask]
    by_cases hi : 10 ≤ i ∧ i < 38
    · simp [hi, show 4 + i < 42 by omega]
    · simp only [show ¬ (10 ≤ i ∧ i < 37 + 1) from hi, decide_false,
        Bool.and_false]
  rw [dart8LeafPte, dart8LeafPte, hfield]

/-! ## The page at which a call stops -/

/-- No memory: the page has no leaf entry, and the allocator failed. -/
theorem descend_fails (hc : Fresh c root) {left table : Nat} (h : Inv c root pt)
    (hl : 1 ≤ l) (hleft : l + left = c.walkLevels)
    (hnode : c.radix.node pt.mem root (l - 1) (digits c (iova / d8Granule) l) = some table)
    (hrun : descend c iova left l table pt = (none, pt')) :
    leaf c pt (iova / d8Granule) = none ∧ ∃ n, pt.allocs ≤ n ∧ n < pt'.allocs ∧ c.alloc n = 0 := by
  induction left generalizing l table pt with
  | zero => exact nomatch hrun
  | succ left ih =>
    obtain ⟨hmiss, hzero, hstop⟩ | ⟨table₁, pt₁, hgo, hkept, hle, hnode₁⟩ :=
      descend_turn hc left h hl (by omega) hnode
    · obtain ⟨-, rfl⟩ := Prod.mk.inj (hstop.symm.trans hrun)
      exact ⟨leaf_eq_none h.root_eq hl (by omega) hnode hmiss, pt.allocs,
        le_rfl, Nat.lt_succ_self _, hzero⟩
    · obtain ⟨hleaf, n, hlo, hhi, hzero⟩ := ih hkept.inv (by omega)
        (by omega) hnode₁ (hgo.symm.trans hrun)
      exact ⟨(hkept.leaf _).symm.trans hleaf, n, Nat.le_trans hle hlo, hhi, hzero⟩

/-- Why page `page` cannot be mapped to `want`: it has another entry, or there
is no memory for its tables. -/
inductive Blocked (c : Cfg) (pt pt' : Pt) (page want : Nat) : Errno → Prop
  | taken {pte : Nat} (hleaf : leaf c pt page = some pte)
      (hne : pte ≠ want) : Blocked c pt pt' page want .EEXIST
  | noMemory (hleaf : leaf c pt page = none)
      (halloc : ∃ n, pt.allocs ≤ n ∧ n < pt'.allocs ∧ c.alloc n = 0) :
      Blocked c pt pt' page want .ENOMEM

/-- A page that fails changes no leaf entry. -/
theorem mapPage_fails (hc : Fresh c root) (h : Inv c root pt) (hcov : Covers c (iova / d8Granule))
    (hrun : mapPage c pt iova pa prot = (some e, pt')) :
    Kept c root pt pt' ∧ Blocked c pt pt' (iova / d8Granule) (dart8LeafPte pa prot) e := by
  have hlev := hcov.levels
  unfold mapPage at hrun
  rw [h.root_eq] at hrun
  cases hdesc : descend c iova (c.walkLevels - 1) 1 root pt with
  | mk found pt₁ =>
    rw [hdesc] at hrun
    obtain ⟨hkept, -, hend⟩ := descend_spec hc h (Nat.le_refl 1) (by omega) (hcov.node_root _) hdesc
    cases found with
    | none =>
      cases hrun
      obtain ⟨hleaf, halloc⟩ := descend_fails hc h (Nat.le_refl 1) (by omega)
        (hcov.node_root _) hdesc
      exact ⟨hkept, .noMemory hleaf halloc⟩
    | some table =>
      have hplace := place_of_node (hend table rfl)
      simp only at hrun
      split at hrun
      case isTrue hother =>
        cases hrun
        have hleaf := (leaf_eq_some hkept.inv.root_eq hplace).mpr ⟨rfl, hother.1⟩
        rw [hkept.leaf] at hleaf
        exact ⟨hkept, .taken hleaf hother.2⟩
      case isFalse => cases (Prod.mk.inj hrun).1

theorem mapPage_allocs (hc : Fresh c root) (h : Inv c root pt)
    {r : Option Errno} (hcov : Covers c (iova / d8Granule))
    (hrun : mapPage c pt iova pa prot = (r, pt')) :
    pt.allocs ≤ pt'.allocs := by
  have hlev := hcov.levels
  unfold mapPage at hrun
  rw [h.root_eq] at hrun
  cases hdesc : descend c iova (c.walkLevels - 1) 1 root pt with
  | mk found pt₁ =>
    rw [hdesc] at hrun
    obtain ⟨-, hle, -⟩ := descend_spec hc h (Nat.le_refl 1) (by omega) (hcov.node_root _) hdesc
    cases found with
    | none =>
      obtain ⟨-, rfl⟩ := Prod.mk.inj hrun
      exact hle
    | some table =>
      simp only at hrun
      split at hrun <;> obtain ⟨-, rfl⟩ := Prod.mk.inj hrun <;> exact hle

/-- The outer loop stops at a page, after it has entered the pages below. -/
theorem mapPages_fails (hc : Fresh c root) {n j : Nat} (h : Inv c root pt)
    (hcov : ∀ i < j + n, Covers c (iova / d8Granule + i))
    (hrun : mapPages c iova pa prot n (j * d8Granule) pt = (some e, pt')) :
    ∃ p, j ≤ p ∧ p < j + n ∧ Enters c root
        (fun page => ∃ i, j ≤ i ∧ i < p ∧ page = iova / d8Granule + i) pt pt' ∧
      (∀ i, j ≤ i → i < p → leaf c pt' (iova / d8Granule + i) =
        some (dart8LeafPte ((pa + i * d8Granule) % 2 ^ 64) prot)) ∧
      Blocked c pt pt' (iova / d8Granule + p)
        (dart8LeafPte ((pa + p * d8Granule) % 2 ^ 64) prot) e := by
  induction n generalizing j pt with
  | zero => exact nomatch (Prod.mk.inj hrun).1
  | succ n ih =>
    rw [mapPages] at hrun
    have hfirst : (iova + j * d8Granule) / d8Granule =
        iova / d8Granule + j := Nat.add_mul_div_right _ _ (by decide)
    have hcovj : Covers c ((iova + j * d8Granule) / d8Granule) := by
      rw [hfirst]
      exact hcov j (by omega)
    cases hpage : mapPage c pt (iova + j * d8Granule)
        ((pa + j * d8Granule) % 2 ^ 64) prot with
    | mk r pt₁ =>
      rw [hpage] at hrun
      cases r with
      | some e' =>
        cases hrun
        obtain ⟨hkept, hblocked⟩ := mapPage_fails hc h hcovj hpage
        rw [hfirst] at hblocked
        exact ⟨j, Nat.le_refl j, by omega, hkept.enters _,
          fun i hlo hhi => absurd hlo (by omega), hblocked⟩
      | none =>
        obtain ⟨hone, hleaf⟩ := mapPage_spec hc h hcovj hpage
        have hmono := mapPage_allocs hc h hcovj hpage
        rw [hfirst] at hone hleaf
        rw [show j * d8Granule + d8Granule = (j + 1) * d8Granule by
          rw [Nat.succ_mul]] at hrun
        obtain ⟨p, hlo, hhi, hrest, hall, hblocked⟩ := ih hone.inv
          (fun i hi => hcov i (by omega)) hrun
        refine ⟨p, by omega, by omega, ?_, ?_, ?_⟩
        · refine (hone.mono ?_).trans (hrest.mono ?_)
          · rintro page rfl
            exact ⟨j, Nat.le_refl j, by omega, rfl⟩
          · rintro page ⟨i, hi, hip, rfl⟩
            exact ⟨i, by omega, hip, rfl⟩
        · intro i hji hip
          obtain rfl | hlt := Nat.eq_or_lt_of_le hji
          · exact hrest.keep (hleaf rfl)
          · exact hall i hlt hip
        · have hframe : leaf c pt₁ (iova / d8Granule + p) =
              leaf c pt (iova / d8Granule + p) := hone.frame (by omega)
          cases hblocked with
          | taken hpte hne => exact .taken (hframe.symm.trans hpte) hne
          | noMemory hnone halloc =>
            obtain ⟨m, hm, hlt, hzero⟩ := halloc
            exact .noMemory (hframe.symm.trans hnone) ⟨m, Nat.le_trans hmono hm, hlt, hzero⟩

/-! ## The call -/

/-- The entry that page `i` of the range of a call asks for. -/
def Call.want (a : Call) (i : Nat) : Nat :=
  dart8LeafPte ((a.pa.toNat + i * d8Granule) % 2 ^ 64)
    (a.prot.toNat &&& protMask)

/-- A call that fails is refused, or it stops at a page of its range. -/
theorem dart8Map_stops (hc : Fresh c root) (h : Inv c root pt)
    (hfit : c.vmBase.toNat + c.vmSize.toNat < 2 ^ 64)
    (hcov : ∀ {iova}, InWindow c iova → Covers c (iova / d8Granule)) {a : Call}
    (hrun : dart8Map c pt a = (some e, pt')) :
    (e = .EINVAL ∨ e = .ERANGE) ∧ pt' = pt ∨
    a.iova.toNat % d8Granule = 0 ∧ a.pa.toNat % d8Granule = 0 ∧
    ∃ p < a.size.toNat / d8Granule,
      Enters c root (fun page => ∃ i < p, page = a.iova.toNat / d8Granule + i) pt pt' ∧
      (∀ i < p, leaf c pt' (a.iova.toNat / d8Granule + i) = some (a.want i)) ∧
      Blocked c pt pt' (a.iova.toNat / d8Granule + p) (a.want p) e := by
  obtain ⟨e', hrefused, herr⟩ | ⟨hiova, hpa, hsize, hwin, heq⟩ := dart8Map_cases c pt a hfit
  · obtain ⟨⟨⟩, rfl⟩ := Prod.mk.inj (herr.symm.trans hrun)
    exact .inl ⟨hrefused, rfl⟩
  · have hloop : mapPages c a.iova.toNat a.pa.toNat
        (a.prot.toNat &&& protMask) (a.size.toNat / d8Granule)
        (0 * d8Granule) pt = (some e, pt') := by
      rw [Nat.zero_mul]
      exact heq.symm.trans hrun
    obtain ⟨p, -, hp, henters, hall, hblocked⟩ := mapPages_fails hc h
      (covers_range hiova hsize hwin hcov) hloop
    refine .inr ⟨hiova, hpa, p, by omega, henters.mono ?_,
      fun i hi => hall i (Nat.zero_le i) hi, hblocked⟩
    rintro page ⟨i, -, hi, rfl⟩
    exact ⟨i, hi, rfl⟩

/-- The address of a page that has the entry asked for goes to the low 42 bits
of its target. -/
theorem dart8Translate_want (h : Inv c root pt) {a : Call} {i : Nat}
    (hcov : Covers c (iova / d8Granule)) (hiova : a.iova.toNat % d8Granule = 0)
    (hpa : a.pa.toNat % d8Granule = 0)
    (hpage : iova / d8Granule = a.iova.toNat / d8Granule + i)
    (hleaf : leaf c pt (iova / d8Granule) = some (a.want i)) (write : Bool) :
    dart8Translate c pt iova write =
      granted ((a.pa.toNat + (iova - a.iova.toNat)) % 2 ^ 42) a.prot.toNat write := by
  rw [Call.want, ← dart8LeafPte_mod] at hleaf
  rw [dart8Translate_leafPte h hcov (by rw [d8Granule] at hpa ⊢; omega)
    (Nat.mod_lt _ (by decide)) hleaf write]
  congr 1
  rw [d8Granule] at hiova hpa hpage ⊢
  omega

/-- After any run of `dart8_map` calls, a further call that fails.  The
translations of the mapped pages stay, and pages without an entry fault.  A
refused call changes nothing.  Otherwise the call has stopped at page `p` of its
range, and the pages that are new are below it and lead to the low 42 bits of
their targets. -/
theorem dart8Map_fails {vmBase vmSize : UInt64}
    {alloc : Option (Nat → Nat)} {hasFree : Bool} {pt₀ : Pt}
    {calls : List Call}
    (hcfg : dart8CfgInit vmBase vmSize alloc hasFree = .ok c)
    (hc : Fresh c root) (hinit : (mapSystem c root).init pt₀)
    (hrun : (mapSystem c root).run pt₀ calls = some pt)
    {a : Call} {e : Errno} (hfail : dart8Map c pt a = (some e, pt')) :
    (∀ iova, Mapped c pt (c.dva iova) → ∀ write,
      dart8Translate c pt' iova write = dart8Translate c pt iova write) ∧
    (∀ iova, ¬ Mapped c pt' (c.dva iova) → Faults c pt' iova) ∧
    ((e = .EINVAL ∨ e = .ERANGE) ∧ pt' = pt ∨ ∃ p < a.size.toNat / d8Granule,
        Blocked c pt pt' (a.iova.toNat / d8Granule + p) (a.want p) e ∧
        ∀ iova, ¬ Mapped c pt (c.dva iova) → Mapped c pt' (c.dva iova) →
          ∃ k < p * d8Granule, c.dva iova = a.iova.toNat + k ∧
            ∀ write, dart8Translate c pt' iova write =
              granted ((a.pa.toNat + k) % 2 ^ 42) a.prot.toNat write) := by
  obtain ⟨hlev, -, -⟩ := dart8CfgInit_ok hcfg
  have hpast := run_enters hc (dart8CfgInit_fit hcfg)
    (dart8CfgInit_covers hcfg) (inv_of_init hinit) hrun
  have h := hpast.inv
  have hstops := dart8Map_stops hc h (dart8CfgInit_fit hcfg) (dart8CfgInit_covers hcfg) hfail
  have henters : ∃ S, Enters c root S pt pt' := by
    obtain ⟨-, rfl⟩ | ⟨-, -, p, -, henters, -⟩ := hstops
    · exact ⟨fun _ => False, h, id, fun _ => rfl⟩
    · exact ⟨_, henters⟩
  obtain ⟨S, henters⟩ := henters
  have hcov := Cfg.dva_covers (c := c) (show 1 ≤ c.walkLevels by omega)
  refine ⟨?_, ?_, ?_⟩
  · intro iova hmapped write
    obtain ⟨pte, hpte⟩ := Option.isSome_iff_exists.mp hmapped
    rw [← dart8Translate_dva (by omega) iova write,
      ← dart8Translate_dva (by omega) iova write,
      dart8Translate_some henters.inv (hcov iova) write (henters.keep hpte),
      dart8Translate_some h (hcov iova) write hpte]
  · intro iova hnot write
    obtain ⟨l, hl, hle, hfault⟩ := dart8Translate_none henters.inv (hcov iova)
      write (Option.not_isSome_iff_eq_none.mp hnot)
    rw [dart8Translate_dva (by omega)] at hfault
    exact ⟨l, hl, hle, hfault⟩
  · refine hstops.imp_right ?_
    rintro ⟨hiova, hpa, p, hp, hbelow, hall, hblocked⟩
    refine ⟨p, hp, hblocked, ?_⟩
    intro iova hold hnew
    have hin : ∃ i < p, c.dva iova / d8Granule = a.iova.toNat / d8Granule + i := by
      by_contra hout
      rw [Mapped, hbelow.frame hout] at hnew
      exact hold hnew
    obtain ⟨i, hi, hpage⟩ := hin
    have hleaf := hall i hi
    rw [← hpage] at hleaf
    refine ⟨c.dva iova - a.iova.toNat, ?_, ?_, ?_⟩
    · rw [d8Granule] at hiova hpage ⊢
      omega
    · rw [d8Granule] at hiova hpage
      omega
    · intro write
      rw [← dart8Translate_dva (by omega) iova write]
      exact dart8Translate_want hbelow.inv (hcov iova) hiova hpa hpage hleaf write

/-- One page at `0x8000`. -/
def onePage : Call where
  iova := 0x8000
  pa := 0x200000
  size := 0x4000
  prot := 0

/-- `fourPages` with `onePage` mapped. -/
def onePt : Pt := (dart8Map fourPages emptyPt onePage).2

/-- The second page of `twoPages` is in the way. -/
theorem dart8Map_fails_twoPages :
    dart8Translate fourPages (dart8Map fourPages onePt twoPages).2 0x8007 false = .ok 0x200007 ∧
      dart8Translate fourPages (dart8Map fourPages onePt twoPages).2 0x4007 false = .ok 0x100007 ∧
      Faults fourPages (dart8Map fourPages onePt twoPages).2 0xC000 := by
  have herr : (dart8Map fourPages onePt twoPages).1 = some .EEXIST := by
    decide +kernel
  have hfail : dart8Map fourPages onePt twoPages =
      (some .EEXIST, (dart8Map fourPages onePt twoPages).2) := by
    rw [← herr]
  obtain ⟨hkept, hfault, hrest⟩ := dart8Map_fails
    (show dart8CfgInit 0 0x10000 (some fourPages.alloc) true = .ok fourPages
      from rfl)
    fourPages_fresh
    (show (mapSystem fourPages 0x4000).init emptyPt from
      ⟨rfl, by decide, fun _ => rfl, rfl⟩)
    (show (mapSystem fourPages 0x4000).run emptyPt [onePage] = some onePt
      from rfl) hfail
  have hold : Mapped fourPages onePt (fourPages.dva 0x8007) := by
    show (leaf fourPages onePt (fourPages.dva 0x8007 / d8Granule)).isSome =
      true
    decide +kernel
  have hbefore : ¬ Mapped fourPages onePt (fourPages.dva 0x4007) := by
    show ¬ (leaf fourPages onePt (fourPages.dva 0x4007 / d8Granule)).isSome =
      true
    decide +kernel
  have hafter : Mapped fourPages (dart8Map fourPages onePt twoPages).2 (fourPages.dva 0x4007) := by
    show (leaf fourPages (dart8Map fourPages onePt twoPages).2
      (fourPages.dva 0x4007 / d8Granule)).isSome = true
    decide +kernel
  have hnever : ¬ Mapped fourPages (dart8Map fourPages onePt twoPages).2
      (fourPages.dva 0xC000) := by
    show ¬ (leaf fourPages (dart8Map fourPages onePt twoPages).2
      (fourPages.dva 0xC000 / d8Granule)).isSome = true
    decide +kernel
  obtain ⟨hrefused, -⟩ | ⟨p, -, -, hgained⟩ := hrest
  · exact absurd hrefused (by decide)
  · obtain ⟨k, -, hk, hgranted⟩ := hgained 0x4007 hbefore hafter
    obtain rfl : k = 7 := by
      have hdva : fourPages.dva 0x4007 = 0x4007 := by decide +kernel
      have hiova : twoPages.iova.toNat = 0x4000 := rfl
      omega
    refine ⟨(hkept 0x8007 hold false).trans ?_, hgranted false, hfault 0xC000 hnever⟩
    decide +kernel

/-- Two pages whose output address has a bit above the 42 of an entry. -/
def farPages : Call where
  iova := 0x4000
  pa := 0x40000000000
  size := 0x8000
  prot := 0

/-- The first page is gained, and it leads to address 0. -/
theorem far_target : (dart8Map fourPages onePt farPages).1 = some .EEXIST ∧
      ¬ Mapped fourPages onePt 0x4000 ∧ farPages.Contains 0x4000 ∧
      dart8Translate fourPages (dart8Map fourPages onePt farPages).2 0x4000
        false = .ok 0 ∧ farPages.pa.toNat = 2 ^ 42 := by
  refine ⟨by decide +kernel, ?_, ⟨by decide, by decide⟩, by decide +kernel, rfl⟩
  show ¬ (leaf fourPages onePt (0x4000 / d8Granule)).isSome = true
  decide +kernel

end OmarchyAne.Dart
