import OmarchyAne.M1.Ownership

/-!
# The two ways to map the pages of an object

`ane_iommu_map_batch` maps the whole object in one call, and
`ane_iommu_map_each` maps it page by page.  Each of them heals the entries
that are in the way and takes back what it mapped when it fails
(`PathSpec`).  Without a failure of the IOMMU they leave the same page table.

Neither looks at an entry before a map runs into it.  A call that fails early
leaves the stray entries behind it, also one that translates to a page of the
object (`stray_survives`).  And `iommu_iova_to_phys` has the value 0 for an
entry that translates to the physical address 0, so such an entry is not
healed (`zero_entry_stays`).
-/

namespace OmarchyAne.M1

open Lib Domain List

variable {d : Domain}

/-- No call of the environment fails. -/
structure MapEnv.Calm (env : MapEnv) : Prop where
  table : env.noTable = false
  first : env.first = none
  second : env.second = none
  full : env.short = false
  each : ∀ i, env.fails i = false
  again : ∀ i, env.again i = false

/-! ## What a page table has -/

namespace Domain

/-- Every entry of the first table is in the second. -/
def Within (d d' : Domain) : Prop := ∀ y p, d y = some p → d' y = some p

theorem unmap_mem {addrs : List Nat} {y : Nat} (h : y ∈ addrs) : d.unmap addrs y = none := if_pos h

theorem unmap_within (d : Domain) (addrs : List Nat) : (d.unmap addrs).Within d := by
  intro y p h
  by_cases hy : y ∈ addrs
  · rw [unmap_mem hy] at h
    cases h
  · rwa [unmap_other hy] at h

end Domain

/-- The entries of a range that the clearing does not see are those that
translate to 0. -/
theorem clearRange_left {addrs : List Nat} {x : Nat} (hx : x ∈ addrs) :
    d.unmap (clearRange d addrs) x = none ∨ d x = some 0 := by
  by_cases hseen : d.toPhys x = 0
  · cases hentry : d x with
    | none =>
      left
      by_contra hsome
      obtain ⟨p, hp⟩ := Option.ne_none_iff_exists'.mp hsome
      rw [unmap_within _ _ _ _ hp] at hentry
      cases hentry
    | some p =>
      rw [toPhys, hentry] at hseen
      exact .inr (congrArg some hseen)
  · exact .inl (unmap_mem
      (mem_filter.mpr ⟨hx, by simpa using hseen⟩))

/-! ## A call that fails -/

/-- The entries that a failed map leaves were there before. -/
theorem mapEachFrom_left {env : MapEnv} {range : List (Nat × Phys)} {i : Nat}
    {done : List Nat} {d₀ : Domain} {cleared : List Nat}
    (hdone : ∀ y, y ∉ done → ∀ p, d y = some p → d₀ y = some p) :
    (mapEachFrom env i range done d cleared).ok = false →
      (mapEachFrom env i range done d cleared).domain.Within d₀ := by
  induction range generalizing i done d cleared with
  | nil => simp [mapEachFrom]
  | cons xp rest ih =>
    obtain ⟨x, q⟩ := xp
    -- The pages of `done` are all that the table has and `d₀` has not.
    have hrollback : ∀ d' : Domain, d'.Within d → (d'.unmap done).Within d₀ := by
      intro d' hle y p hsome
      have hnot : y ∉ done := by
        intro hmem
        rw [unmap_mem hmem] at hsome
        cases hsome
      exact hdone y hnot p (hle y p (unmap_within _ _ y p hsome))
    have hmapped : ∀ d' : Domain, d'.Within d →
        ∀ y, y ∉ x :: done → ∀ p, d'.map x q y = some p → d₀ y = some p := by
      intro d' hle y hnot p hsome
      rw [mem_cons, not_or] at hnot
      rw [map_other hnot.1] at hsome
      exact hdone y hnot.2 p (hle y p hsome)
    have hself : d.Within d := fun _ _ h => h
    rw [mapEachFrom]
    split
    · exact fun _ => hrollback d hself
    split
    · split
      · exact fun _ => hrollback d hself
      split
      · exact fun _ => hrollback _ (unmap_within d [x])
      · exact ih (hmapped _ (unmap_within d [x]))
    · exact ih (hmapped d hself)

section Paths

variable [PageShift] {x : Nat} {range : List (Nat × Phys)} {i : Nat} {d : Domain} {env : MapEnv}
  {iova : Nat} {pages : List Phys}

/-- What a failed batch leaves in the range was there before, but for pages at
the physical address 0: those are invisible to the clearing of a short map. -/
theorem mapBatch_left (env : MapEnv) (d : Domain) (iova : Nat)
    (pages : List Phys) (h : (mapBatch env d iova pages).ok = false)
    (hx : x ∈ spanAddrs iova pages.length) {p : Phys} (hp : p ≠ 0)
    (hentry : (mapBatch env d iova pages).domain x = some p) :
    d x = some p := by
  have hshort : ∀ d' : Domain,
      d'.unmap (clearRange d' (spanAddrs iova pages.length)) x ≠ some p := by
    intro d' hsome
    obtain hnone | hzero := clearRange_left (d := d') hx
    · rw [hnone] at hsome
      cases hsome
    · have hfound := unmap_within _ _ _ _ hsome
      rw [hzero] at hfound
      exact hp (Option.some.inj hfound).symm
  revert h hentry
  simp only [mapBatch]
  split
  · exact fun _ h => h
  split
  · split
    · exact fun _ h => absurd h (hshort _)
    · nofun
  · exact fun _ h => h
  · split
    · exact fun _ h => h
    split
    · split
      · exact fun _ h => absurd h (hshort _)
      · nofun
    · exact fun _ h => unmap_within _ _ _ _ h

/-! ## A call that meets no failure -/

omit [PageShift] in
theorem fst_ne_of_mem {rest : List (Nat × Phys)} (hx : x ∉ rest.map (·.1))
    {yq : Nat × Phys} (hyq : yq ∈ rest) :
    yq.1 ≠ x := by
  rintro rfl
  exact hx (mem_map_of_mem hyq)

omit [PageShift] in
theorem mapSg_calm (hnodup : (range.map (·.1)).Nodup) (hfree : ∀ xp ∈ range, d xp.1 = none) :
    ∃ d', mapSg none i range d = .ok d' := by
  induction range generalizing i d with
  | nil => exact ⟨d, rfl⟩
  | cons xp rest ih =>
    obtain ⟨x, p⟩ := xp
    rw [map_cons, nodup_cons] at hnodup
    have hx : d x = none := hfree (x, p) mem_cons_self
    rw [mapSg, if_neg (by simp), if_neg (by simp [hx])]
    refine ih hnodup.2 fun yq hyq => ?_
    rw [map_other (fst_ne_of_mem hnodup.1 hyq)]
    exact hfree yq (mem_cons_of_mem _ hyq)

omit [PageShift] in
theorem mapSg_not_other : mapSg none i range d ≠ .error .other := by
  induction range generalizing i d with
  | nil => intro h; cases h
  | cons xp rest ih =>
    obtain ⟨x, p⟩ := xp
    rw [mapSg, if_neg (by simp)]
    split
    · intro h; cases h
    · exact ih

omit [PageShift] in
theorem mapEachFrom_calm (henv : env.Calm) {done : List Nat}
    {cleared : List Nat} (hnodup : (range.map (·.1)).Nodup)
    (hzero : ∀ xp ∈ range, d xp.1 ≠ some 0) :
    (mapEachFrom env i range done d cleared).ok = true := by
  induction range generalizing i done d cleared with
  | nil => rfl
  | cons xp rest ih =>
    obtain ⟨x, p⟩ := xp
    rw [map_cons, nodup_cons] at hnodup
    -- The entries of the pages to come stay as they are.
    have hrest : ∀ d' : Domain, (∀ y, y ≠ x → d' y = d y) → ∀ yq ∈ rest, d' yq.1 ≠ some 0 := by
      intro d' hsame yq hyq
      rw [hsame _ (fst_ne_of_mem hnodup.1 hyq)]
      exact hzero yq (mem_cons_of_mem _ hyq)
    rw [mapEachFrom, if_neg (by simp [henv.each])]
    split
    · next hsome =>
      have hseen : d.toPhys x ≠ 0 := by
        obtain ⟨q, hq⟩ := Option.isSome_iff_exists.mp hsome
        intro heq
        rw [toPhys, hq] at heq
        exact hzero (x, p) mem_cons_self (hq.trans (congrArg some heq))
      rw [if_neg hseen, if_neg (by simp [henv.again])]
      refine ih hnodup.2 (hrest _ fun y hy => ?_)
      rw [map_other hy, unmap_other (by simpa using hy)]
    · exact ih hnodup.2 (hrest _ fun y hy => map_other hy)

theorem mapBatch_calm (henv : env.Calm) (hzero : ∀ x ∈ spanAddrs iova pages.length, d x ≠ some 0) :
    (mapBatch env d iova pages).ok = true := by
  have hkeys := zip_fst (spanAddrs_length iova pages.length)
  have hnodup := spanAddrs_nodup iova pages.length
  rw [← hkeys] at hnodup
  -- After a clearing of the range every page of it is free.
  obtain ⟨d₂, hd₂⟩ := mapSg_calm (i := 0)
    (d := d.unmap (clearRange d (spanAddrs iova pages.length))) hnodup
    fun xp hxp => by
      have hx : xp.1 ∈ spanAddrs iova pages.length := hkeys ▸ mem_map_of_mem hxp
      exact (clearRange_left hx).resolve_right (hzero _ hx)
  simp only [mapBatch, henv.table, henv.first, henv.second, henv.full,
    Bool.false_eq_true, if_false, hd₂]
  split
  · rfl
  · next h => exact absurd h mapSg_not_other
  · next h =>
    split
    · next hnone =>
      -- A range without strays is free from the start.
      rw [hnone] at hd₂
      have hsame : d.unmap [] = d := funext fun y =>
        unmap_other not_mem_nil
      rw [hsame, h] at hd₂
      cases hd₂
    · rfl

/-! ## Both paths -/

/-- What a caller of a map path may rely on. -/
structure PathSpec (d : Domain) (iova : Nat) (pages : List Phys)
    (r : MapResult) : Prop where
  /-- Page `i` is at its own offset. -/
  mapped : r.ok = true → ∀ i (hi : i < pages.length),
    r.domain (iova + i * pageSize) = some pages[i]
  /-- A failure leaves nothing that was not there before. -/
  left : r.ok = false → ∀ x ∈ spanAddrs iova pages.length, ∀ p ≠ 0,
    r.domain x = some p → d x = some p

theorem MapSpec.mapped_at {r : MapResult}
    (h : MapSpec d (spanAddrs iova pages.length) pages r) (hok : r.ok = true)
    (i : Nat) (hi : i < pages.length) :
    r.domain (iova + i * pageSize) = some pages[i] := by
  refine h.mapped hok (iova + i * pageSize, pages[i]) (mem_iff_getElem.mpr ⟨i, ?_, ?_⟩)
  · simpa [spanAddrs] using hi
  · simp [spanAddrs]

/-- Both paths map each page at its own offset or leave nothing new behind,
and without a failure they leave the same page table. -/
theorem map_paths_agree {pages : List Phys}
    (hsize : pages.length * pageSize < 2 ^ 32) (d : Domain) (iova : Nat) :
    (∀ env, PathSpec d iova pages (mapBatch env d iova pages)) ∧
      (∀ env, PathSpec d iova pages (mapEach env d iova pages)) ∧
      ((∀ x ∈ spanAddrs iova pages.length, d x ≠ some 0) →
        ∀ env : MapEnv, env.Calm → (mapBatch env d iova pages).ok = true ∧
          (mapEach env d iova pages).ok = true ∧
          (mapBatch env d iova pages).domain = (mapEach env d iova pages).domain) := by
  have hbatch := fun env => mapBatch_spec env d iova pages
  have heach := fun env => mapEach_spec env d iova hsize
  refine ⟨fun env => ⟨(hbatch env).mapped_at, fun hfail x hx p hp =>
    mapBatch_left env d iova pages hfail hx hp⟩,
    fun env => ⟨(heach env).mapped_at, fun hfail x _ p _ =>
      mapEachFrom_left (fun y _ p h => h) hfail x p⟩, ?_⟩
  intro hzero env henv
  have hokBatch := mapBatch_calm henv hzero
  have hokEach : (mapEach env d iova pages).ok = true := by
    have hkeys := zip_fst (spanAddrs_length iova pages.length)
    have hnodup := spanAddrs_nodup iova pages.length
    rw [← hkeys] at hnodup
    rw [mapEach, eachAddrs_eq hsize]
    refine mapEachFrom_calm henv hnodup fun xp hxp => ?_
    exact hzero _ (hkeys ▸ mem_map_of_mem hxp)
  refine ⟨hokBatch, hokEach, funext fun y => ?_⟩
  by_cases hy : y ∈ spanAddrs iova pages.length
  · obtain ⟨i, hi, rfl⟩ := mem_spanAddrs.mp hy
    rw [(hbatch env).mapped_at hokBatch i hi, (heach env).mapped_at hokEach i hi]
  · rw [(hbatch env).frame y hy, (heach env).frame y hy]

end Paths

/-! ## Two pages of 16 KiB -/

section TwoPages

local instance pathPages : PageShift := page16K

/-- The pages of an object at `0x4000`. -/
def twoPages : List Phys := [0x800000000, 0x800004000]

/-- A stray entry behind the first page that translates to it. -/
def strayTail : Domain := fun x => if x = 0x8000 then some 0x800000000 else none

def noFailure : MapEnv :=
  ⟨true, false, none, none, false, fun _ => false, fun _ => false⟩

/-- The IOMMU has no memory for the first page. -/
def failsFirst : MapEnv :=
  { noFailure with first := some 0, fails := fun i => i == 0 }

/-- Without a failure both paths heal the entry. -/
theorem map_paths_agree_twoPages :
    (mapBatch noFailure strayTail 0x4000 twoPages).domain 0x8000 = some 0x800004000 ∧
      (mapBatch noFailure strayTail 0x4000 twoPages).domain =
        (mapEach noFailure strayTail 0x4000 twoPages).domain := by
  obtain ⟨hbatch, _, hsame⟩ := @map_paths_agree _ twoPages
    (by decide +kernel) strayTail 0x4000
  obtain ⟨hok, _, heq⟩ := hsame (by decide +kernel) noFailure
    ⟨rfl, rfl, rfl, rfl, fun _ => rfl, fun _ => rfl⟩
  exact ⟨(hbatch noFailure).mapped hok 1 (by decide), heq⟩

/-- Both paths fail at the first page, and the entry behind it still
translates to a page of the object. -/
theorem stray_survives : (mapBatch failsFirst strayTail 0x4000 twoPages).ok = false ∧
      (mapEach failsFirst strayTail 0x4000 twoPages).ok = false ∧
      0x8000 ∈ spanAddrs 0x4000 twoPages.length ∧
      0x800000000 ∈ twoPages ∧
      (mapBatch failsFirst strayTail 0x4000 twoPages).domain 0x8000 = some 0x800000000 ∧
      (mapEach failsFirst strayTail 0x4000 twoPages).domain 0x8000 = some 0x800000000 := by
  decide +kernel

/-- A stray entry that translates to 0. -/
def zeroTail : Domain := fun x => if x = 0x8000 then some 0 else none

def mapsShort : MapEnv := { noFailure with short := true }

/-- Both paths fail at the entry although no call of theirs does.  And after a
map that came back short, the batch leaves a page at 0 mapped. -/
theorem zero_entry_stays : (mapBatch noFailure zeroTail 0x4000 twoPages).ok = false ∧
      (mapEach noFailure zeroTail 0x4000 twoPages).ok = false ∧
      (mapBatch mapsShort (fun _ => none) 0x4000 [0, 0x800000000]).ok = false ∧
      (mapBatch mapsShort (fun _ => none) 0x4000 [0, 0x800000000]).domain 0x4000 = some 0 := by
  decide +kernel

end TwoPages

end OmarchyAne.M1
