import OmarchyAne.Lib.Run
import OmarchyAne.M1.Iommu

/-!
# The ranges of the live buffer objects

`MapSpec` says what a map call of either kind does to the page table: it
touches no address outside its pages, it clears only such addresses, and when
it succeeds each page is where it belongs.  As long as the reservation has the
size of the mapping (`sizeFits`), these pages are inside the new node, and no
live object has an address there.  `Inv` is the invariant that follows, and
`ranges_owned` says it of every run.

A size whose page count does not fit reserves less than it maps.  The map then
runs into the objects behind its node, and the clearing takes their entries
for stray ones (`clears_live_page`).
-/

namespace OmarchyAne.M1

open Lib List

/-! ## One map call -/

/-- What a map of `pages` at `addrs` does to the page table. -/
structure MapSpec (d : Domain) (addrs : List Nat) (pages : List Phys)
    (r : MapResult) : Prop where
  frame : ∀ y, y ∉ addrs → r.domain y = d y
  cleared : ∀ x ∈ r.cleared, x ∈ addrs
  mapped : r.ok = true → ∀ xp ∈ addrs.zip pages, r.domain xp.1 = some xp.2

theorem Domain.map_other {d : Domain} {x y : Nat} {p : Phys} (h : y ≠ x) :
    d.map x p y = d y := if_neg h

theorem Domain.unmap_other {d : Domain} {addrs : List Nat} {y : Nat}
    (h : y ∉ addrs) : d.unmap addrs y = d y := if_neg h

theorem mapSg_spec {fail : Option Nat} {range : List (Nat × Phys)} {i : Nat}
    {d d' : Domain} (hnodup : (range.map (·.1)).Nodup)
    (h : mapSg fail i range d = .ok d') :
    (∀ y, y ∉ range.map (·.1) → d' y = d y) ∧ ∀ xp ∈ range, d' xp.1 = some xp.2 := by
  induction range generalizing i d with
  | nil =>
    cases h
    simp
  | cons xp rest ih =>
    obtain ⟨x, p⟩ := xp
    rw [map_cons, nodup_cons] at hnodup
    rw [mapSg] at h
    split at h
    · cases h
    split at h
    · cases h
    obtain ⟨hframe, hmapped⟩ := ih hnodup.2 h
    constructor
    · intro y hy
      rw [map_cons, mem_cons, not_or] at hy
      rw [hframe y hy.2, Domain.map_other hy.1]
    · intro yq hyq
      obtain rfl | hyq := mem_cons.mp hyq
      · rw [hframe x hnodup.1]
        exact if_pos rfl
      · exact hmapped yq hyq

theorem mapEachFrom_spec {env : MapEnv} {range : List (Nat × Phys)} {i : Nat}
    {done : List Nat} {d : Domain} {cleared : List Nat}
    (hnodup : (range.map (·.1)).Nodup) :
    let r := mapEachFrom env i range done d cleared
    (∀ y, y ∉ range.map (·.1) → y ∉ done → r.domain y = d y) ∧
      (∀ x ∈ r.cleared, x ∈ range.map (·.1) ∨ x ∈ cleared) ∧
      (r.ok = true → (∀ y, y ∉ range.map (·.1) → r.domain y = d y) ∧
        ∀ xp ∈ range, r.domain xp.1 = some xp.2) := by
  induction range generalizing i done d cleared with
  | nil => simp [mapEachFrom]
  | cons xp rest ih =>
    obtain ⟨x, p⟩ := xp
    rw [map_cons, nodup_cons] at hnodup
    -- The step to the next page, from a table that has page `x` mapped.
    have hnext : ∀ (d' : Domain) (cleared' : List Nat), d' x = some p → (∀ y, y ≠ x → d' y = d y) →
        (∀ y ∈ cleared', y = x ∨ y ∈ cleared) →
        let r := mapEachFrom env (i + 1) rest (x :: done) d' cleared'
        (∀ y, y ∉ (x, p).1 :: rest.map (·.1) → y ∉ done → r.domain y = d y) ∧
          (∀ y ∈ r.cleared, y ∈ (x, p).1 :: rest.map (·.1) ∨ y ∈ cleared) ∧
          (r.ok = true → (∀ y, y ∉ (x, p).1 :: rest.map (·.1) → r.domain y = d y) ∧
              ∀ yq ∈ (x, p) :: rest, r.domain yq.1 = some yq.2) := by
      intro d' cleared' hx hd' hcleared'
      obtain ⟨hframe, hclear, hok⟩ := @ih (i + 1) (x :: done) d' cleared' hnodup.2
      refine ⟨?_, ?_, ?_⟩
      · intro y hy hdone
        rw [mem_cons, not_or] at hy
        rw [hframe y hy.2 (by simp [hy.1, hdone]), hd' y hy.1]
      · intro y hy
        obtain hy | hy := hclear y hy
        · exact .inl (mem_cons_of_mem _ hy)
        · obtain rfl | hy := hcleared' y hy
          · exact .inl mem_cons_self
          · exact .inr hy
      · intro h
        obtain ⟨hframe, hmapped⟩ := hok h
        constructor
        · intro y hy
          rw [mem_cons, not_or] at hy
          rw [hframe y hy.2, hd' y hy.1]
        · intro yq hyq
          obtain rfl | hyq := mem_cons.mp hyq
          · rw [hframe x hnodup.1, hx]
          · exact hmapped yq hyq
    rw [mapEachFrom, map_cons]
    split
    · exact ⟨fun y _ hy => Domain.unmap_other hy, fun y hy => .inr hy, by simp⟩
    split
    · split
      · exact ⟨fun y _ hy => Domain.unmap_other hy, fun y hy => .inr hy,
          by simp⟩
      split
      · refine ⟨fun y hy hdone => ?_, fun y hy => ?_, by simp⟩
        · rw [mem_cons, not_or] at hy
          show (d.unmap [x]).unmap done y = d y
          rw [Domain.unmap_other hdone, Domain.unmap_other (by simpa using hy.1)]
        · obtain rfl | hy := mem_cons.mp hy
          · exact .inl mem_cons_self
          · exact .inr hy
      · refine hnext _ _ (if_pos rfl) (fun y hy => ?_) (by simp)
        rw [Domain.map_other hy, Domain.unmap_other (by simpa using hy)]
    · exact hnext _ _ (if_pos rfl) (fun y hy => Domain.map_other hy)
        (fun y hy => .inr hy)

theorem zip_fst {addrs : List Nat} {pages : List Phys}
    (h : addrs.length = pages.length) : (addrs.zip pages).map (·.1) = addrs :=
  map_fst_zip (by omega)

section Calls

variable [PageShift]

theorem pageSize_pos : 0 < pageSize := Nat.two_pow_pos _

theorem mem_spanAddrs {iova x : Nat} {n : Nat} :
    x ∈ spanAddrs iova n ↔ ∃ i < n, x = iova + i * pageSize := by
  simp [spanAddrs, eq_comm]

theorem spanAddrs_nodup (iova : Nat) (n : Nat) : (spanAddrs iova n).Nodup := by
  refine List.Pairwise.map _ (fun i j hne h => ?_) nodup_range
  exact hne (Nat.eq_of_mul_eq_mul_right pageSize_pos (Nat.add_left_cancel h))

theorem spanAddrs_length (iova : Nat) (n : Nat) : (spanAddrs iova n).length = n := by
  simp [spanAddrs]

theorem mapBatch_spec (env : MapEnv) (d : Domain) (iova : Nat) (pages : List Phys) :
    MapSpec d (spanAddrs iova pages.length) pages (mapBatch env d iova pages) := by
  have hlength := spanAddrs_length iova pages.length
  have hnodup := spanAddrs_nodup iova pages.length
  unfold mapBatch
  dsimp only
  generalize spanAddrs iova pages.length = addrs at hlength hnodup ⊢
  rw [← zip_fst hlength] at hnodup
  -- A map that succeeds on a table which agrees with `d` outside the range.
  have hfinish : ∀ (d₁ d' : Domain) (fail : Option Nat) (cleared : List Nat),
      (∀ y, y ∉ addrs → d₁ y = d y) → (∀ x ∈ cleared, x ∈ addrs) →
      mapSg fail 0 (addrs.zip pages) d₁ = .ok d' →
      MapSpec d addrs pages
        (if env.short then ⟨false, d'.unmap (clearRange d' addrs), cleared ++ clearRange d' addrs⟩
        else ⟨true, d', cleared⟩) := by
    intro d₁ d' fail cleared hd₁ hcleared h
    obtain ⟨hframe, hmapped⟩ := mapSg_spec hnodup h
    rw [zip_fst hlength] at hframe
    have hshort : ∀ x ∈ clearRange d' addrs, x ∈ addrs :=
      fun x hx => (mem_filter.mp hx).1
    split
    · refine ⟨fun y hy => ?_, fun x hx => ?_, by simp⟩
      · show d'.unmap (clearRange d' addrs) y = d y
        rw [Domain.unmap_other fun hin => hy (hshort y hin), hframe y hy, hd₁ y hy]
      · obtain hx | hx := mem_append.mp hx
        · exact hcleared x hx
        · exact hshort x hx
    · exact ⟨fun y hy => (hframe y hy).trans (hd₁ y hy), hcleared, fun _ => hmapped⟩
  have hsame : MapSpec d addrs pages ⟨false, d, []⟩ := ⟨fun _ _ => rfl, by simp, by simp⟩
  have hstray : ∀ x ∈ clearRange d addrs, x ∈ addrs :=
    fun x hx => (mem_filter.mp hx).1
  have hunmap : ∀ y, y ∉ addrs → d.unmap (clearRange d addrs) y = d y :=
    fun y hy => Domain.unmap_other fun hin => hy (hstray y hin)
  split
  · exact hsame
  split
  · next d' h => exact hfinish d d' _ [] (fun _ _ => rfl) (by simp) h
  · exact hsame
  · split
    · exact hsame
    split
    · next d' h => exact hfinish _ d' _ _ hunmap hstray h
    · exact ⟨hunmap, hstray, by simp⟩

/-- The loop over the pages writes the same addresses as long as its shift
does not wrap. -/
theorem eachAddrs_eq {iova : Nat} {n : Nat} (h : n * pageSize < 2 ^ 32) :
    eachAddrs iova n = spanAddrs iova n := by
  refine map_congr_left fun i hi => ?_
  have hle := Nat.mul_le_mul_right pageSize (mem_range.mp hi).le
  rw [Nat.mod_eq_of_lt (Nat.lt_of_le_of_lt hle h)]

theorem mapEach_spec (env : MapEnv) (d : Domain) (iova : Nat)
    {pages : List Phys} (h : pages.length * pageSize < 2 ^ 32) :
    MapSpec d (spanAddrs iova pages.length) pages (mapEach env d iova pages) := by
  have hkeys := zip_fst (spanAddrs_length iova pages.length)
  have hnodup := spanAddrs_nodup iova pages.length
  rw [← hkeys] at hnodup
  obtain ⟨hframe, hclear, hok⟩ := @mapEachFrom_spec env _ 0 [] d [] hnodup
  rw [hkeys] at hframe hclear
  rw [mapEach, eachAddrs_eq h]
  exact ⟨fun y hy => hframe y hy not_mem_nil,
    fun x hx => (hclear x hx).resolve_right not_mem_nil,
    fun h => (hok h).2⟩

/-! ## The invariant -/

/-- The live objects have ranges of their own, and their pages are mapped. -/
structure Inv (m : Mem) : Prop where
  inWindow : ∀ b ∈ m.bos, m.lo ≤ b.mm.start ∧ b.mm.start + b.mm.size ≤ m.hi
  apart : m.bos.Pairwise fun a b => a.mm.Disjoint b.mm
  span : ∀ b ∈ m.bos, b.addrs = spanAddrs b.iova b.npages ∧
    b.mm.size = b.npages * pageSize
  mapped : ∀ b ∈ m.bos, ∀ xp ∈ b.addrs.zip b.pages,
    m.domain xp.1 = some xp.2
  victims : m.victims = []

/-- A page of a range lies inside its node. -/
theorem span_inside {start n : Nat} {x : Nat} (hx : x ∈ spanAddrs start n) :
    start ≤ x ∧ x + pageSize ≤ start + n * pageSize := by
  obtain ⟨i, hi, rfl⟩ := mem_spanAddrs.mp hx
  have hle := Nat.mul_le_mul_right pageSize (Nat.succ_le_of_lt hi)
  rw [Nat.succ_mul] at hle
  omega

/-- Pages of disjoint nodes do not overlap. -/
theorem span_apart {a b : Node} {n k : Nat} {x y : Nat}
    (h : a.Disjoint b) (hn : a.size = n * pageSize) (hk : b.size = k * pageSize)
    (hx : x ∈ spanAddrs a.start n) (hy : y ∈ spanAddrs b.start k) :
    x + pageSize ≤ y ∨ y + pageSize ≤ x := by
  have hxin := span_inside hx
  have hyin := span_inside hy
  rw [Node.Disjoint, hn, hk] at h
  omega

theorem not_mem_span {a b : Node} {n k : Nat} {x : Nat} (h : a.Disjoint b)
    (hn : a.size = n * pageSize) (hk : b.size = k * pageSize)
    (hx : x ∈ spanAddrs a.start n) : x ∉ spanAddrs b.start k := by
  intro hy
  have := span_apart h hn hk hx hy
  have := pageSize_pos
  omega

/-- A map into the pages of a node that fits touches no live object. -/
theorem Inv.mapped_other {m : Mem} {start : Nat} {pages : List Phys} {r : MapResult} (h : Inv m)
    (hfits : m.Fits ⟨start, pages.length * pageSize⟩)
    (hspec : MapSpec m.domain (spanAddrs start pages.length) pages r) :
    (∀ b ∈ m.bos, ∀ xp ∈ b.addrs.zip b.pages, r.domain xp.1 = some xp.2) ∧
      m.owned r.cleared = [] := by
  have hother : ∀ b ∈ m.bos, ∀ x ∈ b.addrs, x ∉ spanAddrs start pages.length := by
    intro b hb x hx hin
    obtain ⟨haddrs, hsize⟩ := h.span b hb
    rw [haddrs] at hx
    refine not_mem_span (hfits.2.2.2.2 b.mm ?_) rfl hsize hin hx
    exact mem_append_left _ (mem_map_of_mem hb)
  constructor
  · intro b hb xp hxp
    rw [hspec.frame _ (hother b hb _ (of_mem_zip hxp).1)]
    exact h.mapped b hb xp hxp
  · rw [Mem.owned, filter_eq_nil_iff]
    intro x hx
    simp only [any_eq_true, decide_eq_true_eq, not_exists, not_and]
    exact fun b hb hin => hother b hb x hin (hspec.cleared x hx)

theorem Inv.mapPages {m : Mem} {env : MapEnv} {start : Nat} {pages : List Phys} (h : Inv m)
    (hsize : pages.length * pageSize < 2 ^ 32 ∨ reserveSize pages.length = 0) :
    Inv (m.mapPages env start pages).2 ∧ ∀ b, (m.mapPages env start pages).1 = some b →
        (m.mapPages env start pages).2.bos = m.bos ++ [b] := by
  unfold Mem.mapPages
  dsimp only
  split
  · next hfits =>
    -- A reservation of size 0 does not fit.
    have hlt : pages.length * pageSize < 2 ^ 32 := by
      refine hsize.resolve_right fun hzero => ?_
      have := hfits.1
      simp only [hzero] at this
      omega
    rw [reserveSize, Nat.mod_eq_of_lt hlt] at hfits ⊢
    have haddrs : (if env.batch then spanAddrs start pages.length
        else eachAddrs start pages.length) = spanAddrs start pages.length := by
      rw [eachAddrs_eq hlt, ite_self]
    have hspec : MapSpec m.domain (spanAddrs start pages.length) pages
        (if env.batch then mapBatch env m.domain start pages
        else mapEach env m.domain start pages) := by
      split
      · exact mapBatch_spec env m.domain start pages
      · exact mapEach_spec env m.domain start hlt
    rw [haddrs]
    generalize (if env.batch then mapBatch env m.domain start pages
        else mapEach env m.domain start pages) = r at hspec ⊢
    obtain ⟨hkept, howned⟩ := h.mapped_other hfits hspec
    have hvictims : m.victims ++ m.owned r.cleared = [] := by
      rw [h.victims, howned, append_nil]
    split
    · next hok =>
      refine ⟨⟨?_, ?_, ?_, ?_, hvictims⟩, ?_⟩
      · rw [forall_mem_append]
        refine ⟨h.inWindow, ?_⟩
        simpa using ⟨hfits.2.2.1, hfits.2.2.2.1⟩
      · rw [pairwise_append]
        refine ⟨h.apart, pairwise_singleton _ _, ?_⟩
        intro a ha b hb
        obtain rfl := mem_singleton.mp hb
        have := hfits.2.2.2.2 a.mm (mem_append_left _ (mem_map_of_mem ha))
        exact this.symm
      · rw [forall_mem_append]
        refine ⟨h.span, ?_⟩
        simp [Bo.iova, Bo.npages]
      · rw [forall_mem_append]
        refine ⟨hkept, ?_⟩
        simpa using hspec.mapped hok
      · rintro b hb
        cases hb
        rfl
    · exact ⟨⟨h.inWindow, h.apart, h.span, hkept, hvictims⟩, by simp⟩
  · exact ⟨h, by simp⟩

theorem Inv.free {m : Mem} (h : Inv m) (i : Nat) : Inv (m.free i) := by
  unfold Mem.free
  split
  · exact h
  · next b hb =>
    have hsub : (m.bos.eraseIdx i).Sublist m.bos := eraseIdx_sublist _ _
    have hmem := hsub.subset
    obtain ⟨-, hsize⟩ := h.span b (mem_of_getElem? hb)
    refine ⟨fun c hc => h.inWindow c (hmem hc), h.apart.sublist hsub,
      fun c hc => h.span c (hmem hc), fun c hc xp hxp => ?_, h.victims⟩
    obtain ⟨haddrs, hcsize⟩ := h.span c (hmem hc)
    have hapart : c.mm.Disjoint b.mm := by
      obtain ⟨j, hne, hj⟩ := mem_eraseIdx_iff_getElem?.mp hc
      obtain ⟨hjlt, rfl⟩ := List.getElem?_eq_some_iff.mp hj
      obtain ⟨hilt, rfl⟩ := List.getElem?_eq_some_iff.mp hb
      have hpair := pairwise_iff_getElem.mp h.apart
      rcases Nat.lt_or_gt_of_ne hne with hlt | hlt
      · exact hpair j i hjlt hilt hlt
      · exact (hpair i j hilt hjlt hlt).symm
    have hx : xp.1 ∉ spanAddrs b.iova b.npages := by
      have hin := (of_mem_zip hxp).1
      rw [haddrs] at hin
      exact not_mem_span hapart hcsize hsize hin
    show m.domain.unmap _ xp.1 = some xp.2
    rw [Domain.unmap_other hx]
    exact h.mapped c (hmem hc) xp hxp

/-! ## Runs -/

inductive BoAct where
  | init (size : Nat) (env : Mem.InitEnv)
  | free (i : Nat)

/-- The buffer calls on an engine that is not wedged.  The page table starts
with any entries. -/
def boSystem : System Mem BoAct where
  init m := m.bos = [] ∧ m.held = [] ∧ m.victims = []
  step m
    | .init size env => if size < 2 ^ 64 then some (m.boInit size env) else none
    | .free i => if i < m.bos.length then some (m.free i) else none

/-- The condition on a call: the node has the size of the mapping, or it has
size 0 and is refused. -/
def sizeFits (_ : Mem) : BoAct → Bool
  | .init size _ =>
    npagesOf size * pageSize < 2 ^ 32 || reserveSize (npagesOf size) = 0
  | .free _ => true

theorem Inv.boInit {m : Mem} {size : Nat} {env : Mem.InitEnv} (h : Inv m)
    (hsize : npagesOf size * pageSize < 2 ^ 32 ∨
      reserveSize (npagesOf size) = 0) : Inv (m.boInit size env) := by
  have hpages : ((List.range (npagesOf size)).map env.phys).length = npagesOf size := by simp
  rw [← hpages] at hsize
  have hmap := @Inv.mapPages _ m env.map env.start _ h hsize
  unfold Mem.boInit
  split
  · exact h
  · dsimp only
    generalize m.mapPages env.map env.start _ = result at hmap ⊢
    obtain ⟨bo, m'⟩ := result
    cases bo with
    | none => exact hmap.1
    | some b =>
      dsimp only
      split
      · exact hmap.1
      · exact hmap.1.free _

theorem Inv.step {m m' : Mem} {a : BoAct} (h : Inv m)
    (hstep : (boSystem.restrict sizeFits).step m a = some m') : Inv m' := by
  obtain ⟨hok, hstep⟩ := System.restrict_step hstep
  cases a with
  | init size env =>
    simp only [boSystem, Option.ite_none_right_eq_some, Option.some.injEq] at hstep
    obtain ⟨-, rfl⟩ := hstep
    simp only [sizeFits, Bool.or_eq_true, decide_eq_true_eq] at hok
    exact h.boInit hok
  | free i =>
    simp only [boSystem, Option.ite_none_right_eq_some, Option.some.injEq] at hstep
    obtain ⟨-, rfl⟩ := hstep
    exact h.free i

/-- What the driver owes its clients: the pages of the live objects do not
overlap, they lie in the window, they are mapped, and no clearing has unmapped
one. -/
def Owned (m : Mem) : Prop :=
  (m.bos.Pairwise fun a b => ∀ x ∈ a.addrs, ∀ y ∈ b.addrs, x + pageSize ≤ y ∨ y + pageSize ≤ x) ∧
  (∀ b ∈ m.bos, ∀ x ∈ b.addrs, m.lo ≤ x ∧ x + pageSize ≤ m.hi) ∧
  (∀ b ∈ m.bos, ∀ xp ∈ b.addrs.zip b.pages, m.domain xp.1 = some xp.2) ∧
  m.victims = []

theorem Inv.owned {m : Mem} (h : Inv m) : Owned m := by
  refine ⟨?_, ?_, h.mapped, h.victims⟩
  · refine h.apart.imp_of_mem ?_
    intro a b ha hb hapart x hx y hy
    obtain ⟨haddrs, hsize⟩ := h.span a ha
    obtain ⟨haddrs', hsize'⟩ := h.span b hb
    rw [haddrs] at hx
    rw [haddrs'] at hy
    exact span_apart hapart hsize hsize' hx hy
  · intro b hb x hx
    obtain ⟨haddrs, hsize⟩ := h.span b hb
    have hwindow := h.inWindow b hb
    rw [haddrs] at hx
    have hin := span_inside hx
    rw [hsize] at hwindow
    simp only [Bo.iova] at hin
    omega

/-- In every run of the buffer calls whose sizes fit, the live objects keep
their ranges. -/
theorem ranges_owned {m₀ m : Mem} {acts : List BoAct}
    (hinit : boSystem.init m₀) (hrun : boSystem.run m₀ acts = some m)
    (hmeet : boSystem.StepsMeet sizeFits m₀ acts) : Owned m := by
  have hstart : Inv m₀ := by
    obtain ⟨hbos, -, hvictims⟩ := hinit
    refine ⟨?_, ?_, ?_, ?_, hvictims⟩ <;> simp [hbos]
  have hres : (boSystem.restrict sizeFits).run m₀ acts = some m :=
    System.run_restrict_iff.mpr ⟨hrun, hmeet⟩
  have hinv : Inv m :=
    System.run_invariant (fun _ _ _ h hstep => Inv.step h hstep) hstart hres
  exact hinv.owned

/-- A map that runs into a live object behind its node clears it. -/
theorem clears_next {m : Mem} {size start n : Nat} {env : Mem.InitEnv} {b : Bo}
    (hsize : size ≠ 0) (henv : env.fails = false) (hstart : env.start = start)
    (hn : npagesOf size = n + 2) (hfits : m.Fits ⟨start, reserveSize (n + 2)⟩)
    (hbatch : env.map.batch = true) (htable : env.map.noTable = false)
    (hfirst : env.map.first = none) (hsecond : env.map.second = some 0)
    (hfree : m.domain start = none)
    (htaken : m.domain.toPhys (start + pageSize) ≠ 0) (hb : b ∈ m.bos)
    (hlive : start + pageSize ∈ b.addrs) :
    start + pageSize ∈ (m.boInit size env).victims ∧ (m.boInit size env).bos = m.bos ∧
      (m.boInit size env).domain (start + pageSize) = none := by
  have hpages : ((List.range (npagesOf size)).map env.phys).length = n + 2 := by
    simp [hn]
  have hrange : List.range (n + 2) = 0 :: 1 :: (List.range n).map (· + 2) := by
    rw [range_succ_eq_map, range_succ_eq_map]
    simp [Function.comp_def]
  -- The map stops at its second page.
  have hexist : mapSg none 0 ((spanAddrs start (n + 2)).zip
      ((List.range (n + 2)).map env.phys)) m.domain = .error .exist := by
    rw [spanAddrs, hrange]
    have hne : start + pageSize ≠ start := by
      have := pageSize_pos
      omega
    have hbusy : ((m.domain.map start (env.phys 0))
        (start + pageSize)).isSome = true := by
      rw [Domain.map_other hne]
      cases hentry : m.domain (start + pageSize) with
      | none => exact absurd (by rw [Domain.toPhys, hentry]; rfl) htaken
      | some p => rfl
    simp [mapSg, hfree, hbusy]
  have hin : start + pageSize ∈ clearRange m.domain (spanAddrs start (n + 2)) := by
    refine mem_filter.mpr ⟨mem_spanAddrs.mpr ⟨1, by omega, by simp⟩, ?_⟩
    simpa using htaken
  have hstrays : clearRange m.domain (spanAddrs start (n + 2)) ≠ [] := ne_nil_of_mem hin
  have hfail : ∀ d, mapSg (some 0) 0 ((spanAddrs start (n + 2)).zip
      ((List.range (n + 2)).map env.phys)) d = .error .other := by
    intro d
    rw [spanAddrs, hrange]
    simp [mapSg]
  have hmap : mapBatch env.map m.domain start ((List.range (n + 2)).map env.phys) =
      ⟨false, m.domain.unmap (clearRange m.domain (spanAddrs start (n + 2))),
        clearRange m.domain (spanAddrs start (n + 2))⟩ := by
    unfold mapBatch
    simp only [length_map, length_range, htable, hfirst, hsecond,
      hexist, hstrays, hfail, Bool.false_eq_true, if_false]
  have hinit : m.boInit size env = { m with
      domain := m.domain.unmap (clearRange m.domain (spanAddrs start (n + 2)))
      victims := m.victims ++
        m.owned (clearRange m.domain (spanAddrs start (n + 2))) } := by
    unfold Mem.boInit Mem.mapPages
    simp only [hsize, henv, hn, hstart, hbatch, hmap, hfits, length_map,
      length_range, Bool.false_eq_true, or_self, if_true, if_false]
  rw [hinit]
  refine ⟨mem_append_right _ ?_, rfl, if_pos hin⟩
  refine mem_filter.mpr ⟨hin, any_eq_true.mpr ⟨b, hb, ?_⟩⟩
  exact decide_eq_true hlive

end Calls

/-! ## Runs with pages of 16 KiB -/

section Runs

local instance windowPages : PageShift := page16K

/-- The window of the driver, with a stray entry in its first page. -/
def window : Mem where
  lo := 0x4000
  hi := 2 ^ 32
  domain := fun x => if x = 0x4000 then some 0x1000000 else none
  bos := []
  held := []
  victims := []

/-- A call that meets no failure. -/
def calm (start : Nat) (batch : Bool) : Mem.InitEnv where
  fails := false
  start := start
  phys i := 0x800000000 + i * 0x4000
  map := ⟨batch, false, none, none, false, fun _ => false, fun _ => false⟩
  handle := true

/-- Two objects are mapped, the first one over the stray entry. -/
theorem ranges_owned_stray : ∃ m, boSystem.run window
      [.init 0x4000 (calm 0x4000 true), .init 0x6000 (calm 0x8000 false)] = some m ∧
      m.bos.map (·.addrs) = [[0x4000], [0x8000, 0xc000]] ∧ Owned m := by
  have hmap : ((boSystem.restrict sizeFits).run window
      [.init 0x4000 (calm 0x4000 true), .init 0x6000 (calm 0x8000 false)]).map
        (fun m => m.bos.map (·.addrs)) =
      some [[0x4000], [0x8000, 0xc000]] := by decide +kernel
  obtain ⟨m, hrun, haddrs⟩ := Option.map_eq_some_iff.mp hmap
  obtain ⟨hrun, hmeet⟩ := System.run_restrict_iff.mp hrun
  exact ⟨m, hrun, haddrs, ranges_owned ⟨rfl, rfl, rfl⟩ hrun hmeet⟩

/-- The calls before: two objects of one page, of which the first goes. -/
def oneHole : List BoAct :=
  [.init 0x4000 (calm 0x4000 true), .init 0x4000 (calm 0x8000 true), .free 0]

/-- 4 GiB and one page, in the hole that is left: one page is reserved. -/
def oversized : Mem.InitEnv :=
  { calm 0x4000 true with
    map := ⟨true, false, none, some 0, false, fun _ => false, fun _ => false⟩ }

theorem clears_live_page : ∃ m m', boSystem.run window oneHole = some m ∧
      m.bos.map (·.addrs) = [[0x8000]] ∧ (m.domain 0x8000).isSome = true ∧
      boSystem.step m (.init 0x100004000 oversized) = some m' ∧
      m'.bos = m.bos ∧ m'.domain 0x8000 = none ∧ 0x8000 ∈ m'.victims := by
  have hmap : (boSystem.run window oneHole).map (fun m =>
      (m.bos, m.held, m.lo, m.hi)) =
      some ([⟨⟨0x8000, 0x4000⟩, [0x800000000], [0x8000]⟩], [], 0x4000,
        2 ^ 32) := by
    decide +kernel
  have hdomain : (boSystem.run window oneHole).map (fun m =>
      (m.domain 0x4000, m.domain 0x8000)) =
      some (none, some 0x800000000) := by
    decide +kernel
  obtain ⟨m, hrun, hm⟩ := Option.map_eq_some_iff.mp hmap
  rw [hrun] at hdomain
  simp only [Option.map_some, Option.some.injEq, Prod.mk.injEq] at hm hdomain
  obtain ⟨hbos, hheld, hlo, hhi⟩ := hm
  have hfits : m.Fits ⟨0x4000, reserveSize 262145⟩ := by
    refine ⟨by decide +kernel, by decide +kernel, by rw [hlo], ?_, ?_⟩
    · rw [hhi]
      decide +kernel
    · rw [Mem.nodes, hbos, hheld]
      decide +kernel
  have hpage : 0x4000 + pageSize = 0x8000 := by decide +kernel
  have hstep : boSystem.step m (.init 0x100004000 oversized) =
      some (m.boInit 0x100004000 oversized) := by simp [boSystem]
  have hclears := @clears_next _ m 0x100004000 0x4000 262143 oversized _
    (by decide) rfl rfl (by decide +kernel) hfits rfl rfl rfl rfl hdomain.1
    (by rw [hpage, Domain.toPhys, hdomain.2]; decide)
    (hbos ▸ mem_singleton_self _) (by decide +kernel)
  rw [hpage] at hclears
  obtain ⟨hvictims, hkept, hgone⟩ := hclears
  exact ⟨m, _, hrun, by rw [hbos]; rfl, by rw [hdomain.2]; rfl, hstep, hkept,
    hgone, hvictims⟩

end Runs

end OmarchyAne.M1
