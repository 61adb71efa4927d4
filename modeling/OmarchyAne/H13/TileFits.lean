import OmarchyAne.H13.Bind
import OmarchyAne.H13.Tile

/-!
# What `tile_fits` lets through (src/libane/ane.c, ane_bind.h)

Before a transfer `tile_fits` compares the span of the geometry of a channel
with the bytes that are mapped.  The span is computed in `uint64_t`, without
overflow checks, and is 0 where a dimension is 0.  The geometry is what the
header of the program says.

`Fits` is what a geometry has to meet beyond that.  The copies of a geometry
that `tile_fits` does not refuse stay inside their buffers exactly if it is met
(`tileFits_safe_iff`).
-/

namespace OmarchyAne.H13

open Lib AneSession

/-- `anec->nchw[bdx]`. -/
def Anec.geom (anec : Anec) (channel : Nat) : Geom where
  n := anec.nchw channel 0
  c := anec.nchw channel 1
  h := anec.nchw channel 2
  w := anec.nchw channel 3
  plane := anec.nchw channel 4
  row := anec.nchw channel 5

namespace Geom

variable (g : Geom)

/-- A dimension is 0. -/
def empty : Prop := g.n = 0 ∨ g.c = 0 ∨ g.h = 0 ∨ g.w = 0

instance : Decidable g.empty :=
  inferInstanceAs (Decidable (g.n = 0 ∨ g.c = 0 ∨ g.h = 0 ∨ g.w = 0))

/-- The end of the last row, as `ane_bind_tile_span` computes it. -/
def last : UInt64 :=
  (((g.n - 1) * g.c + (g.c - 1)) * g.newH * g.newW + (g.h - 1) * g.newW + g.w) *
    2

/-- `ane_bind_tile_span`.  Nothing is a division by zero. -/
def tileSpan : Option UInt64 :=
  if g.empty then some 0
  else if g.row < g.w * 2 then some (.ofNat (2 ^ 64 - 1))
  else if g.row = 0 then none
  else some (if g.n * g.c * g.plane < g.last then g.last else g.n * g.c * g.plane)

end Geom

/-- `tile_fits`. -/
def tileFits (anec : Anec) (tileShift channel : Nat) : Option Bool :=
  (anec.geom channel).tileSpan.map fun span =>
    decide (span.toNat ≤ tileBytes anec tileShift channel)

/-! ## The bytes of a transfer -/

/-- A call stays inside its buffers.  A copy of no bytes touches none. -/
def Op.Inside (to_ from_ : Nat) : Op → Prop
  | .zero len => len.toNat ≤ to_
  | .copy dst src len => len.toNat ≠ 0 →
      dst.toNat + len.toNat ≤ to_ ∧ src.toNat + len.toNat ≤ from_

/-- There is no division by zero, and all calls stay inside. -/
def OpsInside (ops : Option (List Op)) (to_ from_ : Nat) : Prop :=
  ∃ calls, ops = some calls ∧ ∀ op ∈ calls, op.Inside to_ from_

/-- Both transfers stay inside a channel of `size` bytes and inside the tensor
of the caller. -/
structure TransferSafe (g : Geom) (size : Nat) : Prop where
  tile : OpsInside g.tileOps size (denseBytes g.shape)
  untile : OpsInside g.untileOps (denseBytes g.shape) size

/-- The offset of the last row in the channel, without wrapping. -/
def Geom.lastRow (g : Geom) : Nat :=
  2 * ((((g.n.toNat - 1) * g.c.toNat + (g.c.toNat - 1)) *
    (g.plane.toNat / g.row.toNat) + (g.h.toNat - 1)) * (g.row.toNat / 2))

/-- What a geometry has to meet. -/
structure Fits (g : Geom) (size : Nat) : Prop where
  row : g.row ≠ 0
  /-- With a dimension of 0 the planes are cleared nevertheless. -/
  planes : g.empty → g.planes % 2 ^ 64 ≤ size
  /-- Without padding the tensor holds all the planes. -/
  tensor : g.dense = true → g.planes % 2 ^ 64 ≤ denseBytes g.shape
  /-- The last row ends inside the channel. -/
  lastRow : ¬ g.dense = true → 0 < g.n.toNat → 0 < g.c.toNat → 0 < g.h.toNat →
    2 * g.w.toNat % 2 ^ 64 ≠ 0 →
    g.lastRow + 2 * g.w.toNat % 2 ^ 64 ≤ size

theorem Op.inside_start {len : UInt64} {a b : Nat} :
    (Op.copy 0 0 len).Inside a b ↔ len.toNat ≤ a ∧ len.toNat ≤ b := by
  simp only [Op.Inside, UInt64.toNat_zero, Nat.zero_add]
  omega

theorem opsInside_some {calls : List Op} {a b : Nat} :
    OpsInside (some calls) a b ↔ ∀ op ∈ calls, op.Inside a b := by
  constructor
  · rintro ⟨_, hcalls, hinside⟩
    cases hcalls
    exact hinside
  · intro hinside
    exact ⟨calls, rfl, hinside⟩

/-! ## Offsets that wrap -/

/-- Offsets that stay small after they wrapped did not wrap, where the steps
are small. -/
theorem no_wrap {a d m size : Nat} (hsize : size < 2 ^ 63) (ha : a ≤ size)
    (hd : 1 < m → d ≤ size) (h : ∀ i < m, (a + i * d) % 2 ^ 64 ≤ size) :
    ∀ i < m, a + i * d ≤ size := by
  intro i
  induction i with
  | zero =>
    intro _
    omega
  | succ i ih =>
    intro hi
    have hprev := ih (by omega)
    have hstep := hd (by omega)
    have hmod := h (i + 1) hi
    rw [Nat.add_mul, Nat.one_mul] at hmod ⊢
    rwa [Nat.mod_eq_of_lt (by omega)] at hmod

section Rows

variable {n c h newH newW size : Nat}

/-- The same for the rows of a tensor. -/
theorem rows_no_wrap (hsize : size < 2 ^ 63) (hrow : 2 * newW < 2 ^ 64)
    (hplane : 2 * (newH * newW) < 2 ^ 64) (hn : 0 < n) (hc : 0 < c) (hh : 0 < h)
    (hall : ∀ i < n, ∀ j < c, ∀ k < h, 2 * (((i * c + j) * newH + k) * newW) % 2 ^ 64 ≤ size) :
    2 * ((((n - 1) * c + (c - 1)) * newH + (h - 1)) * newW) ≤ size := by
  have hsum : ∀ i j k, 2 * (((i * c + j) * newH + k) * newW) =
      k * (2 * newW) + j * (2 * (newH * newW)) +
        i * (c * (2 * (newH * newW))) := by
    intro i j k
    ring
  simp only [hsum] at hall ⊢
  obtain ⟨s, hs⟩ : ∃ s, 2 * newW = s := ⟨_, rfl⟩
  obtain ⟨b, hb⟩ : ∃ b, 2 * (newH * newW) = b := ⟨_, rfl⟩
  rw [hs] at hall hrow ⊢
  rw [hb] at hall hplane ⊢
  -- The steps between rows, planes and batches are offsets of rows themselves.
  have hstep : 1 < h → s ≤ size := by
    intro hlt
    have hmod := hall 0 hn 0 hc 1 hlt
    rwa [Nat.zero_mul, Nat.zero_mul, Nat.one_mul, Nat.add_zero, Nat.mod_eq_of_lt hrow] at hmod
  have hstep' : 1 < c → b ≤ size := by
    intro hlt
    have hmod := hall 0 hn 1 hlt 0 hh
    rwa [Nat.zero_mul, Nat.zero_mul, Nat.one_mul, Nat.zero_add, Nat.add_zero,
      Nat.mod_eq_of_lt hplane] at hmod
  have hrows : ∀ k < h, 0 + k * s ≤ size := by
    apply no_wrap hsize (Nat.zero_le _) hstep
    intro k hk
    simpa using hall 0 hn 0 hc k hk
  have hplanes : ∀ k < h, ∀ j < c, k * s + j * b ≤ size := by
    intro k hk
    apply no_wrap hsize (by simpa using hrows k hk) hstep'
    intro j hj
    simpa using hall 0 hn j hj k hk
  have hstep'' : 1 < n → c * b ≤ size := by
    intro hlt
    have hmod := hall 1 hlt 0 hc 0 hh
    have hsmall : c * b < 2 ^ 64 := by
      have hlast := hplanes 0 hh (c - 1) (by omega)
      obtain ⟨c', rfl⟩ : ∃ c', c = c' + 1 := ⟨c - 1, by omega⟩
      rw [Nat.add_sub_cancel, Nat.zero_mul, Nat.zero_add] at hlast
      rw [Nat.add_mul, Nat.one_mul]
      rcases Nat.eq_zero_or_pos c' with hzero | hpos
      · rw [hzero, Nat.zero_mul, Nat.zero_add]
        exact hplane
      · have hb' := hstep' (by omega)
        omega
    rwa [Nat.zero_mul, Nat.zero_mul, Nat.one_mul, Nat.zero_add, Nat.mod_eq_of_lt hsmall] at hmod
  have hbatches := no_wrap hsize (hplanes (h - 1) (by omega) (c - 1) (by omega))
    hstep'' (fun i hi => hall i hi (c - 1) (by omega) (h - 1) (by omega))
  exact hbatches (n - 1) (by omega)

theorem rows_le_last {i j k : Nat} (hi : i < n) (hj : j < c) (hk : k < h) :
    2 * (((i * c + j) * newH + k) * newW) ≤
      2 * ((((n - 1) * c + (c - 1)) * newH + (h - 1)) * newW) := by
  have hline : i * c ≤ (n - 1) * c := Nat.mul_le_mul_right c (by omega)
  have hrow : (i * c + j) * newH ≤ ((n - 1) * c + (c - 1)) * newH :=
    Nat.mul_le_mul_right newH (by omega)
  apply Nat.mul_le_mul_left
  apply Nat.mul_le_mul_right
  omega

end Rows

/-! ## The two transfers -/

section Transfers

variable {g : Geom} {size : Nat}

/-- Without padding each transfer is one copy. -/
theorem transferSafe_dense (hrow : g.row ≠ 0) (hdense : g.dense = true) : TransferSafe g size ↔
      (g.planes % 2 ^ 64 ≤ size ∧ g.planes % 2 ^ 64 ≤ denseBytes g.shape) ∧
        denseBytes g.shape % 2 ^ 64 ≤ size := by
  have hmod := Nat.mod_le (denseBytes g.shape) (2 ^ 64)
  have htile : OpsInside g.tileOps size (denseBytes g.shape) ↔
      g.planes % 2 ^ 64 ≤ size ∧ g.planes % 2 ^ 64 ≤ denseBytes g.shape := by
    rw [Geom.tileOps, if_neg hrow, if_pos hdense, opsInside_some,
      List.forall_mem_singleton, Op.inside_start, g.planes_toNat]
    rfl
  have huntile : OpsInside g.untileOps (denseBytes g.shape) size ↔
      denseBytes g.shape % 2 ^ 64 ≤ size := by
    rw [Geom.untileOps, if_neg hrow, if_pos hdense, opsInside_some,
      List.forall_mem_singleton, Op.inside_start, g.elements_toNat]
    exact and_iff_right hmod
  constructor
  · intro hsafe
    exact ⟨htile.1 hsafe.tile, huntile.1 hsafe.untile⟩
  · intro hbounds
    exact ⟨htile.2 hbounds.1, huntile.2 hbounds.2⟩

/-- A row in the tensor of the caller is always inside. -/
theorem dataRow_inside {r : Nat × Nat × Nat} (hr : r ∈ loopRows g.shape) :
    (g.dataRow r).toNat + g.stride.toNat ≤ denseBytes g.shape := by
  have hend := denseRow_end hr
  have hrow := Nat.mod_le (2 * g.shape.w * denseRow g.shape r) (2 ^ 64)
  have hlen := Nat.mod_le (2 * g.shape.w) (2 ^ 64)
  rw [g.dataRow_toNat, g.stride_toNat]
  omega

/-- With padding the planes are cleared and the rows are copied. -/
theorem transferSafe_padded (hrow : g.row ≠ 0) (hdense : ¬ g.dense = true) :
    TransferSafe g size ↔ g.planes % 2 ^ 64 ≤ size ∧ ∀ r ∈ loopRows g.shape, g.stride.toNat ≠ 0 →
          (g.tileRow r).toNat + g.stride.toNat ≤ size := by
  have htile : OpsInside g.tileOps size (denseBytes g.shape) ↔ g.planes % 2 ^ 64 ≤ size ∧
        ∀ r ∈ loopRows g.shape, g.stride.toNat ≠ 0 →
          (g.tileRow r).toNat + g.stride.toNat ≤ size := by
    rw [Geom.tileOps, if_neg hrow, if_neg hdense, opsInside_some,
      List.forall_mem_cons, List.forall_mem_map, Op.Inside, g.planes_toNat]
    apply and_congr Iff.rfl
    apply forall₂_congr
    intro r hr
    exact imp_congr Iff.rfl (and_iff_left (dataRow_inside hr))
  constructor
  · intro hsafe
    exact htile.1 hsafe.tile
  · intro hbounds
    refine ⟨htile.2 hbounds, ?_⟩
    rw [Geom.untileOps, if_neg hrow, if_neg hdense, opsInside_some,
      List.forall_mem_cons, List.forall_mem_map, Op.Inside, g.elements_toNat]
    refine ⟨Nat.mod_le _ _, ?_⟩
    intro r hr hlen
    exact ⟨dataRow_inside hr, hbounds.2 r hr hlen⟩

/-- The rows are inside if the last one is. -/
theorem tileRows_inside_iff (hsize : size < 2 ^ 63) :
    (∀ r ∈ loopRows g.shape, g.stride.toNat ≠ 0 → (g.tileRow r).toNat + g.stride.toNat ≤ size) ↔
      (0 < g.n.toNat → 0 < g.c.toNat → 0 < g.h.toNat → 2 * g.w.toNat % 2 ^ 64 ≠ 0 →
        g.lastRow + 2 * g.w.toNat % 2 ^ 64 ≤ size) := by
  have hstride : g.stride.toNat = 2 * g.w.toNat % 2 ^ 64 := g.stride_toNat
  have hlast : g.lastRow = 2 * ((((g.n.toNat - 1) * g.c.toNat +
      (g.c.toNat - 1)) * g.newH.toNat + (g.h.toNat - 1)) * g.newW.toNat) := by
    rw [Geom.lastRow, g.newH_toNat, g.newW_toNat]
  rw [hstride]
  constructor
  · intro hall hn hc hh hlen
    have hrow : 2 * g.newW.toNat ≤ g.row.toNat := by
      rw [g.newW_toNat]
      omega
    have hplane : 2 * (g.newH.toNat * g.newW.toNat) ≤ g.plane.toNat := by
      calc 2 * (g.newH.toNat * g.newW.toNat) = g.newH.toNat * (2 * g.newW.toNat) := by ring
        _ ≤ g.newH.toNat * g.row.toNat := Nat.mul_le_mul_left _ hrow
        _ ≤ g.plane.toNat := by
          rw [g.newH_toNat]
          exact Nat.div_mul_le_self _ _
    have hfits : ∀ i < g.n.toNat, ∀ j < g.c.toNat, ∀ k < g.h.toNat,
        2 * (((i * g.c.toNat + j) * g.newH.toNat + k) * g.newW.toNat) % 2 ^ 64 ≤
          size - 2 * g.w.toNat % 2 ^ 64 := by
      intro i hi j hj k hk
      have hone := hall (i, j, k) (mem_loopRows.2 ⟨hi, hj, hk⟩) hlen
      rw [g.tileRow_toNat] at hone
      simp only [Geom.shape] at hone
      omega
    have hfirst := hall (0, 0, 0) (mem_loopRows.2 ⟨hn, hc, hh⟩) hlen
    have hend := rows_no_wrap (by omega) (Nat.lt_of_le_of_lt hrow g.row.toNat_lt)
      (Nat.lt_of_le_of_lt hplane g.plane.toNat_lt) hn hc hh hfits
    rw [← hlast] at hend
    omega
  · intro hend r hr hlen
    obtain ⟨hi, hj, hk⟩ := mem_loopRows.1 hr
    have hle := hend (Nat.zero_lt_of_lt hi) (Nat.zero_lt_of_lt hj) (Nat.zero_lt_of_lt hk) hlen
    have hrow : 2 * (((r.1 * g.shape.c + r.2.1) * g.newH.toNat + r.2.2) *
        g.newW.toNat) ≤ g.lastRow := by
      rw [hlast]
      exact rows_le_last hi hj hk
    have hmod := (Nat.mod_le _ (2 ^ 64)).trans hrow
    rw [g.tileRow_toNat]
    omega

/-- What is not refused, with no dimension of 0. -/
theorem le_of_tileSpan (hsize : size < 2 ^ 64 - 1) (hempty : ¬ g.empty) (hrow : g.row ≠ 0)
    (hspan : g.tileSpan.map (fun span => decide (span.toNat ≤ size)) ≠ some false) :
    g.planes % 2 ^ 64 ≤ size ∧ g.last.toNat ≤ size := by
  rw [Geom.tileSpan, if_neg hempty] at hspan
  have hplanes : (g.n * g.c * g.plane).toNat = g.planes % 2 ^ 64 := g.planes_toNat
  by_cases hwide : g.row < g.w * 2
  · rw [if_pos hwide, Option.map_some] at hspan
    refine absurd (congrArg some (decide_eq_false ?_)) hspan
    rw [UInt64.toNat_ofNat']
    omega
  · rw [if_neg hwide, if_neg hrow, Option.map_some] at hspan
    have hle : (if g.n * g.c * g.plane < g.last then g.last
        else g.n * g.c * g.plane).toNat ≤ size := by
      by_contra hgt
      exact hspan (congrArg some (decide_eq_false hgt))
    rw [← hplanes]
    by_cases hlt : g.n * g.c * g.plane < g.last
    · rw [if_pos hlt] at hle
      rw [UInt64.lt_iff_toNat_lt] at hlt
      omega
    · rw [if_neg hlt] at hle
      rw [UInt64.lt_iff_toNat_lt] at hlt
      omega

/-- Without padding the last row ends where the tensor does. -/
theorem last_dense (hdense : g.dense = true) : g.last.toNat = denseBytes g.shape % 2 ^ 64 := by
  rw [Geom.dense, Bool.and_eq_true, beq_iff_eq, beq_iff_eq] at hdense
  rw [← g.elements_toNat, Geom.last, hdense.1, hdense.2]
  congr 1
  grind

theorem denseBytes_empty (hempty : g.empty) : denseBytes g.shape = 0 := by
  simp only [denseBytes, Geom.shape]
  rcases hempty with hzero | hzero | hzero | hzero <;> simp [hzero]

/-- What `tile_fits` does not refuse is safe if the geometry meets `Fits`. -/
theorem safe_iff_fits (hsize : size < 2 ^ 63)
    (hspan : g.tileSpan.map (fun span => decide (span.toNat ≤ size)) ≠ some false) :
    TransferSafe g size ↔ Fits g size := by
  by_cases hrow : g.row = 0
  · constructor
    · intro hsafe
      obtain ⟨_, hops, -⟩ := hsafe.tile
      rw [Geom.tileOps, if_pos hrow] at hops
      cases hops
    · intro hfits
      exact absurd hrow hfits.row
  · have hle : ¬ g.empty → g.planes % 2 ^ 64 ≤ size ∧ g.last.toNat ≤ size :=
      fun hempty => le_of_tileSpan (by omega) hempty hrow hspan
    by_cases hdense : g.dense = true
    · rw [transferSafe_dense hrow hdense]
      constructor
      · rintro ⟨⟨hplanes, htensor⟩, -⟩
        exact ⟨hrow, fun _ => hplanes, fun _ => htensor, fun hnot => absurd hdense hnot⟩
      · intro hfits
        refine ⟨⟨?_, hfits.tensor hdense⟩, ?_⟩
        · by_cases hempty : g.empty
          · exact hfits.planes hempty
          · exact (hle hempty).1
        · by_cases hempty : g.empty
          · rw [denseBytes_empty hempty]
            exact Nat.zero_le _
          · rw [← last_dense hdense]
            exact (hle hempty).2
    · rw [transferSafe_padded hrow hdense, tileRows_inside_iff hsize]
      constructor
      · rintro ⟨hplanes, hlast⟩
        exact ⟨hrow, fun _ => hplanes, fun hyes => absurd hyes hdense, fun _ => hlast⟩
      · intro hfits
        refine ⟨?_, hfits.lastRow hdense⟩
        by_cases hempty : g.empty
        · exact hfits.planes hempty
        · exact (hle hempty).1

end Transfers

/-- A channel is smaller than `2 ^ 52` bytes. -/
theorem tileBytes_lt (anec : Anec) {tileShift : Nat} (hshift : tileShift ≤ 20)
    (channel : Nat) : tileBytes anec tileShift channel < 2 ^ 52 := by
  have htiles : anec.tile channel < 2 ^ 32 := (anec.tiles channel).toNat_lt
  have hpow : 2 ^ tileShift ≤ 2 ^ 20 := Nat.pow_le_pow_right (by decide) hshift
  have hmul : anec.tile channel * 2 ^ tileShift < 2 ^ 32 * 2 ^ 20 :=
    Nat.mul_lt_mul_of_lt_of_le htiles hpow (by decide)
  rw [tileBytes, Nat.shiftLeft_eq]
  exact Nat.lt_of_le_of_lt (Nat.mod_le _ _) hmul

/-- For a geometry that `tile_fits` does not refuse, no byte outside the channel
or the tensor is touched and nothing is divided by zero, exactly if the geometry
meets `Fits`. -/
theorem tileFits_safe_iff (anec : Anec) {tileShift : Nat} (hshift : tileShift ≤ 20) (channel : Nat)
    (hfits : tileFits anec tileShift channel ≠ some false) :
    TransferSafe (anec.geom channel) (tileBytes anec tileShift channel) ↔
      Fits (anec.geom channel) (tileBytes anec tileShift channel) := by
  have hsize := tileBytes_lt anec hshift channel
  exact safe_iff_fits (by omega) hfits

/-- A program whose channel 4 is one tile, with a geometry. -/
def oneTile (geometry : List UInt64) : Anec where
  size := 0
  tdSize := 0
  tdCount := 0
  srcCount := 0
  dstCount := 0
  tiles := fun channel => if channel = 4 then 1 else 0
  nchw := fun _ i => geometry.getD i 0

theorem tileFits_safe_full : tileFits (oneTile [1, 1, 256, 32, 0x4000, 0x40]) 14 4 = some true ∧
      TransferSafe ((oneTile [1, 1, 256, 32, 0x4000, 0x40]).geom 4) 0x4000 := by
  refine ⟨by decide, ?_⟩
  refine (@tileFits_safe_iff (oneTile [1, 1, 256, 32, 0x4000, 0x40]) 14
    (by decide) 4 (by decide)).2 ?_
  exact ⟨by decide, fun _ => by decide, fun _ => by decide,
    fun hnot => absurd (by decide) hnot⟩

/-- A height of 0 has the span 0, but the planes are cleared. -/
theorem zero_height_clears : tileFits (oneTile [1, 1, 0, 1, 0x8000, 2]) 14 4 = some true ∧
      ¬ TransferSafe ((oneTile [1, 1, 0, 1, 0x8000, 2]).geom 4)
        (tileBytes (oneTile [1, 1, 0, 1, 0x8000, 2]) 14 4) := by
  refine ⟨by decide, ?_⟩
  intro hsafe
  obtain ⟨calls, hcalls, hinside⟩ := hsafe.tile
  have hops : ((oneTile [1, 1, 0, 1, 0x8000, 2]).geom 4).tileOps = some [.zero 0x8000] := by decide
  obtain rfl := Option.some.inj (hops.symm.trans hcalls)
  have hzero := hinside _ List.mem_cons_self
  revert hzero
  simp only [Op.Inside]
  decide

end OmarchyAne.H13
