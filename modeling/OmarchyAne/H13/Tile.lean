import Mathlib.Tactic.Ring
import OmarchyAne.AneSession.Carry

/-!
# Tiling a tensor (src/libane/ane.c)

`ane_tile` copies a dense fp16 tensor into a channel, row by row, and
`ane_untile` copies it back.  Row and plane strides are bytes, but the code
counts in elements: a row of the channel is `R / 2` elements and a plane is
`P / R` rows.  All of it is `uint64_t` arithmetic, which wraps.

Both functions are the list of the `memset` and `memcpy` calls that they make
(`tileOps`, `untileOps`).  There is none where the division `P / R` traps.

`tile_agrees` compares them with the packer of the tools, which works on byte
strides with checked arithmetic.
-/

namespace OmarchyAne.H13

open Lib AneSession

/-- The geometry of a channel, `nchw[bdx]`. -/
structure Geom where
  n : UInt64
  c : UInt64
  h : UInt64
  w : UInt64
  plane : UInt64
  row : UInt64
deriving DecidableEq, Repr

/-- A call of `memset(.., 0, len)` on the buffer that is written, or of
`memcpy`. -/
inductive Op where
  | zero (len : UInt64)
  | copy (dst src len : UInt64)
deriving DecidableEq, Repr

namespace Geom

variable (g : Geom)

def shape : Shape := ⟨g.n.toNat, g.c.toNat, g.h.toNat, g.w.toNat⟩

def newH : UInt64 := g.plane / g.row

def newW : UInt64 := g.row / 2

def stride : UInt64 := g.w * 2

def c0 : UInt64 := g.c * g.h * g.w

def c1 : UInt64 := g.c * g.newH * g.newW

def h0 : UInt64 := g.h * g.w

def h1 : UInt64 := g.newH * g.newW

/-- The offset of a row in the tensor of the caller. -/
def dataRow (r : Nat × Nat × Nat) : UInt64 :=
  (.ofNat r.1 * g.c0 + .ofNat r.2.1 * g.h0 + .ofNat r.2.2 * g.w) * 2

/-- The offset of a row in the channel. -/
def tileRow (r : Nat × Nat × Nat) : UInt64 :=
  (.ofNat r.1 * g.c1 + .ofNat r.2.1 * g.h1 + .ofNat r.2.2 * g.newW) * 2

/-- The channel has no padding. -/
def dense : Bool := g.newH == g.h && g.newW == g.w

/-- The calls of `ane_tile`. -/
def tileOps : Option (List Op) :=
  if g.row = 0 then none
  else if g.dense then some [.copy 0 0 (g.n * g.c * g.plane)]
  else some (.zero (g.n * g.c * g.plane) ::
    (loopRows g.shape).map fun r => .copy (g.tileRow r) (g.dataRow r) g.stride)

/-- The calls of `ane_untile`. -/
def untileOps : Option (List Op) :=
  if g.row = 0 then none
  else if g.dense then some [.copy 0 0 (g.n * g.c * g.h * g.w * 2)]
  else some (.zero (g.n * g.c * g.h * g.w * 2) ::
    (loopRows g.shape).map fun r => .copy (g.dataRow r) (g.tileRow r) g.stride)

end Geom

/-- The buffer that is written, after a call. -/
def Op.run (from_ to_ : Bytes) : Op → Bytes
  | .zero len => blit to_ 0 (List.replicate len.toNat 0)
  | .copy dst src len => blit to_ dst.toNat (slice from_ src.toNat len.toNat)

/-- `ane_tile`: the channel after it.  Nothing is a division by zero. -/
def aneTile (g : Geom) (data tile : Bytes) : Option Bytes :=
  g.tileOps.map (·.foldl (Op.run data) tile)

/-- `ane_untile`: the tensor of the caller after it. -/
def aneUntile (g : Geom) (data tile : Bytes) : Option Bytes :=
  g.untileOps.map (·.foldl (Op.run tile) data)

/-! ## The arithmetic -/

namespace Geom

variable (g : Geom)

theorem newH_toNat : g.newH.toNat = g.plane.toNat / g.row.toNat := UInt64.toNat_div ..

theorem newW_toNat : g.newW.toNat = g.row.toNat / 2 := UInt64.toNat_div ..

/-- A value that wraps, from the value in the natural numbers. -/
theorem toNat_of_eq_ofNat {x : UInt64} {n : Nat} (h : x = UInt64.ofNat n) :
    x.toNat = n % 2 ^ 64 := by
  rw [h, UInt64.toNat_ofNat']

theorem stride_toNat : g.stride.toNat = 2 * g.shape.w % 2 ^ 64 := by
  apply toNat_of_eq_ofNat
  rw [shape, UInt64.ofNat_mul, UInt64.ofNat_toNat, stride, UInt64.mul_comm]
  rfl

theorem dataRow_toNat (r : Nat × Nat × Nat) :
    (g.dataRow r).toNat = 2 * g.shape.w * denseRow g.shape r % 2 ^ 64 := by
  apply toNat_of_eq_ofNat
  simp only [shape, denseRow, UInt64.ofNat_mul, UInt64.ofNat_add,
    UInt64.ofNat_toNat, dataRow, c0, h0]
  change _ = (2 : UInt64) * _ * _
  grind

theorem tileRow_toNat (r : Nat × Nat × Nat) : (g.tileRow r).toNat =
      2 * (((r.1 * g.shape.c + r.2.1) * g.newH.toNat + r.2.2) * g.newW.toNat) % 2 ^ 64 := by
  apply toNat_of_eq_ofNat
  simp only [shape, UInt64.ofNat_mul, UInt64.ofNat_add, UInt64.ofNat_toNat, tileRow, c1, h1]
  change _ = (2 : UInt64) * _
  grind

theorem planes_toNat : (g.n * g.c * g.plane).toNat =
      g.shape.n * g.shape.c * g.plane.toNat % 2 ^ 64 := by
  apply toNat_of_eq_ofNat
  simp only [shape, UInt64.ofNat_mul, UInt64.ofNat_toNat]

theorem elements_toNat : (g.n * g.c * g.h * g.w * 2).toNat = denseBytes g.shape % 2 ^ 64 := by
  apply toNat_of_eq_ofNat
  simp only [shape, denseBytes, UInt64.ofNat_mul, UInt64.ofNat_toNat]
  change _ = (2 : UInt64) * _ * _
  grind

end Geom

/-! ## The rows -/

/-- The strides hold the tensor, and nothing wraps. -/
structure TileOk (g : Geom) : Prop where
  row_pos : 0 < g.row.toNat
  even : g.row.toNat % 2 = 0
  dvd : g.row.toNat ∣ g.plane.toNat
  width : 2 * g.w.toNat ≤ g.row.toNat
  height : g.h.toNat ≤ g.plane.toNat / g.row.toNat
  total : g.n.toNat * g.c.toNat * g.plane.toNat < 2 ^ 64

/-- The bytes of all planes. -/
def Geom.planes (g : Geom) : Nat := g.n.toNat * g.c.toNat * g.plane.toNat

/-- The places of the rows in the channel. -/
def Geom.rows (g : Geom) : List Nat :=
  rowOffs g.shape (g.c.toNat * g.plane.toNat) g.plane.toNat g.row.toNat

section Rows

variable {g : Geom} (h : TileOk g) {sh : Shape} {r : Nat × Nat × Nat}

include h

theorem TileOk.newW_eq : 2 * g.newW.toNat = g.row.toNat := by
  have heven := h.even
  rw [g.newW_toNat]
  omega

theorem TileOk.newH_eq : g.newH.toNat * g.row.toNat = g.plane.toNat := by
  rw [g.newH_toNat, Nat.div_mul_cancel h.dvd]

/-- A plane holds the rows. -/
theorem TileOk.rows_le {k : Nat} (hk : k ≤ g.h.toNat) : k * g.row.toNat ≤ g.plane.toNat := by
  rw [← h.newH_eq, g.newH_toNat]
  exact Nat.mul_le_mul_right _ (hk.trans h.height)

omit h in
theorem rowNat_line (c p q : Nat) (r : Nat × Nat × Nat) :
    rowNat (c * p) p q r = (r.1 * c + r.2.1) * p + r.2.2 * q := by
  rw [rowNat, Nat.add_mul, Nat.mul_assoc]

omit h in
/-- The planes are numbered from 0 on. -/
theorem line_lt (hr : r ∈ loopRows sh) : r.1 * sh.c + r.2.1 < sh.n * sh.c := by
  obtain ⟨hi, hj, -⟩ := mem_loopRows.1 hr
  have hnext : (r.1 + 1) * sh.c ≤ sh.n * sh.c := Nat.mul_le_mul_right _ hi
  rw [Nat.add_mul, Nat.one_mul] at hnext
  omega

/-- A whole row stride is in the channel. -/
theorem TileOk.rowNat_le (hr : r ∈ loopRows g.shape) :
    rowNat (g.c.toNat * g.plane.toNat) g.plane.toNat g.row.toNat r +
      g.row.toNat ≤ g.planes := by
  have hrows := h.rows_le (k := r.2.2 + 1) (mem_loopRows.1 hr).2.2
  have hlines := Nat.mul_le_mul_right g.plane.toNat (line_lt hr)
  rw [Nat.succ_mul] at hlines
  rw [Nat.add_mul, Nat.one_mul] at hrows
  rw [rowNat_line, Geom.planes]
  simp only [Geom.shape] at hlines
  omega

theorem TileOk.tileRow_eq (hr : r ∈ loopRows g.shape) : (g.tileRow r).toNat =
      rowNat (g.c.toNat * g.plane.toNat) g.plane.toNat g.row.toNat r := by
  have hle := h.rowNat_le hr
  have htotal := h.total
  rw [← Geom.planes] at htotal
  have hvalue : 2 * (((r.1 * g.shape.c + r.2.1) * g.newH.toNat + r.2.2) * g.newW.toNat) =
      rowNat (g.c.toNat * g.plane.toNat) g.plane.toNat g.row.toNat r := by
    rw [rowNat_line, ← h.newH_eq, Nat.mul_left_comm, h.newW_eq, Nat.add_mul, Nat.mul_assoc]
    rfl
  rw [g.tileRow_toNat, hvalue, Nat.mod_eq_of_lt (by omega)]

/-- The tensor is not larger than the channel. -/
theorem TileOk.denseBytes_le : denseBytes g.shape ≤ g.planes := by
  have hplane : g.h.toNat * (2 * g.w.toNat) ≤ g.plane.toNat :=
    (Nat.mul_le_mul_left _ h.width).trans (h.rows_le le_rfl)
  calc denseBytes g.shape
      = g.n.toNat * g.c.toNat * (g.h.toNat * (2 * g.w.toNat)) := by
        simp only [denseBytes, Geom.shape]
        ring
    _ ≤ g.planes := Nat.mul_le_mul_left _ hplane

omit h in
theorem denseRow_lt (hr : r ∈ loopRows sh) : denseRow sh r < sh.n * sh.c * sh.h := by
  have hmem := List.mem_map_of_mem (f := denseRow sh) hr
  rw [map_denseRow] at hmem
  exact List.mem_range.1 hmem

omit h in
theorem denseRow_end (hr : r ∈ loopRows sh) :
    2 * sh.w * denseRow sh r + 2 * sh.w ≤ denseBytes sh := by
  rw [← Nat.mul_succ]
  exact Nat.mul_le_mul_left _ (denseRow_lt hr)

theorem TileOk.dataRow_eq (hr : r ∈ loopRows g.shape) :
    (g.dataRow r).toNat = 2 * g.shape.w * denseRow g.shape r := by
  have hend := (denseRow_end hr).trans h.denseBytes_le
  have htotal := h.total
  rw [← Geom.planes] at htotal
  rw [g.dataRow_toNat]
  exact Nat.mod_eq_of_lt (by omega)

theorem TileOk.stride_eq : g.stride.toNat = 2 * g.shape.w := by
  have hwidth := h.width
  have hrow := g.row.toNat_lt
  rw [g.stride_toNat]
  exact Nat.mod_eq_of_lt (Nat.lt_of_le_of_lt hwidth hrow)

theorem TileOk.planes_eq : (g.n * g.c * g.plane).toNat = g.planes := by
  rw [g.planes_toNat]
  exact Nat.mod_eq_of_lt h.total

theorem TileOk.elements_eq : (g.n * g.c * g.h * g.w * 2).toNat = denseBytes g.shape := by
  rw [g.elements_toNat]
  exact Nat.mod_eq_of_lt (Nat.lt_of_le_of_lt h.denseBytes_le h.total)

end Rows

end OmarchyAne.H13
