import OmarchyAne.H13.Tile

/-!
# The two packers write the same image

`ane_tile` and `surface_pack_f16` write the rows of a tensor at the same places,
and `ane_untile` and `surface_unpack` read them there.  The rows are apart from
each other, so that what was written is read back.

The fast path of `ane_tile` copies everything at once.  It is taken where the
rows touch, and then the rows are all of the channel.
-/

namespace OmarchyAne.H13

open Lib AneSession List

section Agree

variable {g : Geom} (h : TileOk g) {data : Bytes}

include h

/-- The packer of the tools finds the row. -/
theorem TileOk.rowOffset_eq {size : Nat} (hsize : g.planes ≤ size)
    {r : Nat × Nat × Nat} (hr : r ∈ loopRows g.shape) :
    rowOffset r g.shape.c g.plane.toNat g.row.toNat g.shape.w size =
      some (rowNat (g.c.toNat * g.plane.toNat) g.plane.toNat g.row.toNat r) := by
  rcases r with ⟨i, j, k⟩
  have hle := h.rowNat_le hr
  have hplane := h.rows_le (k := k + 1) (mem_loopRows.1 hr).2.2
  have hpos := h.row_pos
  have hwidth := h.width
  have htotal := h.total
  rw [← Geom.planes] at htotal
  rw [Nat.add_mul, Nat.one_mul] at hplane
  rw [rowNat_line] at hle ⊢
  have hline : i * g.c.toNat + j ≤ (i * g.c.toNat + j) * g.plane.toNat :=
    Nat.le_mul_of_pos_right _ (by omega)
  change rowOffset (i, j, k) g.c.toNat g.plane.toNat g.row.toNat g.w.toNat size =
    some ((i * g.c.toNat + j) * g.plane.toNat + k * g.row.toNat)
  simp only [rowOffset] at hle ⊢
  rw [Nat.mod_eq_of_lt (by omega), if_neg (by omega), if_neg (by omega)]

/-- A later row is after an earlier one. -/
theorem TileOk.rowNat_lt {r s : Nat × Nat × Nat} (hr : r ∈ loopRows g.shape)
    (hs : s ∈ loopRows g.shape)
    (hlt : denseRow g.shape r < denseRow g.shape s) :
    rowNat (g.c.toNat * g.plane.toNat) g.plane.toNat g.row.toNat r + 2 * g.shape.w ≤
      rowNat (g.c.toNat * g.plane.toNat) g.plane.toNat g.row.toNat s := by
  have hwidth : 2 * g.shape.w ≤ g.row.toNat := h.width
  have hplane := h.rows_le (k := r.2.2 + 1) (mem_loopRows.1 hr).2.2
  have hk := (mem_loopRows.1 hs).2.2
  rw [rowNat_line, rowNat_line]
  rw [denseRow, denseRow] at hlt
  change (r.1 * g.c.toNat + r.2.1) * g.shape.h + r.2.2 <
    (s.1 * g.c.toNat + s.2.1) * g.shape.h + s.2.2 at hlt
  obtain ⟨a, ha⟩ : ∃ a, r.1 * g.c.toNat + r.2.1 = a := ⟨_, rfl⟩
  obtain ⟨b, hb⟩ : ∃ b, s.1 * g.c.toNat + s.2.1 = b := ⟨_, rfl⟩
  rw [ha, hb] at hlt ⊢
  rw [Nat.add_mul, Nat.one_mul] at hplane
  rcases Nat.lt_trichotomy a b with hab | rfl | hab
  · have hnext := Nat.mul_le_mul_right g.plane.toNat hab
    rw [Nat.succ_mul] at hnext
    omega
  · have hnext : (r.2.2 + 1) * g.row.toNat ≤ s.2.2 * g.row.toNat :=
      Nat.mul_le_mul_right _ (by omega)
    rw [Nat.add_mul, Nat.one_mul] at hnext
    omega
  · have hnext := Nat.mul_le_mul_right g.shape.h hab
    rw [Nat.succ_mul] at hnext
    omega

theorem TileOk.apart : Apart (2 * g.shape.w) g.rows := by
  have hsorted : (loopRows g.shape).Pairwise fun r s =>
      denseRow g.shape r < denseRow g.shape s := by
    rw [← pairwise_map, map_denseRow]
    exact pairwise_lt_range
  rw [Apart, Geom.rows, rowOffs, pairwise_map]
  apply hsorted.imp_of_mem
  intro r s hr hs hlt
  exact h.rowNat_lt hr hs hlt

theorem TileOk.rows_fit : ∀ o ∈ g.rows, o + 2 * g.shape.w ≤ g.planes := by
  intro o ho
  obtain ⟨r, hr, rfl⟩ := mem_map.1 ho
  have hwidth : 2 * g.shape.w ≤ g.row.toNat := h.width
  have hle := h.rowNat_le hr
  omega

omit h in
theorem rows_length : 2 * g.shape.w * g.rows.length = denseBytes g.shape := by
  rw [Geom.rows, rowOffs, length_map, loopRows_length, denseBytes]

/-- Without padding the rows follow each other. -/
theorem TileOk.rows_dense (hdense : g.dense = true) :
    g.rows = (List.range (g.shape.n * g.shape.c * g.shape.h)).map (2 * g.shape.w * ·) := by
  rw [Geom.dense, Bool.and_eq_true, beq_iff_eq, beq_iff_eq] at hdense
  have hrow : 2 * g.w.toNat = g.row.toNat := by
    rw [← hdense.2]
    exact h.newW_eq
  have hplane : g.h.toNat * g.row.toNat = g.plane.toNat := by
    rw [← hdense.1]
    exact h.newH_eq
  rw [← map_denseRow, map_map, Geom.rows, rowOffs]
  apply map_congr_left
  intro r _
  change _ = 2 * g.w.toNat * ((r.1 * g.c.toNat + r.2.1) * g.h.toNat + r.2.2)
  rw [rowNat_line, ← hplane, hrow]
  ring

theorem TileOk.planes_dense (hdense : g.dense = true) : denseBytes g.shape = g.planes := by
  rw [Geom.dense, Bool.and_eq_true, beq_iff_eq, beq_iff_eq] at hdense
  have hrow : 2 * g.w.toNat = g.row.toNat := by
    rw [← hdense.2]
    exact h.newW_eq
  have hplane : g.h.toNat * g.row.toNat = g.plane.toNat := by
    rw [← hdense.1]
    exact h.newH_eq
  change 2 * g.w.toNat * (g.n.toNat * g.c.toNat * g.h.toNat) =
    g.n.toNat * g.c.toNat * g.plane.toNat
  rw [← hplane, hrow]
  ring

/-! ## The loops -/

theorem TileOk.tile_rows (data tile : Bytes) :
    ((loopRows g.shape).map fun r =>
        Op.copy (g.tileRow r) (g.dataRow r) g.stride).foldl (Op.run data) tile =
      scatter data (2 * g.shape.w) g.rows tile := by
  rw [scatter, Geom.rows, rowOffs, zipIdx_map (map_denseRow_length g.shape), foldl_map, foldl_map]
  apply foldl_ext
  intro buf r hr
  rw [Op.run, h.tileRow_eq hr, h.dataRow_eq hr, h.stride_eq]

theorem TileOk.untile_rows {tile : Bytes}
    (hdata : data.length = denseBytes g.shape) (htile : g.planes ≤ tile.length) :
    ((loopRows g.shape).map fun r =>
        Op.copy (g.dataRow r) (g.tileRow r) g.stride).foldl (Op.run tile) data =
      gather tile (2 * g.shape.w) g.rows := by
  have hunpack := surfaceUnpack_rows (b := g.c.toNat * g.plane.toNat)
    (fun r hr => h.rowOffset_eq htile hr) hdata
  have hloop : surfaceUnpack g.shape g.plane.toNat g.row.toNat tile data =
      some (((loopRows g.shape).map fun r =>
        Op.copy (g.dataRow r) (g.tileRow r) g.stride).foldl (Op.run tile)
          data) := by
    rw [foldl_map]
    apply foldlM_some
    intro r hr buf
    rw [h.rowOffset_eq htile hr, Option.map_some, Op.run, h.tileRow_eq hr,
      h.dataRow_eq hr, h.stride_eq]
  exact Option.some.inj (hloop.symm.trans hunpack)

/-! ## The image -/

/-- The rows of a tensor in a zeroed buffer. -/
def Geom.image (g : Geom) (data : Bytes) : Bytes :=
  scatter data (2 * g.shape.w) g.rows (List.replicate g.planes 0)

theorem TileOk.image_length (hdata : data.length = denseBytes g.shape) :
    (g.image data).length = g.planes := by
  rw [Geom.image, scatter_length, length_replicate]
  · rw [rows_length, hdata]
  · rw [length_replicate]
    exact h.rows_fit

theorem TileOk.gather_image (hdata : data.length = denseBytes g.shape) :
    gather (g.image data) (2 * g.shape.w) g.rows = data := by
  apply gather_scatter _ _ h.apart
  · rw [rows_length, hdata]
  · rw [length_replicate]
    exact h.rows_fit

/-- Without padding the image is the tensor. -/
theorem TileOk.image_dense (hdense : g.dense = true)
    (hdata : data.length = denseBytes g.shape) : g.image data = data := by
  have hall := gather_range (g.image data) (2 * g.shape.w) (g.shape.n * g.shape.c * g.shape.h)
  rw [← h.rows_dense hdense, h.gather_image hdata, ← denseBytes,
    h.planes_dense hdense, ← h.image_length hdata, take_length] at hall
  exact hall.symm

theorem TileOk.row_ne : g.row ≠ 0 := by
  intro hzero
  have hpos := h.row_pos
  rw [hzero] at hpos
  exact Nat.lt_irrefl 0 hpos

theorem TileOk.aneTile_eq (tile : Bytes) (hdata : data.length = denseBytes g.shape) :
    aneTile g data tile = some (g.image data ++ tile.drop g.planes) := by
  rw [aneTile, Geom.tileOps, if_neg h.row_ne]
  by_cases hdense : g.dense = true
  · have hlen := h.planes_dense hdense
    rw [if_pos hdense, Option.map_some, foldl_cons, foldl_nil, Op.run,
      h.planes_eq, h.image_dense hdense hdata]
    simp [slice, blit, ← hlen, ← hdata]
  · rw [if_neg hdense, Option.map_some, foldl_cons, Op.run, h.planes_eq,
      h.tile_rows, Geom.image, ← scatter_append_left]
    · simp [blit]
    · rw [rows_length, hdata]
    · rw [length_replicate]
      exact h.rows_fit

theorem TileOk.aneUntile_eq {tile : Bytes}
    (hdata : data.length = denseBytes g.shape) (htile : g.planes ≤ tile.length) :
    aneUntile g data tile = some (gather tile (2 * g.shape.w) g.rows) := by
  rw [aneUntile, Geom.untileOps, if_neg h.row_ne]
  by_cases hdense : g.dense = true
  · have hlen : (tile.take data.length).length = data.length := by
      have hplanes := h.planes_dense hdense
      rw [length_take]
      omega
    rw [if_pos hdense, Option.map_some, foldl_cons, foldl_nil, Op.run,
      h.elements_eq, h.rows_dense hdense, gather_range, ← denseBytes, ← hdata]
    simp [slice, blit, hlen]
  · rw [if_neg hdense, Option.map_some, foldl_cons, Op.run, h.elements_eq,
      ← hdata, blit, take_zero, nil_append, length_replicate,
      Nat.zero_add, drop_length, append_nil, h.untile_rows _ htile]
    rw [length_replicate, hdata]

end Agree

/-- The code of the library and the code of the tools agree: both write the
same image, both read the same tensor from a channel, a tensor that was tiled is
read back, and outside the rows the image is zero. -/
theorem tile_agrees {g : Geom} (h : TileOk g) (data out tile : Bytes)
    (hdata : data.length = denseBytes g.shape)
    (hout : out.length = denseBytes g.shape) (htile : g.planes ≤ tile.length) :
    ∃ image tensor, aneTile g data tile = some (image ++ tile.drop g.planes) ∧
      surfacePackF16 g.shape g.plane.toNat g.row.toNat data
        (List.replicate g.planes 0) = some image ∧
      image.length = g.planes ∧
      aneUntile g out tile = some tensor ∧
      surfaceUnpack g.shape g.plane.toNat g.row.toNat tile out = some tensor ∧
      aneUntile g out (image ++ tile.drop g.planes) = some data ∧
      ∀ i < g.planes, ¬ Covered (2 * g.shape.w) g.rows i → image[i]? = some 0 := by
  have hlen := h.image_length hdata
  refine ⟨g.image data, _, h.aneTile_eq tile hdata, ?_, hlen, h.aneUntile_eq hout htile, ?_, ?_, ?_⟩
  · apply surfacePack_rows
    intro r hr
    rw [length_replicate]
    exact h.rowOffset_eq le_rfl hr
  · apply surfaceUnpack_rows _ hout
    intro r hr
    exact h.rowOffset_eq htile hr
  · rw [h.aneUntile_eq hout]
    · rw [gather_append_left (hlen ▸ h.rows_fit), h.gather_image hdata]
    · rw [length_append, hlen]
      omega
  · intro i hi hcover
    rw [Geom.image, getElem?_scatter _ _ hcover, getElem?_replicate, if_pos hi]
    · rw [rows_length, hdata]
    · rw [length_replicate]
      exact h.rows_fit

/-- Two planes of one row, in a channel with padding. -/
def paddedGeom : Geom := ⟨1, 2, 1, 1, 8, 4⟩

theorem paddedGeom_ok : TileOk paddedGeom :=
  ⟨by decide, by decide, by decide, by decide, by decide, by decide⟩

theorem tile_agrees_padded : ∃ image tensor,
      aneTile paddedGeom [1, 2, 3, 4] (List.replicate 16 9) = some image ∧
      image = [1, 2, 0, 0, 0, 0, 0, 0, 3, 4, 0, 0, 0, 0, 0, 0] ∧
      surfacePackF16 paddedGeom.shape 8 4 [1, 2, 3, 4] (List.replicate 16 0) = some image ∧
      surfaceUnpack paddedGeom.shape 8 4 (List.replicate 16 9) [5, 5, 5, 5] = some tensor ∧
      aneUntile paddedGeom [5, 5, 5, 5] image = some [1, 2, 3, 4] := by
  obtain ⟨image, tensor, htile, hpack, hlen, -, hunpack, hback, -⟩ :=
    tile_agrees paddedGeom_ok [1, 2, 3, 4] [5, 5, 5, 5] (List.replicate 16 9)
      rfl rfl (by decide)
  have hrest : image ++ (List.replicate 16 (9 : UInt8)).drop paddedGeom.planes =
      image := append_nil image
  rw [hrest] at htile hback
  have himage : aneTile paddedGeom [1, 2, 3, 4] (List.replicate 16 9) =
      some [1, 2, 0, 0, 0, 0, 0, 0, 3, 4, 0, 0, 0, 0, 0, 0] := by
    decide +kernel
  exact ⟨image, tensor, htile, Option.some.inj (htile.symm.trans himage), hpack, hunpack, hback⟩

end OmarchyAne.H13
