import OmarchyAne.AneSession.Surface

/-!
# The carry is the round trip of the host

After a call the session holds the runs of the output, and zeros.  The host
would unpack the output and pack it again.  Both copy the same bytes: the rows
of the tensor (`rowNat`), whole, in elements of two bytes, or joined to one run
when they touch.

`Holds` is what `check_strides` accepts, on natural numbers.
-/

namespace OmarchyAne.AneSession

open Lib List

variable {sh : Shape} {size : Nat} {r : Nat × Nat × Nat} {b p q : Nat}

/-- The byte offset of a row. -/
def rowNat (b p q : Nat) (r : Nat × Nat × Nat) : Nat :=
  r.1 * b + r.2.1 * p + r.2.2 * q

/-- The strides hold the tensor in `size` bytes. -/
structure Holds (sh : Shape) (b p q size : Nat) : Prop where
  n : 0 < sh.n
  c : 0 < sh.c
  h : 0 < sh.h
  w : 0 < sh.w
  row : 2 * sh.w ≤ q
  plane : q * sh.h ≤ p
  batch : p * sh.c ≤ b
  fits : (sh.n - 1) * b + (sh.c - 1) * p + (sh.h - 1) * q + 2 * sh.w ≤ size

theorem checkStrides_holds {st : Strides} (hpos : 0 < sh.n ∧ 0 < sh.c ∧ 0 < sh.h ∧ 0 < sh.w)
    (h : checkStrides sh st size = true) :
    ∃ b p q : Nat, st = ⟨b, p, q, 2⟩ ∧ Holds sh b p q size := by
  obtain ⟨hn, hc, hh, hw⟩ := hpos
  rcases st with ⟨batch, plane, row, elem⟩
  simp only [checkStrides, surfaceEnd, Bool.not_eq_true', Bool.or_eq_false_iff,
    decide_eq_false_iff_not, not_lt, ne_eq, not_not] at h
  obtain ⟨⟨⟨⟨⟨helem, hrow⟩, hplane⟩, hbatch⟩, _⟩, hend⟩ := h
  have hrow0 : 0 ≤ row := by omega
  have hplane0 : 0 ≤ plane := le_trans (mul_nonneg hrow0 (Int.natCast_nonneg sh.h)) hplane
  have hbatch0 : 0 ≤ batch := le_trans (mul_nonneg hplane0 (Int.natCast_nonneg sh.c)) hbatch
  obtain ⟨q, rfl⟩ := Int.eq_ofNat_of_zero_le hrow0
  obtain ⟨p, rfl⟩ := Int.eq_ofNat_of_zero_le hplane0
  obtain ⟨b, rfl⟩ := Int.eq_ofNat_of_zero_le hbatch0
  refine ⟨b, p, q, by rw [helem], hn, hc, hh, hw, ?_, ?_, ?_, ?_⟩
  · exact_mod_cast hrow
  · exact_mod_cast hplane
  · exact_mod_cast hbatch
  · have hn' : ((sh.n - 1 : Nat) : Int) = sh.n - 1 := by omega
    have hc' : ((sh.c - 1 : Nat) : Int) = sh.c - 1 := by omega
    have hh' : ((sh.h - 1 : Nat) : Int) = sh.h - 1 := by omega
    have hend := not_lt.1 (of_decide_eq_false hend)
    rw [← hn', ← hc', ← hh'] at hend
    exact_mod_cast hend

theorem mem_loopRows : r ∈ loopRows sh ↔ r.1 < sh.n ∧ r.2.1 < sh.c ∧ r.2.2 < sh.h := by
  rcases r with ⟨i, j, k⟩
  simp only [loopRows, mem_flatMap, mem_map, mem_range, Prod.mk.injEq]
  constructor
  · rintro ⟨i', hi, j', hj, k', hk, rfl, rfl, rfl⟩
    exact ⟨hi, hj, hk⟩
  · rintro ⟨hi, hj, hk⟩
    exact ⟨i, hi, j, hj, k, hk, rfl, rfl, rfl⟩

/-- The rows are numbered in the order of the loops. -/
theorem map_denseRow (sh : Shape) :
    (loopRows sh).map (denseRow sh) = List.range (sh.n * sh.c * sh.h) := by
  rw [← flatMap_range_mul (sh.n * sh.c) sh.h, ← flatMap_range_mul sh.n sh.c,
    loopRows, map_flatMap, flatMap_assoc]
  congr 1
  funext i
  rw [map_flatMap, flatMap_map]
  congr 1
  funext j
  rw [map_map]
  rfl

theorem loopRows_length (sh : Shape) : (loopRows sh).length = sh.n * sh.c * sh.h := by
  have hlen := congrArg List.length (map_denseRow sh)
  rw [length_map, length_range] at hlen
  exact hlen

theorem map_denseRow_length (sh : Shape) :
    (loopRows sh).map (denseRow sh) = List.range (loopRows sh).length := by
  rw [map_denseRow, loopRows_length]

/-- The offsets of the rows. -/
def rowOffs (sh : Shape) (b p q : Nat) : List Nat :=
  (loopRows sh).map (rowNat b p q)

/-! ## The loops of the C code -/

theorem rowOffset_le {c plane row w off : Nat}
    (h : rowOffset r c plane row w size = some off) : off + 2 * w ≤ size := by
  rw [rowOffset] at h
  split at h
  · cases h
  · split at h
    · cases h
    · have hoff := Option.some.inj h
      omega

section Loops

variable {sh : Shape} {b p q : Nat} {dense : Bytes}

/-- Unpacking reads the rows, one after the other. -/
theorem surfaceUnpack_rows {raw : Bytes}
    (hrow : ∀ r ∈ loopRows sh, rowOffset r sh.c p q sh.w raw.length = some (rowNat b p q r))
    (hdense : dense.length = denseBytes sh) :
    surfaceUnpack sh p q raw dense = some (gather raw (2 * sh.w) (rowOffs sh b p q)) := by
  have hloop : surfaceUnpack sh p q raw dense =
      some ((loopRows sh).foldl (fun buf r =>
        blit buf (2 * sh.w * denseRow sh r)
          (slice raw (rowNat b p q r) (2 * sh.w))) dense) := by
    apply foldlM_some
    intro r hr buf
    rw [hrow r hr, Option.map_some]
  have hchunks : ∀ x ∈ (rowOffs sh b p q).map (slice raw · (2 * sh.w)), x.length = 2 * sh.w := by
    intro x hx
    obtain ⟨o, ho, rfl⟩ := mem_map.1 hx
    obtain ⟨r, hr, rfl⟩ := mem_map.1 ho
    exact slice_length (rowOffset_le (hrow r hr))
  have hfill := fill_eq (l := dense) hchunks (by
    rw [hdense, denseBytes, length_map, rowOffs, length_map, loopRows_length])
  rw [hloop, gather, flatMap_def, ← hfill, fill, rowOffs, map_map,
    zipIdx_map (map_denseRow_length sh), foldl_map]
  rfl

/-- Packing writes the rows. -/
theorem surfacePack_rows {dst : Bytes}
    (hrow : ∀ r ∈ loopRows sh, rowOffset r sh.c p q sh.w dst.length = some (rowNat b p q r)) :
    surfacePackF16 sh p q dense dst = some (scatter dense (2 * sh.w) (rowOffs sh b p q) dst) := by
  have hloop : surfacePackF16 sh p q dense dst =
      some ((loopRows sh).foldl (fun buf r =>
        blit buf (rowNat b p q r)
          (slice dense (2 * sh.w * denseRow sh r) (2 * sh.w))) dst) := by
    apply foldlM_some
    intro r hr buf
    rw [hrow r hr, Option.map_some]
  rw [hloop, scatter, rowOffs, zipIdx_map (map_denseRow_length sh), foldl_map]

end Loops

section Rows

variable {sh : Shape} {b p q size : Nat} (h : Holds sh b p q size) {r : Nat × Nat × Nat}

include h

/-- Every row is in the buffer. -/
theorem Holds.rowNat_le (hr : r ∈ loopRows sh) : rowNat b p q r + 2 * sh.w ≤ size := by
  obtain ⟨hi, hj, hk⟩ := mem_loopRows.1 hr
  have hb : r.1 * b ≤ (sh.n - 1) * b := Nat.mul_le_mul_right b (by omega)
  have hp : r.2.1 * p ≤ (sh.c - 1) * p := Nat.mul_le_mul_right p (by omega)
  have hq : r.2.2 * q ≤ (sh.h - 1) * q := Nat.mul_le_mul_right q (by omega)
  have hfits := h.fits
  rw [rowNat]
  omega

theorem Holds.rowOffs_le : ∀ o ∈ rowOffs sh b p q, o + 2 * sh.w ≤ size := by
  intro o ho
  obtain ⟨r, hr, rfl⟩ := mem_map.1 ho
  exact h.rowNat_le hr

theorem Holds.plane_pos : 0 < p := by
  have hq : 0 < q := by
    have hrow := h.row
    have hw := h.w
    omega
  exact Nat.lt_of_lt_of_le (Nat.mul_pos hq h.h) h.plane

/-- The first row is at the start of the buffer. -/
theorem Holds.rowOffs_cons : ∃ offs, rowOffs sh b p q = 0 :: offs := by
  have hfirst : (loopRows sh)[0]? = some (0, 0, 0) := by
    obtain ⟨n, hn⟩ : ∃ n, sh.n = n + 1 := ⟨sh.n - 1, by have := h.n; omega⟩
    obtain ⟨c, hc⟩ : ∃ c, sh.c = c + 1 := ⟨sh.c - 1, by have := h.c; omega⟩
    obtain ⟨k, hk⟩ : ∃ k, sh.h = k + 1 := ⟨sh.h - 1, by have := h.h; omega⟩
    rw [loopRows, hn, hc, hk]
    simp [range_succ_eq_map]
  cases hrows : loopRows sh with
  | nil => simp [hrows] at hfirst
  | cons r rows =>
    obtain rfl : r = (0, 0, 0) := by simpa [hrows] using hfirst
    refine ⟨rows.map (rowNat b p q), ?_⟩
    rw [rowOffs, hrows, map_cons]
    simp [rowNat]

/-! ## The C code -/

theorem Holds.rowOffset_eq (hsize : size < 2 ^ 63)
    (hbatch : sh.n = 1 ∨ b = sh.c * p) (hr : r ∈ loopRows sh) :
    rowOffset r sh.c p q sh.w size = some (rowNat b p q r) := by
  have hle := h.rowNat_le hr
  have hp := h.plane_pos
  rcases r with ⟨i, j, k⟩
  have hi : i < sh.n := (mem_loopRows.1 hr).1
  have hline : (i * sh.c + j) * p = i * b + j * p := by
    rw [Nat.add_mul, Nat.mul_assoc]
    rcases hbatch with hone | hmul
    · have hzero : i = 0 := by omega
      rw [hzero, Nat.zero_mul, Nat.zero_mul]
    · rw [hmul]
  have hsmall : i * sh.c + j ≤ (i * sh.c + j) * p := Nat.le_mul_of_pos_right _ hp
  rw [rowNat] at hle ⊢
  simp only at hle ⊢
  simp only [rowOffset]
  rw [Nat.mod_eq_of_lt (by omega), hline, if_neg (by omega), if_neg (by omega)]

theorem Holds.surfaceUnpack_eq (hsize : size < 2 ^ 63)
    (hbatch : sh.n = 1 ∨ b = sh.c * p) {raw dense : Bytes}
    (hraw : raw.length = size) (hdense : dense.length = denseBytes sh) :
    surfaceUnpack sh p q raw dense = some (gather raw (2 * sh.w) (rowOffs sh b p q)) := by
  apply surfaceUnpack_rows _ hdense
  intro r hr
  rw [hraw, h.rowOffset_eq hsize hbatch hr]

theorem Holds.surfacePack_eq (hsize : size < 2 ^ 63)
    (hbatch : sh.n = 1 ∨ b = sh.c * p) (dense : Bytes) {dst : Bytes}
    (hdst : dst.length = size) :
    surfacePackF16 sh p q dense dst = some (scatter dense (2 * sh.w) (rowOffs sh b p q) dst) := by
  apply surfacePack_rows
  intro r hr
  rw [hdst, h.rowOffset_eq hsize hbatch hr]

end Rows

/-! ## The two ways through the host -/

/-- The strides that both paths take. -/
def smallStrides (st : Strides) : Prop :=
  st.batch < 2 ^ 62 ∧ st.plane < 2 ^ 62 ∧ st.row < 2 ^ 62

instance (st : Strides) : Decidable (smallStrides st) :=
  inferInstanceAs (Decidable (_ ∧ _))

theorem viewOffsets_eq (sh : Shape) (b p q : Nat) :
    viewOffsets sh ⟨b, p, q, 2⟩ = pieces 2 sh.w (rowOffs sh b p q) := by
  rw [viewOffsets, pieces, rowOffs, flatMap_map]
  congr 1
  funext r
  apply map_congr_left
  intro x _
  have hcast : (r.1 * (b : Int) + r.2.1 * p + r.2.2 * q + x * 2) =
      ((rowNat b p q r + 2 * x : Nat) : Int) := by
    rw [rowNat, Nat.mul_comm 2 x]
    push_cast
    rfl
  rw [hcast, Int.toNat_natCast]

theorem surfaceView_of_small (hcheck : checkStrides sh ⟨b, p, q, 2⟩ size = true)
    (hsmall : smallStrides ⟨b, p, q, 2⟩) :
    surfaceView sh ⟨b, p, q, 2⟩ size = true := by
  obtain ⟨hb, hp, hq⟩ := hsmall
  simp only at hb hp hq
  simp only [surfaceView, hcheck, int64Strides, Bool.true_and, Bool.and_eq_true, decide_eq_true_eq]
  omega

theorem fastOk_batch (hfast : fastOk sh ⟨b, p, q, 2⟩ = true) : sh.n = 1 ∨ b = sh.c * p := by
  simp only [fastOk, Bool.or_eq_true, beq_iff_eq] at hfast
  rcases hfast with hone | hmul
  · exact Or.inl hone
  · exact Or.inr (by exact_mod_cast hmul)

theorem int64_of_lt {x : Int} (h0 : 0 ≤ x) (h63 : x < 2 ^ 63) : int64 x = x :=
  Int.bmod_eq_of_le (by omega) (by omega)

theorem int64_add {x y z : Nat} (h : x + y + z < 2 ^ 63) :
    int64 (int64 (int64 x + int64 y) + int64 z) = ((x + y + z : Nat) : Int) := by
  rw [int64_of_lt (x := x) (by omega) (by omega),
    int64_of_lt (x := y) (by omega) (by omega),
    int64_of_lt (x := z) (by omega) (by omega),
    int64_of_lt (x := x + y) (by omega) (by omega),
    int64_of_lt (by omega) (by omega)]
  omega

section RoundTrip

variable {sh : Shape} {b p q size : Nat} (h : Holds sh b p q size)

include h

theorem Holds.pieces_le : ∀ o ∈ pieces 2 sh.w (rowOffs sh b p q), o + 2 ≤ size := by
  intro o ho
  obtain ⟨o', ho', hpiece⟩ := mem_flatMap.1 ho
  obtain ⟨x, hx, rfl⟩ := mem_map.1 hpiece
  have hle := h.rowOffs_le o' ho'
  have hlt := mem_range.1 hx
  omega

theorem Holds.dims_eq (hsmall : smallStrides ⟨b, p, q, 2⟩) :
    dims sh ⟨b, p, q, 2⟩ = some (p, q) := by
  obtain ⟨_, hp, hq⟩ := hsmall
  have hn := h.n
  have hc := h.c
  have hh := h.h
  have hw := h.w
  simp only at hp hq
  rw [dims, if_neg]
  · simp
  · simp only
    omega

/-- Unpacking and packing copies the rows, on either path. -/
theorem Holds.round_trip (hcheck : checkStrides sh ⟨b, p, q, 2⟩ size = true)
    (hsmall : smallStrides ⟨b, p, q, 2⟩) (hsize : size < 2 ^ 63)
    (heven : size % 2 = 0) (fast : Bool) (junk : Nat → UInt8) {out : Bytes}
    (hout : out.length = size) :
    (unpackSurface fast junk out sh ⟨b, p, q, 2⟩).bind
        (fun dense => packSurface fast sh ⟨b, p, q, 2⟩ dense size) =
      some (copyRuns out (2 * sh.w) (rowOffs sh b p q) (List.replicate size 0)) := by
  have half : 2 * (size / 2) = size := by omega
  have hzero : (List.replicate size (0 : UInt8)).length = size := length_replicate
  have hrows := h.rowOffs_le
  rw [unpackSurface]
  simp only [packSurface, half, hout]
  split
  case isTrue hfast =>
    rw [Bool.and_eq_true] at hfast
    have hbatch := fastOk_batch hfast.2
    have hjunk : ((List.range (denseBytes sh)).map junk).length = denseBytes sh := by
      simp
    have hunpack := h.surfaceUnpack_eq hsize hbatch hout hjunk
    have hdense : (gather out (2 * sh.w) (rowOffs sh b p q)).length = denseBytes sh := by
      rw [gather_length (hout ▸ hrows), rowOffs, length_map, loopRows_length, denseBytes]
    simp only [hcheck, Bool.not_true, Bool.false_eq_true, if_false,
      h.dims_eq hsmall, Option.bind_some, hunpack, hdense, ne_eq,
      not_true_eq_false]
    rw [h.surfacePack_eq hsize hbatch _ hzero, scatter_gather (hout ▸ hrows)]
  case isFalse hfast =>
    have hne : out ≠ [] := by
      intro hnil
      have hend := h.fits
      have hw := h.w
      rw [hnil] at hout
      simp only [length_nil] at hout
      omega
    have hview := surfaceView_of_small hcheck hsmall
    have hpieces := h.pieces_le
    rw [if_neg (by simp [heven, hne])]
    simp only [hview, Bool.not_true, Bool.false_eq_true, if_false, hzero,
      Option.bind_some, viewOffsets_eq]
    rw [scatter_gather (hout ▸ hpieces)]
    congr 1
    refine copyRuns_congr (hout.trans hzero.symm) (hzero.symm ▸ hpieces) (hzero.symm ▸ hrows) ?_
    intro i
    exact covered_pieces 2 sh.w (rowOffs sh b p q) i

/-! ## The runs -/

theorem Holds.rowStart_eq (hsize : size < 2 ^ 63) (hr : r ∈ loopRows sh) :
    rowStart ⟨b, p, q, 2⟩ r = (rowNat b p q r : Nat) := by
  have hle : rowNat b p q r < 2 ^ 63 := by
    have hle := h.rowNat_le hr
    omega
  have hb : (r.1 : Int) * b = ((r.1 * b : Nat) : Int) := (Nat.cast_mul _ _).symm
  have hp : (r.2.1 : Int) * p = ((r.2.1 * p : Nat) : Int) := (Nat.cast_mul _ _).symm
  have hq : (r.2.2 : Int) * q = ((r.2.2 * q : Nat) : Int) := (Nat.cast_mul _ _).symm
  rw [rowStart, hb, hp, hq, int64_add hle]
  rfl

theorem Holds.rows_eq (hsize : size < 2 ^ 63) : (loopRows sh).map (rowStart ⟨b, p, q, 2⟩) =
      (rowOffs sh b p q).map fun o : Nat => (o : Int) := by
  rw [rowOffs, map_map]
  apply map_congr_left
  intro r hr
  exact h.rowStart_eq hsize hr

/-- Rows that numpy finds contiguous follow each other from the start on. -/
theorem Holds.rowOffs_of_contiguous (hsize : size < 2 ^ 63)
    (hcont : contiguous ((rowOffs sh b p q).map fun o : Nat => (o : Int))
      ((2 * sh.w : Nat) : Int) = true) :
    rowOffs sh b p q = (List.range (rowOffs sh b p q).length).map (2 * sh.w * ·) := by
  obtain ⟨offs, hoffs⟩ := h.rowOffs_cons
  have hle := h.rowOffs_le
  rw [hoffs] at hcont hle ⊢
  have hdiffs : ∀ x ∈ (0 :: offs).zip offs, x.1 + 2 * sh.w = x.2 := by
    rintro ⟨o, o'⟩ hx
    have hmem := of_mem_zip hx
    have ho := hle o hmem.1
    have ho' := hle o' (mem_cons_of_mem 0 hmem.2)
    rw [contiguous, all_eq_true] at hcont
    have hpair : ((o : Int), (o' : Int)) ∈
        ((0 :: offs).map fun o : Nat => (o : Int)).zip
          ((0 :: offs).map fun o : Nat => (o : Int)).tail := by
      rw [map_cons, tail_cons, ← map_cons, zip_map]
      exact mem_map.2 ⟨(o, o'), hx, rfl⟩
    have hdiff := of_decide_eq_true (hcont _ hpair)
    rw [int64, Int.bmod_eq_of_le (by omega) (by omega)] at hdiff
    omega
  have hrange := eq_map_range_of_diffs offs 0 hdiffs
  simp only [Nat.zero_add] at hrange
  exact hrange

/-- The offsets that are sent as 64-bit words. -/
theorem Holds.offsets_eq (hsize : size < 2 ^ 63) :
    (((rowOffs sh b p q).map fun o : Nat => (o : Int)).map
      fun x => (x % 2 ^ 64).toNat) = rowOffs sh b p q := by
  rw [map_map]
  nth_rewrite 2 [← map_id (rowOffs sh b p q)]
  apply map_congr_left
  intro o ho
  have hle := h.rowOffs_le o ho
  rw [Function.comp_apply, id]
  omega

/-- The runs cover the rows, and nothing else. -/
theorem Holds.stateRuns_eq (hcheck : checkStrides sh ⟨b, p, q, 2⟩ size = true)
    (hsmall : smallStrides ⟨b, p, q, 2⟩) (hsize : size < 2 ^ 63)
    (heven : size % 2 = 0) :
    ∃ run offs, stateRuns sh ⟨b, p, q, 2⟩ size = some (run, offs) ∧
      offs ≠ [] ∧ 0 < run ∧ (∀ o ∈ offs, o + run ≤ size) ∧
      ∀ i, Covered run offs i ↔ Covered (2 * sh.w) (rowOffs sh b p q) i := by
  obtain ⟨rest, hrest⟩ := h.rowOffs_cons
  have hw := h.w
  have half : 2 * (size / 2) = size := by omega
  have hview : surfaceView sh ⟨b, p, q, 2⟩ size = true := surfaceView_of_small hcheck hsmall
  have hne : rowOffs sh b p q ≠ [] := by simp [hrest]
  rw [stateRuns, half, hview]
  simp only [Bool.not_true, Bool.false_eq_true, if_false, h.rows_eq hsize, h.offsets_eq hsize]
  split
  case isTrue hcont =>
    have hrange := h.rowOffs_of_contiguous hsize (by exact_mod_cast hcont.2)
    have hlen : 0 < (rowOffs sh b p q).length := length_pos_iff.2 hne
    -- The last row ends where the joined run ends.
    have hlast : 2 * sh.w * ((rowOffs sh b p q).length - 1) ∈ rowOffs sh b p q := by
      rw [hrange, length_map, length_range]
      exact mem_map.2 ⟨_, mem_range.2 (by omega), rfl⟩
    have hend := h.rowOffs_le _ hlast
    have hsum : 2 * sh.w * ((rowOffs sh b p q).length - 1) + 2 * sh.w =
        2 * sh.w * (rowOffs sh b p q).length := by
      rw [← Nat.mul_succ]
      congr 1
      omega
    have hfirst : (rowOffs sh b p q).take 1 = [0] := by simp [hrest]
    refine ⟨_, _, rfl, ?_, ?_, ?_, ?_⟩
    · simp [hfirst]
    · rw [length_map]
      exact Nat.mul_pos (by omega) hlen
    · intro o ho
      rw [hfirst, mem_singleton] at ho
      rw [length_map, ho]
      omega
    · intro i
      rw [hfirst, length_map, covered_joined, ← hrange]
  case isFalse =>
    exact ⟨_, _, rfl, hne, by omega, h.rowOffs_le, fun i => Iff.rfl⟩

end RoundTrip

theorem runsFit_of_le {tile run : Nat} {offs : List Nat} (hrun : 0 < run)
    (hne : offs ≠ []) (hfit : ∀ o ∈ offs, o + run ≤ tile) :
    runsFit tile run offs = .ok () := by
  have hle : run ≤ tile := by
    obtain ⟨o, ho⟩ := exists_mem_of_ne_nil offs hne
    have hfit := hfit o ho
    omega
  rw [runsFit, if_neg (by omega), if_neg]
  rw [any_eq_true]
  rintro ⟨o, ho, hout⟩
  have hfit := hfit o ho
  rw [Bool.or_eq_true, decide_eq_true_eq, decide_eq_true_eq] at hout
  omega

/-- The state after a call is what the host gets when it unpacks the output and
packs it again, on either path, and the session takes the runs. -/
theorem carry_round_trip (fast : Bool) (junk : Nat → UInt8) {sh : Shape}
    {st : Strides} {tileBytes : Nat}
    (hpos : 0 < sh.n ∧ 0 < sh.c ∧ 0 < sh.h ∧ 0 < sh.w)
    (hcheck : checkStrides sh st tileBytes = true)
    (heven : tileBytes % 2 = 0) (hsmall : smallStrides st)
    (hsize : tileBytes < 2 ^ 63) {out : Bytes} (hout : out.length = tileBytes) :
    ∃ run offs, stateRuns sh st tileBytes = some (run, offs) ∧
      (∀ rs : State, rs.tileBytes = tileBytes → rs.runBytes = run → rs.offs = offs →
        (unpackSurface fast junk out sh st).bind
            (fun dense => packSurface fast sh st dense tileBytes) =
          some (rs.carry out).buf) ∧
      (offs.length ≤ maxRuns → ¬ (offs.length = 0 ∨ maxRuns < offs.length) ∧
          runsFit tileBytes run offs = .ok ()) := by
  obtain ⟨b, p, q, rfl, h⟩ := checkStrides_holds hpos hcheck
  obtain ⟨run, offs, hruns, hne, hrun, hfit, hcover⟩ :=
    h.stateRuns_eq hcheck hsmall hsize heven
  refine ⟨run, offs, hruns, ?_, ?_⟩
  · intro rs htile hrs hoffs
    have hzero : (List.replicate tileBytes (0 : UInt8)).length = tileBytes := length_replicate
    rw [h.round_trip hcheck hsmall hsize heven fast junk hout, State.carry]
    simp only [htile, hrs, hoffs]
    congr 1
    exact (copyRuns_congr (hout.trans hzero.symm) (hzero.symm ▸ hfit)
      (hzero.symm ▸ h.rowOffs_le) hcover).symm
  · intro hmax
    have hlen : 0 < offs.length := length_pos_iff.2 hne
    exact ⟨by omega, runsFit_of_le hrun hne hfit⟩

/-- Two rows of one element each, four bytes apart. -/
theorem carry_round_trip_rows :
    ∃ run offs, stateRuns ⟨1, 1, 2, 1⟩ ⟨8, 8, 4, 2⟩ 8 = some (run, offs) ∧
      (∀ rs : State, rs.tileBytes = 8 → rs.runBytes = run → rs.offs = offs →
        (unpackSurface true (fun _ => 0) [1, 2, 3, 4, 5, 6, 7, 8] ⟨1, 1, 2, 1⟩ ⟨8, 8, 4, 2⟩).bind
          (fun dense => packSurface true ⟨1, 1, 2, 1⟩ ⟨8, 8, 4, 2⟩ dense 8) =
          some (rs.carry [1, 2, 3, 4, 5, 6, 7, 8]).buf) ∧
      (offs.length ≤ maxRuns → ¬ (offs.length = 0 ∨ maxRuns < offs.length) ∧
          runsFit 8 run offs = .ok ()) :=
  carry_round_trip true (fun _ => 0) (by decide) (by decide) (by decide)
    (by decide) (by decide) rfl

/-- A tile with an odd number of bytes.  The host packs whole elements, so its
surface is a byte shorter than the state. -/
theorem odd_tile_differs : checkStrides ⟨1, 1, 1, 1⟩ ⟨2, 2, 2, 2⟩ 3 = true ∧
    stateRuns ⟨1, 1, 1, 1⟩ ⟨2, 2, 2, 2⟩ 3 = some (2, [0]) ∧
    (State.carry ⟨0, 0, 3, 2, [0], []⟩ [1, 2, 3]).buf = [1, 2, 0] ∧
    (unpackSurface true (fun _ => 0) [1, 2, 3] ⟨1, 1, 1, 1⟩ ⟨2, 2, 2, 2⟩).bind
      (fun dense => packSurface true ⟨1, 1, 1, 1⟩ ⟨2, 2, 2, 2⟩ dense 3) = some [1, 2] ∧
    unpackSurface false (fun _ => 0) [1, 2, 3] ⟨1, 1, 1, 1⟩ ⟨2, 2, 2, 2⟩ = none := by
  decide +kernel

/-- Strides of `2 ^ 62` pass the check for one element, and the C path of the
host refuses them.  The session takes the runs. -/
theorem wide_strides_differ :
    let st : Strides := ⟨2 ^ 62, 2 ^ 62, 2 ^ 62, 2⟩
    checkStrides ⟨1, 1, 1, 1⟩ st 4 = true ∧ stateRuns ⟨1, 1, 1, 1⟩ st 4 = some (2, [0]) ∧
      unpackSurface true (fun _ => 0) [1, 2, 3, 4] ⟨1, 1, 1, 1⟩ st = none := by
  decide +kernel

end OmarchyAne.AneSession
