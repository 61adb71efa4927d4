import OmarchyAne.AneSession.Model
import OmarchyAne.Lib.Gather

/-!
# Surfaces (tools/qwen_prog_run.py, surface_pack.py, surface_pack.c)

A surface is an fp16 tensor in a buffer: element (n, c, h, w) is at a byte
offset that the strides give, and the rest of the buffer is padding.
`pack_surface` and `unpack_surface` go from a dense array to a surface and back,
with numpy or with the C code, and `state_runs` lists the runs of bytes that the
tensor takes.  A dense array is its bytes, in row-major order.

A result of nothing is an exception.  Offsets of numpy are 64-bit integers, and
those of the C code are `size_t` with checked arithmetic.
-/

namespace OmarchyAne.AneSession

open Lib

structure Shape where
  n : Nat
  c : Nat
  h : Nat
  w : Nat

/-- The byte strides of a tensor descriptor: batch, plane, row, element. -/
structure Strides where
  batch : Int
  plane : Int
  row : Int
  elem : Int

/-- The byte where the last row of a tensor ends. -/
def surfaceEnd (sh : Shape) (st : Strides) : Int :=
  (sh.n - 1) * st.batch + (sh.c - 1) * st.plane + (sh.h - 1) * st.row + 2 * sh.w

/-- `check_strides`. -/
def checkStrides (sh : Shape) (st : Strides) (nbytes : Nat) : Bool :=
  !(st.elem ≠ 2 || st.row < 2 * sh.w || st.plane < st.row * sh.h ||
    st.batch < st.plane * sh.c ||
    (st.batch % 2 ≠ 0 || st.plane % 2 ≠ 0 || st.row % 2 ≠ 0 || st.elem % 2 ≠ 0) ||
    nbytes < surfaceEnd sh st)

/-- The strides that numpy takes. -/
def int64Strides (st : Strides) : Bool :=
  st.batch < 2 ^ 63 && st.plane < 2 ^ 63 && st.row < 2 ^ 63 && st.elem < 2 ^ 63

/-- `surface_view`: the view exists. -/
def surfaceView (sh : Shape) (st : Strides) (nbytes : Nat) : Bool :=
  checkStrides sh st nbytes && int64Strides st

/-- The rows of a tensor, as nested loops go over them. -/
def loopRows (sh : Shape) : List (Nat × Nat × Nat) :=
  (List.range sh.n).flatMap fun i =>
    (List.range sh.c).flatMap fun j => (List.range sh.h).map fun k => (i, j, k)

/-! ## The runs of a state -/

/-- A value of a 64-bit numpy array. -/
def int64 (x : Int) : Int := x.bmod (2 ^ 64)

/-- The byte offset of a row, in numpy. -/
def rowStart (st : Strides) (r : Nat × Nat × Nat) : Int :=
  int64 (int64 (int64 (r.1 * st.batch) + int64 (r.2.1 * st.plane)) + int64 (r.2.2 * st.row))

/-- `np.all(np.diff(rows) == run)`. -/
def contiguous (rows : List Int) (run : Int) : Bool :=
  (rows.zip rows.tail).all fun x => int64 (x.2 - x.1) = run

/-- `state_runs`: the bytes of a run and the offsets. -/
def stateRuns (sh : Shape) (st : Strides) (tileBytes : Nat) :
    Option (Nat × List Nat) :=
  if !surfaceView sh st (2 * (tileBytes / 2)) then none
  else
    let rows := (loopRows sh).map (rowStart st)
    let offs := rows.map fun x => (x % 2 ^ 64).toNat
    let run := 2 * sh.w
    if rows ≠ [] ∧ contiguous rows run then
      some (run * rows.length, offs.take 1)
    else some (run, offs)

/-! ## The C code -/

/-- `row_offset`. -/
def rowOffset (r : Nat × Nat × Nat) (c plane row w size : Nat) : Option Nat :=
  let (i, j, k) := r
  let line := (i * c + j) % 2 ^ 64
  let off := line * plane + k * row
  if 2 ^ 64 ≤ line * plane ∨ 2 ^ 64 ≤ k * row ∨ 2 ^ 64 ≤ off ∨
      2 ^ 64 ≤ w * 2 then none
  else if size < off ∨ size - off < w * 2 then none
  else some off

/-- The place of a row in the dense array.  The array exists, so the place does
not wrap. -/
def denseRow (sh : Shape) (r : Nat × Nat × Nat) : Nat :=
  (r.1 * sh.c + r.2.1) * sh.h + r.2.2

/-- `surface_pack_f16`. -/
def surfacePackF16 (sh : Shape) (plane row : Nat) (dense dst : Bytes) :
    Option Bytes :=
  (loopRows sh).foldlM (fun buf r =>
    (rowOffset r sh.c plane row sh.w dst.length).map fun off =>
      blit buf off (slice dense (2 * sh.w * denseRow sh r) (2 * sh.w))) dst

/-- `surface_unpack`. -/
def surfaceUnpack (sh : Shape) (plane row : Nat) (src dense : Bytes) :
    Option Bytes :=
  (loopRows sh).foldlM (fun buf r =>
    (rowOffset r sh.c plane row sh.w src.length).map fun off =>
      blit buf (2 * sh.w * denseRow sh r) (slice src off (2 * sh.w))) dense

/-- `_dims`: the strides that the C code takes. -/
def dims (sh : Shape) (st : Strides) : Option (Nat × Nat) :=
  if sh.n < 1 ∨ sh.c < 1 ∨ sh.h < 1 ∨ sh.w < 1 ∨
      ¬ (0 ≤ st.plane ∧ st.plane < 2 ^ 62) ∨
      ¬ (0 ≤ st.row ∧ st.row < 2 ^ 62) then none
  else some (st.plane.toNat, st.row.toNat)

/-! ## Packing -/

/-- The bytes of a dense array. -/
def denseBytes (sh : Shape) : Nat := 2 * sh.w * (sh.n * sh.c * sh.h)

/-- `_fast_ok`. -/
def fastOk (sh : Shape) (st : Strides) : Bool :=
  sh.n == 1 || st.batch == sh.c * st.plane

/-- The byte offsets of the elements, as numpy walks a view. -/
def viewOffsets (sh : Shape) (st : Strides) : List Nat :=
  (loopRows sh).flatMap fun r => (List.range sh.w).map fun x : Nat =>
    (r.1 * st.batch + r.2.1 * st.plane + r.2.2 * st.row + x * st.elem).toNat

/-- `pack_surface`.  `fast` says whether the C code is there. -/
def packSurface (fast : Bool) (sh : Shape) (st : Strides) (dense : Bytes)
    (allocBytes : Nat) : Option Bytes :=
  let surf : Bytes := List.replicate (2 * (allocBytes / 2)) 0
  if fast && fastOk sh st then
    if !checkStrides sh st allocBytes then none
    else (dims sh st).bind fun (plane, row) =>
      if dense.length ≠ denseBytes sh then none
      else surfacePackF16 sh plane row dense surf
  else if !surfaceView sh st surf.length then none
  else some (scatter dense 2 (viewOffsets sh st) surf)

/-- `unpack_surface`.  The C code fills an array that numpy leaves
uninitialised (`junk`). -/
def unpackSurface (fast : Bool) (junk : Nat → UInt8) (raw : Bytes) (sh : Shape)
    (st : Strides) : Option Bytes :=
  if fast && fastOk sh st then
    if !checkStrides sh st raw.length then none
    else (dims sh st).bind fun (plane, row) =>
      surfaceUnpack sh plane row raw ((List.range (denseBytes sh)).map junk)
  else if raw.length % 2 ≠ 0 ∨ raw = [] then none
  else if !surfaceView sh st raw.length then none
  else some (gather raw 2 (viewOffsets sh st))

end OmarchyAne.AneSession
