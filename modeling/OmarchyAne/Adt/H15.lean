import OmarchyAne.Adt.Blob

/-!
# The reader of the H15 module (src/ane/h15/ane_h15_adt.h)

The reader walks the whole tree once, refuses what is malformed, and then looks
for the child of `/arm-io` with an `ane-type`.  Offsets are `u32`.

The walk is recursive in C.  The fuel bounds its depth; a result does not depend
on it (`subtreeEnd15_mono`).
-/

namespace OmarchyAne.Adt

open Lib

/-- `ANE_H15_ENOENT` and `ANE_H15_EFORMAT`. -/
inductive Err15 where
  | ENOENT
  | EFORMAT
  deriving DecidableEq, Repr

/-- `ane_h15_adt_node_at`. -/
def nodeAt15 (b : Blob) (off : Nat) : Except Err15 Node :=
  if b.len < u32 (off + 8) then .error .EFORMAT
  else
    let nprops := b.le32 off
    let nchildren := b.le32 (u32 (off + 4))
    if 4096 < nprops ∨ 4096 < nchildren then .error .EFORMAT
    else .ok { off := off, nprops := nprops, nchildren := nchildren }

/-- The loop over the properties that `ane_h15_adt_subtree_end` and
`ane_h15_adt_nth_child_off` share: the end of the properties. -/
def propsEnd15 (b : Blob) : Nat → Nat → Except Err15 Nat
  | 0, off => .ok off
  | n + 1, off =>
    if b.len < u32 (off + 36) then .error .EFORMAT
    else propsEnd15 b n (u32 (off + (36 + pad4 (b.propLen off))))

/-- `ane_h15_adt_subtree_end`. -/
def subtreeEnd15 (b : Blob) : Nat → Node → Except Err15 Nat
  | 0, _ => .error .EFORMAT
  | fuel + 1, n => do
    let off ← propsEnd15 b n.nprops (u32 (n.off + 8))
    let off ← repeatM (fun off => do
      let c ← nodeAt15 b off
      subtreeEnd15 b fuel c) n.nchildren off
    if b.len < off then .error .EFORMAT else .ok off

/-- The end of the subtree at an offset. -/
def skip15 (b : Blob) (fuel off : Nat) : Except Err15 Nat := do
  let c ← nodeAt15 b off
  subtreeEnd15 b fuel c

/-- `ane_h15_adt_nth_child_off`. -/
def nthChildOff15 (b : Blob) (fuel : Nat) (parent : Node) (i : Nat) :
    Except Err15 Nat :=
  if parent.nchildren ≤ i then .error .ENOENT
  else do
    let off ← propsEnd15 b parent.nprops (u32 (parent.off + 8))
    repeatM (skip15 b fuel) i off

/-- The loop of `ane_h15_adt_prop`. -/
def propLoop15 (b : Blob) (name : Bytes) : Nat → Nat → Except Err15 (Nat × Nat)
  | 0, _ => .error .ENOENT
  | n + 1, off =>
    if b.len < u32 (off + 36) then .error .EFORMAT
    else if b.len < u32 (off + 36 + pad4 (b.propLen off)) then .error .EFORMAT
    else if sameText id b.byte 32 off name then .ok (off + 36, b.propLen off)
    else propLoop15 b name n (u32 (off + (36 + pad4 (b.propLen off))))

/-- `ane_h15_adt_prop`: the place of the value and its length. -/
def prop15 (b : Blob) (n : Node) (name : Bytes) : Except Err15 (Nat × Nat) :=
  propLoop15 b name n.nprops (u32 (n.off + 8))

/-- The test of `ane_h15_adt_child_named`. -/
def isNamed15 (b : Blob) (name : Bytes) (c : Node) : Bool :=
  match prop15 b c nameText with
  | .error _ => false
  | .ok (nm, size) =>
    decide (0 < size) && sameText id b.byte name.length nm name &&
      b.byte (nm + name.length) == 0

/-- The child of a node at an index. -/
def child15 (b : Blob) (fuel : Nat) (parent : Node) (i : Nat) :
    Except Err15 Node := do
  let off ← nthChildOff15 b fuel parent i
  nodeAt15 b off

/-- `ane_h15_adt_child_named`. -/
def childNamed15 (b : Blob) (fuel : Nat) (parent : Node) (name : Bytes) :
    Except Err15 Node := do
  let found ← firstM (fun i => do
    let c ← child15 b fuel parent i
    return if isNamed15 b name c then some c else none) parent.nchildren 0
  match found with
  | some c => .ok c
  | none => .error .ENOENT

/-- The test of the loop in `ane_h15_adt_find_ane`. -/
def isAne15 (b : Blob) (aneType : Nat) (c : Node) : Except Err15 Bool :=
  match prop15 b c aneTypeText with
  | .error .ENOENT => .ok false
  | .error e => .error e
  | .ok (data, size) => .ok (decide (4 ≤ size) && b.le32 data == aneType)

/-- `ane_h15_adt_find_ane`. -/
def findAne15 (b : Blob) (fuel aneType : Nat) : Except Err15 Node :=
  if b.len < 8 then .error .EFORMAT
  else do
    let root ← nodeAt15 b 0
    let _ ← subtreeEnd15 b fuel root
    let armIo ← childNamed15 b fuel root armIoText
    let found ← firstM (fun i => do
      let c ← child15 b fuel armIo i
      let yes ← isAne15 b aneType c
      return if yes then some c else none) armIo.nchildren 0
    match found with
    | some c => .ok c
    | none => .error .ENOENT

/-- Entry `i` of the segment ranges at `data`. -/
def entry15 (b : Blob) (data stride i : Nat) : Seg where
  phys := b.le64 (data + i * stride)
  iova := b.le64 (data + i * stride + if stride = 32 then 16 else 8)
  size := b.le64 (data + i * stride + if stride = 32 then 24 else 16)

/-- A turn of the loop in `ane_h15_adt_segments`. -/
def segment15 (b : Blob) (data stride i : Nat) : Except Err15 Seg :=
  if b.len < data + i * stride + stride then .error .EFORMAT
  else
    let s := entry15 b data stride i
    if s.phys = 0 ∨ s.iova = 0 ∨ s.size = 0 then .error .EFORMAT
    else if s.size % 4 ≠ 0 then .error .EFORMAT
    else .ok s

/-- `ane_h15_adt_segments`. -/
def segments15 (b : Blob) (ane : Node) (textExpect dataMin : Nat) :
    Except Err15 (Seg × Seg) := do
  let (data, size) ← prop15 b ane segmentRangesText
  if size % 2 ≠ 0 then .error .EFORMAT
  else
    let stride := size / 2
    if stride ≠ 24 ∧ stride ≠ 32 then .error .EFORMAT
    else do
      let text ← segment15 b data stride 0
      let dat ← segment15 b data stride 1
      if textExpect ≠ 0 ∧ text.size ≠ textExpect then .error .EFORMAT
      else if dataMin ≠ 0 ∧ dat.size < dataMin then .error .EFORMAT
      else .ok (text, dat)

/-- The node of the engine and its segments. -/
def read15 (b : Blob) (fuel aneType textExpect dataMin : Nat) :
    Except Err15 (Node × Seg × Seg) := do
  let ane ← findAne15 b fuel aneType
  let segs ← segments15 b ane textExpect dataMin
  return (ane, segs)

end OmarchyAne.Adt
