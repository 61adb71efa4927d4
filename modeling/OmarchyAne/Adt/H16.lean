import OmarchyAne.Adt.Blob

/-!
# The reader of the H16 module (src/ane/h16/ane_h16_main.c)

This reader does not refuse a malformed tree.  What runs out of the blob ends
the walk at an empty node.  A subtree is skipped with a stack of counts, which
has a depth of 32.  Texts are compared without regard to the case.

The loop over a subtree has fuel.  In C it ends, since every turn consumes bytes
of the blob.
-/

namespace OmarchyAne.Adt

open Lib

/-- Why the reader stops. -/
inductive Err16 where
  | ENOENT
  | EOVERFLOW
  | EINVAL
  | EFBIG
  /-- The model ran out of fuel. -/
  | fuel
  deriving DecidableEq, Repr

/-- `ADT_MAX_LEN`. -/
def adtMaxLen : Nat := 2 ^ 30

/-- `ADT_MAX_DEPTH`. -/
def adtMaxDepth : Nat := 32

/-- `adt_node_at`. -/
def nodeAt16 (b : Blob) (off : Nat) : Node :=
  if b.len < off + 8 then { off := off, nprops := 0, nchildren := 0 }
  else b.node off

/-- The end of the properties, or nothing if they leave the blob. -/
def propsEnd16 (b : Blob) : Nat → Nat → Option Nat
  | 0, off => some off
  | n + 1, off =>
    if b.len < off + 36 then none
    else if b.len < off + 36 + pad4 (b.propLen off) then none
    else propsEnd16 b n (off + 36 + pad4 (b.propLen off))

/-- The `while` loop of `adt_subtree_end`: back to a depth where nodes are
left. -/
def popDone : List Nat → List Nat
  | 0 :: todo => popDone todo
  | todo => todo

/-- The loop of `adt_subtree_end`.  The counts are those of `todo`, the deepest
first. -/
def subtreeLoop16 (b : Blob) : Nat → Nat → List Nat → Except Err16 Nat
  | 0, _, _ => .error .fuel
  | fuel + 1, off, todo =>
    match popDone todo with
    | [] => .ok off
    | count :: todo =>
      if b.len < off + 8 then .ok b.len
      else
        match propsEnd16 b (b.le32 off) (off + 8) with
        | none => .ok b.len
        | some off' =>
          let nchildren := b.le32 (off + 4)
          if nchildren = 0 then subtreeLoop16 b fuel off' ((count - 1) :: todo)
          else if adtMaxDepth ≤ todo.length + 1 then .ok b.len
          else subtreeLoop16 b fuel off' (nchildren :: (count - 1) :: todo)

/-- `adt_subtree_end`. -/
def subtreeEnd16 (b : Blob) (fuel off : Nat) : Except Err16 Nat :=
  subtreeLoop16 b fuel off [1]

/-- The loop over the properties in `adt_child`.  A header outside the blob
only ends the loop. -/
def childProps16 (b : Blob) : Nat → Nat → Option Nat
  | 0, off => some off
  | n + 1, off =>
    if b.len < off + 36 then some off
    else if b.len < off + 36 + pad4 (b.propLen off) then none
    else childProps16 b n (off + 36 + pad4 (b.propLen off))

/-- One turn of the loop over the siblings.  The loop ends at the end of the
blob, so the offset stays there. -/
def skip16 (b : Blob) (fuel off : Nat) : Except Err16 Nat :=
  if b.len < off + 8 then .ok off else subtreeEnd16 b fuel off

/-- `adt_child`. -/
def child16 (b : Blob) (fuel : Nat) (n : Node) (idx : Nat) : Except Err16 Node :=
  match childProps16 b n.nprops (n.off + 8) with
  | none => .ok (nodeAt16 b b.len)
  | some off => do
    let off ← repeatM (skip16 b fuel) idx off
    return nodeAt16 b off

/-- The loop of `adt_prop`. -/
def propLoop16 (b : Blob) (name : Bytes) : Nat → Nat → Except Err16 (Nat × Nat)
  | 0, _ => .error .ENOENT
  | n + 1, off =>
    let extent := off + 36 + pad4 (b.propLen off)
    if b.len < off + 36 then .error .ENOENT
    else if b.len < extent then .error .EOVERFLOW
    else if sameText tolower b.byte 32 off name then
      .ok (off + 36, b.propLen off)
    else if 2 ^ 32 - 1 < extent then .error .EOVERFLOW
    else propLoop16 b name n extent

/-- `adt_prop`. -/
def prop16 (b : Blob) (n : Node) (name : Bytes) : Except Err16 (Nat × Nat) :=
  propLoop16 b name n.nprops (n.off + 8)

/-- The first test of `adt_find_ane`. -/
def isArmIo16 (b : Blob) (c : Node) : Bool :=
  match prop16 b c nameText with
  | .error _ => false
  | .ok (data, size) =>
    decide (7 ≤ size) && sameText tolower b.byte 7 data armIoText

/-- The second test. -/
def isAne16 (b : Blob) (aneType : Nat) (c : Node) : Bool :=
  match prop16 b c aneTypeText with
  | .error _ => false
  | .ok (data, size) => decide (4 ≤ size) && b.le32 data == aneType

/-- The first child that passes a test. -/
def findChild16 (b : Blob) (fuel : Nat) (parent : Node) (test : Node → Bool) :
    Except Err16 Node := do
  let found ← firstM (fun i => do
    let c ← child16 b fuel parent i
    return if test c then some c else none) parent.nchildren 0
  match found with
  | some c => .ok c
  | none => .error .ENOENT

/-- `adt_find_ane`. -/
def findAne16 (b : Blob) (fuel aneType : Nat) : Except Err16 Node := do
  let armIo ← findChild16 b fuel (nodeAt16 b 0) (isArmIo16 b)
  findChild16 b fuel armIo (isAne16 b aneType)

/-- Entry `i` of the segment ranges at `data`.  The last of four words has the
size in its low half. -/
def entry16 (b : Blob) (data stride i : Nat) : Seg where
  phys := b.le64 (data + i * stride)
  iova := b.le64 (data + i * stride + if stride = 32 then 16 else 8)
  size := if stride = 32 then b.le64 (data + i * stride + 24) % 2 ^ 32
    else b.le64 (data + i * stride + 16)

/-- `ane_h16_seg_decode`. -/
def segDecode16 (b : Blob) (data size : Nat) : Except Err16 (Seg × Seg) :=
  if size % 2 ≠ 0 ∨ size / 2 ≠ 24 ∧ size / 2 ≠ 32 then .error .EINVAL
  else .ok (entry16 b data (size / 2) 0, entry16 b data (size / 2) 1)

/-- The node of the engine and its segments, as `ane_h16_segments` reads them.
`ane_h16_adt_open` refuses a large blob. -/
def read16 (b : Blob) (fuel aneType : Nat) : Except Err16 (Node × Seg × Seg) :=
  if adtMaxLen < b.len then .error .EFBIG
  else if (nodeAt16 b 0).nchildren = 0 then .error .EINVAL
  else do
    let ane ← findAne16 b fuel aneType
    let (data, size) ← prop16 b ane segmentRangesText
    let segs ← segDecode16 b data size
    return (ane, segs)

end OmarchyAne.Adt
