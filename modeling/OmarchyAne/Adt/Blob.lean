import OmarchyAne.Lib.Repeat
import OmarchyAne.Lib.Bytes

/-!
# The boot device tree of Apple

A node is two counts, its properties and then its children.  A property is a
name of 32 bytes, a length and the value, padded to 4 bytes.  The root is at the
start of the blob.

A blob is memory with a length.  The readers also compare texts, which may run
over the end of the blob, so there are bytes behind it.
-/

namespace OmarchyAne.Adt

open Lib

/-- The memory from the start of the blob on, and the length of the blob. -/
structure Blob where
  byte : Nat → UInt8
  len : Nat

/-- A node, with its counts. -/
structure Node where
  off : Nat
  nprops : Nat
  nchildren : Nat
  deriving DecidableEq, Repr

/-- A firmware segment. -/
structure Seg where
  phys : Nat
  iova : Nat
  size : Nat
  deriving DecidableEq, Repr

/-- A value of an `u32`. -/
def u32 (n : Nat) : Nat := n % 2 ^ 32

namespace Blob

variable (b : Blob)

def le32 (off : Nat) : Nat :=
  leValue [b.byte off, b.byte (off + 1), b.byte (off + 2), b.byte (off + 3)]

def le64 (off : Nat) : Nat := b.le32 off + 2 ^ 32 * b.le32 (off + 4)

/-- The node at an offset, whatever is there. -/
def node (off : Nat) : Node where
  off := off
  nprops := b.le32 off
  nchildren := b.le32 (off + 4)

/-- The length of a property.  Bit 31 is a flag. -/
def propLen (off : Nat) : Nat := b.le32 (off + 32) % 2 ^ 31

end Blob

/-- The length with the padding. -/
def pad4 (n : Nat) : Nat := (n + 3) / 4 * 4

/-- `strncmp(s, name, n) == 0`, or `strncasecmp` with `fold` for both sides. -/
def sameText (fold : UInt8 → UInt8) (byte : Nat → UInt8) :
    Nat → Nat → Bytes → Bool
  | 0, _, _ => true
  | n + 1, off, name =>
    let c := name.headD 0
    fold (byte off) == fold c &&
      (c == 0 || sameText fold byte n (off + 1) name.tail)

/-- `tolower` of the kernel, on Latin-1. -/
def tolower (c : UInt8) : UInt8 :=
  if 0x41 ≤ c ∧ c ≤ 0x5a ∨ 0xc0 ≤ c ∧ c ≤ 0xde ∧ c ≠ 0xd7 then c + 0x20 else c

/-- A blob with zeros behind it. -/
def blobOf (bs : Bytes) : Blob where
  byte i := bs.getD i 0
  len := bs.length

/-- `"name"`. -/
def nameText : Bytes := ascii "name"

/-- `"arm-io"`. -/
def armIoText : Bytes := ascii "arm-io"

/-- `"ane-type"`. -/
def aneTypeText : Bytes := ascii "ane-type"

/-- `"segment-ranges"`. -/
def segmentRangesText : Bytes := ascii "segment-ranges"

end OmarchyAne.Adt
