import OmarchyAne.Lib.Memory
import OmarchyAne.Lib.Traced

/-!
# The validator of the firmware image (src/ane/t6021/ane_fw_validate.h)

`ane_fw_validate_blob` compares a candidate with a pinned image: its size, its
hash, the header of the Mach-O file, and then each load command.  The hash is an
argument, so the bytes of the blob are any bytes for the walk that follows.

The walk leaves a trace: what it reads of the blob, what it writes to the
segments of the caller, and how its cursor moves.  Offsets are `u32`, so sums of
them wrap.  A sum with the address of the blob does not.  Behind the check of
the size, the size of the blob is that of the image.
-/

namespace OmarchyAne.T6021

open Lib

/-- `struct ane_fw_seg`, with the name in 16 bytes. -/
structure FwSeg where
  vmaddr : Nat
  vmsize : Nat
  fileoff : Nat
  filesize : Nat
  name : Bytes
  deriving DecidableEq, Repr

/-- `ANE_FW_NCMDS`. -/
def fwNcmds : Nat := 5

/-- `ANE_FW_SIZEOF_CMDS`. -/
def fwSizeofCmds : Nat := 0x960

/-- `ANE_FW_NSEGS`. -/
def fwNsegs : Nat := 2

/-- The end of the load commands, behind the header of 32 bytes. -/
def fwArea : Nat := 32 + fwSizeofCmds

/-- `struct ane_fw_image`: what the validator reads of it. -/
structure FwImage where
  sha256 : Bytes
  size : Nat
  segs : List FwSeg
  segs_length : segs.length = fwNsegs
  /-- The fields of a segment command that starts in the area are inside. -/
  covers : fwArea + 48 ≤ size

/-- A name in a field of 16 bytes. -/
def fwName (s : String) : Bytes := ascii s ++ List.replicate (16 - s.length) 0

/-- `ane_fw_selene`. -/
def fwSelene : FwImage where
  sha256 := [0xa9, 0xc4, 0xb7, 0x71, 0x29, 0x4a, 0x6b, 0x11, 0x56, 0x24, 0xd9,
    0x48, 0x0a, 0x62, 0x48, 0xd0, 0x89, 0x9a, 0x16, 0x81, 0xa5, 0x75, 0xe8,
    0x65, 0x07, 0x0b, 0x87, 0xa3, 0x24, 0x84, 0x27, 0xbc]
  size := 0x4c5b28
  segs := [⟨0x000000, 0x0c4000, 0x004000, 0x0c4000, fwName "__TEXT"⟩,
    ⟨0x0c4000, 0x438000, 0x0c8000, 0x3e8000, fwName "__DATA"⟩]
  segs_length := rfl
  covers := by decide

/-- `ane_fw_bia`. -/
def fwBia : FwImage where
  sha256 := [0xaf, 0x58, 0x7d, 0xfa, 0x96, 0xb1, 0xe0, 0x1d, 0x2b, 0x2e, 0x0f,
    0x9f, 0x77, 0x6e, 0x5d, 0xbe, 0xfe, 0xbb, 0x44, 0xc7, 0x96, 0x8b, 0x86,
    0xff, 0xf7, 0xd2, 0xb1, 0x9c, 0x4c, 0xbe, 0xf0, 0xdd]
  size := 0x4b5b38
  segs := [⟨0x000000, 0x0b4000, 0x004000, 0x0b4000, fwName "__TEXT"⟩,
    ⟨0x0b4000, 0x438000, 0x0b8000, 0x3e8000, fwName "__DATA"⟩]
  segs_length := rfl
  covers := by decide

/-- What the validator does. -/
inductive FwEv where
  /-- It reads `n` bytes of the blob. -/
  | read (off n : Nat)
  /-- It writes `segs_out[idx]`. -/
  | write (idx : Nat) (seg : FwSeg)
  /-- It goes to the next load command. -/
  | cursor (off next : Nat)
  deriving DecidableEq, Repr

/-- Why the validator stops. -/
inductive FwStop where
  | reason (text : String)
  /-- The model ran out of fuel. -/
  | fuel
  deriving DecidableEq, Repr

abbrev FwM := Traced FwStop FwEv

def fwRefuse (text : String) {α : Type} : FwM α := .fail (.reason text)

/-- `get_unaligned_le32` and `get_unaligned_le64`. -/
def fwRead (blob : Mem) (off n : Nat) : FwM Nat := do
  Traced.emit (.read off n)
  return peekLe blob off n

/-- `LC_SEGMENT_64`. -/
def lcSegment : Nat := 0x19

/-- `LC_UNIXTHREAD`. -/
def lcUnixthread : Nat := 0x5

/-- `ARM_THREAD_STATE64`. -/
def armThreadState : Nat := 6

/-- The difference of two `u32`. -/
def sub32 (a b : Nat) : Nat := (a + 2 ^ 32 - b) % 2 ^ 32

section Walk

variable (blob : Mem)

/-- The loop over the pinned segments.  The name is compared last. -/
def findSeg (off vmaddr vmsize fileoff filesize : Nat) :
    List FwSeg → FwM (Option FwSeg)
  | [] => return none
  | s :: segs =>
    if vmaddr = s.vmaddr ∧ vmsize = s.vmsize ∧ fileoff = s.fileoff ∧
        filesize = s.filesize then do
      Traced.emit (.read (off + 8) 16)
      if peek blob (off + 8) 16 = s.name then return some s
      else findSeg off vmaddr vmsize fileoff filesize segs
    else findSeg off vmaddr vmsize fileoff filesize segs

/-- A segment command.  `segsOut` says that the caller wants the segments. -/
def segmentCmd (fw : FwImage) (segsOut : Bool) (off nsegs : Nat) : FwM Nat := do
  let vmaddr ← fwRead blob (off + 24) 8
  let vmsize ← fwRead blob (off + 32) 8
  let fileoff ← fwRead blob (off + 40) 8
  let filesize ← fwRead blob (off + 48) 8
  if fw.size < fileoff ∨ fw.size - fileoff < filesize then
    fwRefuse "segment file range out of bounds"
  else if vmsize < filesize then fwRefuse "filesize > vmsize"
  else do
    let found ← findSeg blob off vmaddr vmsize fileoff filesize fw.segs
    match found with
    | none => fwRefuse "segment != pinned layout"
    | some s =>
      if segsOut then do
        Traced.emit (.write nsegs s)
        return (nsegs + 1) % 2 ^ 32
      else return (nsegs + 1) % 2 ^ 32

/-- `p += 8 + count * 4`. -/
def nextThread (p count : Nat) : Nat := (p + (8 + count * 4) % 2 ^ 32) % 2 ^ 32

/-- The loop over the states of a thread command, at `p`. -/
def threadLoop (off cmdsize : Nat) : Nat → Nat → Nat → FwM Nat
  | 0, _, _ => .fail .fuel
  | fuel + 1, p, entry =>
    if (off + cmdsize) % 2 ^ 32 < (p + 8) % 2 ^ 32 then return entry
    else do
      let flavor ← fwRead blob p 4
      let count ← fwRead blob (p + 4) 4
      if sub32 (sub32 cmdsize (sub32 p off)) 8 / 4 < count then
        fwRefuse "thread state count out of bounds"
      else if flavor = armThreadState then
        if count < 66 ∨ (off + cmdsize) % 2 ^ 32 < (p + 8 + count * 4) % 2 ^ 32
        then fwRefuse "thread state too small for pc"
        else do
          let entry ← fwRead blob (p + 8 + 32 * 8) 8
          threadLoop off cmdsize fuel (nextThread p count) entry
      else threadLoop off cmdsize fuel (nextThread p count) entry

/-- The body of a load command: the number of segments and the entry. -/
def command (fw : FwImage) (segsOut : Bool) (off cmd cmdsize nsegs entry : Nat) :
    FwM (Nat × Nat) :=
  if cmd = lcSegment then do
    let nsegs ← segmentCmd blob fw segsOut off nsegs
    return (nsegs, entry)
  else if cmd = lcUnixthread then do
    let entry ← threadLoop blob off cmdsize (cmdsize + 1) ((off + 8) % 2 ^ 32)
      entry
    return (nsegs, entry)
  else return (nsegs, entry)

/-- `off + cmdsize`. -/
def nextCmd (off cmdsize : Nat) : Nat := (off + cmdsize) % 2 ^ 32

/-- The loop over the load commands. -/
def cmdLoop (fw : FwImage) (segsOut : Bool) :
    Nat → Nat → Nat → Nat → FwM (Nat × Nat)
  | 0, _, nsegs, entry => return (nsegs, entry)
  | n + 1, off, nsegs, entry =>
    if fwArea < (off + 8) % 2 ^ 32 ∨ fw.size < (off + 8) % 2 ^ 32 then
      fwRefuse "load command header out of bounds"
    else do
      let cmd ← fwRead blob off 4
      let cmdsize ← fwRead blob (off + 4) 4
      if cmdsize < 8 ∨ fwArea < nextCmd off cmdsize ∨
          fw.size < nextCmd off cmdsize then
        fwRefuse "cmdsize out of bounds"
      else do
        let (nsegs, entry) ← command blob fw segsOut off cmd cmdsize nsegs entry
        Traced.emit (.cursor off (nextCmd off cmdsize))
        cmdLoop fw segsOut n (nextCmd off cmdsize) nsegs entry

/-- The segments that are written at the end. -/
def writeSegs : Nat → List FwSeg → FwM Unit
  | _, [] => return ()
  | i, s :: segs => do
    Traced.emit (.write i s)
    writeSegs (i + 1) segs

/-- What follows the checks of the header. -/
def validateCmds (fw : FwImage) (segsOut : Bool) : FwM Nat := do
  let (nsegs, entry) ← cmdLoop blob fw segsOut fwNcmds 32 0 (2 ^ 64 - 1)
  if nsegs ≠ fwNsegs then fwRefuse "segment count != 2"
  else if entry ≠ 0 then fwRefuse "entry pc != 0"
  else if segsOut then do
    writeSegs 0 fw.segs
    return entry
  else return entry

/-- `ane_fw_validate_blob`: the entry. -/
def fwValidateBlob (size : Nat) (fw : FwImage) (actualSha : Bytes)
    (segsOut : Bool) : FwM Nat :=
  if size ≠ fw.size then fwRefuse "size != pinned image"
  else if fw.sha256 ≠ actualSha then fwRefuse "sha256 != pinned payload hash"
  else do
    let magic ← fwRead blob 0 4
    let cputype ← fwRead blob 4 4
    let filetype ← fwRead blob 12 4
    let ncmds ← fwRead blob 16 4
    let sizeofcmds ← fwRead blob 20 4
    let flags ← fwRead blob 24 4
    if magic ≠ 0xfeedfacf then fwRefuse "magic"
    else if cputype ≠ 0x0100000c then fwRefuse "cputype"
    else if filetype ≠ 5 then fwRefuse "filetype != MH_PRELOAD"
    else if ncmds ≠ fwNcmds ∨ sizeofcmds ≠ fwSizeofCmds ∨ flags ≠ 1 then
      fwRefuse "header fields != pinned image"
    else validateCmds blob fw segsOut

end Walk

end OmarchyAne.T6021
