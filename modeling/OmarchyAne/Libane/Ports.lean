import OmarchyAne.Lib.Checks
import OmarchyAne.Lib.Kernel
import Mathlib.Data.Fin.VecNotation
import Mathlib.Data.Fintype.Basic
import Mathlib.Tactic.FinCases

/-!
# The port-table build

`ane_m2_program_build_ports` turns an ANEC file and a port table into the six
sections of a LOAD_PROGRAM.  An ANEC is a header of `0x1000` bytes, the task
stream, and the constant region at the end of the payload.  The build refuses
a file that it cannot account for, with a text that says why.

A section is a block of memory (`Blob`), and `calloc` says which sizes can be
allocated.  `Built` is what an accepted file and its sections satisfy.  The
KERNEL section of a file without constants is empty (`Built.kernel_length`).
-/

namespace OmarchyAne.Libane

open Lib

/-! ## Bytes -/

def u8 (d : List UInt8) (i : Nat) : Nat := (d.getD i 0).toNat

def le16 (d : List UInt8) (i : Nat) : Nat := u8 d i ||| u8 d (i + 1) <<< 8

def le32 (d : List UInt8) (i : Nat) : Nat := le16 d i ||| le16 d (i + 2) <<< 16

def le64 (d : List UInt8) (i : Nat) : Nat := le32 d i ||| le32 d (i + 4) <<< 32

theorem or_shiftLeft_eq_add {a b n : Nat} (h : a < 2 ^ n) : a ||| b <<< n = a + b * 2 ^ n := by
  rw [Nat.or_comm, Nat.shiftLeft_eq, Nat.mul_comm b,
    ← Nat.two_pow_add_eq_or_of_lt h, Nat.add_comm]

theorem le32_lt (d : List UInt8) (i : Nat) : le32 d i < 2 ^ 32 := by
  have hbyte : ∀ j, u8 d j < 2 ^ 8 := fun j => UInt8.toNat_lt _
  have hhalf : ∀ j, le16 d j < 2 ^ 16 := by
    intro j
    rw [le16, or_shiftLeft_eq_add (hbyte j)]
    have h0 := hbyte j
    have h1 := hbyte (j + 1)
    omega
  rw [le32, or_shiftLeft_eq_add (hhalf i)]
  have h0 := hhalf i
  have h1 := hhalf (i + 2)
  omega

def putLe32 (d : List UInt8) (i v : Nat) : List UInt8 :=
  (((d.set i v.toUInt8).set (i + 1) (v >>> 8).toUInt8).set (i + 2)
    (v >>> 16).toUInt8).set (i + 3) (v >>> 24).toUInt8

def putLe64 (d : List UInt8) (i v : Nat) : List UInt8 :=
  putLe32 (putLe32 d i v) (i + 4) (v >>> 32)

/-- Some byte of `[lo, hi)` is not zero. -/
def anyNonzero (d : List UInt8) (lo hi : Nat) : Bool :=
  (List.range' lo (hi - lo)).any (fun i => u8 d i != 0)

/-! ## Failures and blocks -/

/-- Why a build stops. -/
structure Fail where
  err : Errno
  why : String
  deriving DecidableEq, Repr

abbrev Res := Except Fail

/-- `fail`. -/
def fail {α : Type} (why : String) : Res α :=
  .error { err := .EINVAL, why := why }

/-- Fail when `c` holds. -/
def refuse (c : Prop) [Decidable c] (why : String) : Res Unit :=
  stopIf c { err := .EINVAL, why := why }

@[simp] theorem refuse_eq_ok {c : Prop} [Decidable c] {why : String}
    {u : Unit} : refuse c why = .ok u ↔ ¬ c := stopIf_eq_ok

/-- A block of memory.  Its size is a 64-bit word. -/
abbrev Blob := { bytes : List UInt8 // bytes.length < 2 ^ 64 }

/-- `sec_alloc`, and the bytes that are written to the new block. -/
def secAlloc (calloc : Nat → Bool) (bytes : List UInt8) : Res Blob :=
  if h : bytes.length < 2 ^ 64 ∧ calloc bytes.length = true then
    .ok ⟨bytes, h.1⟩
  else .error { err := .ENOMEM, why := "" }

/-- `struct ane_m2_sections`: GENERIC, KERNEL, DESCRIPTOR, OPERATION,
PROCEDURE and TDPROP. -/
abbrev Sections := Fin 6 → Blob

instance sections_neZero : NeZero 6 := ⟨by decide⟩

def secKernel : Fin 6 := 1

/-! ## The model of a program -/

/-- `struct ane_m2_io`; `dir` is 0 for an input, 1 for an output and 2 for
the scratch. -/
structure Io where
  bufferId : Nat
  dir : Nat
  size : Nat
  deriving DecidableEq, Repr

/-- What the port-table build uses of `struct ane_m2_ref`. -/
structure Ref where
  slot : Nat
  tag : Nat
  deriving DecidableEq, Repr

/-- `struct ane_m2_model`, with one list of references per call. -/
structure Model where
  io : List Io
  scratchIoIndex : Option Nat
  calls : List (List Ref)
  deriving DecidableEq, Repr

/-- `struct ane_m2_port_spec`. -/
structure PortSpec where
  dir : UInt32
  bufferId : UInt32
  barSlot : UInt32
  tileBytes : UInt64
  deriving DecidableEq, Repr

/-- `struct ane_task`. -/
structure Task where
  off : Nat
  words : Nat
  deriving DecidableEq, Repr

/-- `ANEC_M2_HEADER_SIZE`. -/
def anecHeaderSize : Nat := 0x1000

/-- `FRAME_BYTES`. -/
def frameBytes : Nat := 16

/-- `TILE_COUNT`. -/
def tileCount : Nat := 0x20

/-- `ANE_M2_SCRATCH_BUFID`. -/
def scratchBufid : Nat := 0x40

/-- `ANE_M2_MAX_BINDS`. -/
def maxBinds : Nat := 64

/-! ## The task stream -/

/-- The loop of `split_h14_tasks` from `off` on.  Each turn moves on, so the
length of the stream is enough fuel. -/
def splitLoop (stream : List UInt8) (bytes cap : Nat) :
    Nat → Nat → List Task → Res (List Task)
  | 0, _, tasks => .ok tasks
  | fuel + 1, off, tasks =>
    if bytes ≤ off then .ok tasks
    else if bytes - off < 4 then
      if anyNonzero stream off bytes then
        fail "nonzero trailing bytes after the last task"
      else .ok tasks
    else
      let words := le16 stream (off + 2) &&& 0x7ff
      if words = 0 then
        -- A filler frame.
        splitLoop stream bytes cap fuel (min (off + frameBytes) bytes) tasks
      else if words < 8 then
        fail "task declares fewer words than the 8-word H14 header"
      else if bytes - off < words * 4 then
        fail "task declares more words than the task stream holds"
      else
        let stop := min ((off + words * 4 + 15) / 16 * 16) bytes
        if anyNonzero stream (off + words * 4) stop then
          fail "nonzero bytes in a 16-byte task alignment gap"
        else if tasks.length = cap then
          fail "more tasks than the builder envelope holds"
        else
          splitLoop stream bytes cap fuel stop
            (tasks ++ [{ off := off, words := words }])

/-- `split_h14_tasks`. -/
def splitH14Tasks (stream : List UInt8) (cap : Nat) : Res (List Task) :=
  splitLoop stream stream.length cap stream.length 0 []

/-- The loop of `tdprop_block_count`: the last block and how many there
are. -/
def tdpropLoop (desc : List UInt8) (size : Nat) :
    Nat → Nat → Nat → Nat → Res (Nat × Nat)
  | 0, _, last, walked => .ok (last, walked)
  | fuel + 1, cur, last, walked =>
    if size ≤ cur then .ok (last, walked)
    else if size - cur < 4 then fail "tdprop block header is truncated"
    else
      let blk := le16 desc (cur + 2) &&& 0x7ff
      if blk = 0 then fail "tdprop walk hit a zero block word"
      else
        tdpropLoop desc size fuel (cur + ((blk <<< 2 + 0xf) &&& 0x3ff0)) cur
          (walked + 1)

/-- `tdprop_block_count`. -/
def tdpropBlockCount (desc : List UInt8) : Res Nat := do
  let size := desc.length
  refuse (size < 4) "tdprop header is truncated"
  let w0 := le32 desc 0
  let stride := if w0 &&& 4 ≠ 0 then 0x30 else 0x10
  let (last, walked) ← tdpropLoop desc size size stride 0 0
  let tail := w0 &&& 1 != 0 && decide (stride < size)
  refuse (tail ∧ size - last < 0x1c) "tdprop tail word is truncated"
  refuse (tail ∧ le32 desc (last + 0x18) ≠ 0) "tdprop tail word not zero"
  return walked

/-! ## The records of a task -/

/-- The payload words of a record with header word `h`. -/
def recordWords (h : Nat) : Nat :=
  if h &&& 0x80000000 ≠ 0 then
    1 + (List.range 16).countP (fun i => (h >>> 15).testBit i)
  else (h >>> 15 &&& 0x3f) + 1

/-- A dense record that refers to a BAR slot. -/
def isBarRef (h : Nat) : Bool :=
  h &&& 0x80000000 == 0 && h &&& 0x20000000 != 0

/-- The size of the buffer that the references bind to a slot: the constant
region for tag 2, the io record with the tag as its id otherwise. -/
def boundSize (m : Model) (krnSize slot : Nat) : Option Nat :=
  (m.calls.headD []).foldl (fun bound ref =>
    if ref.slot ≠ slot then bound
    else
      some (m.io.foldl (fun size io => if io.bufferId = ref.tag then io.size else size)
        (if ref.tag = 2 then krnSize else 0))) none

/-- The record loop of `check_bound_slots` in the task at `tp`. -/
def checkRecords (desc : List UInt8) (m : Model) (krnSize tp words : Nat) :
    Nat → Nat → Res Unit
  | 0, _ => .ok ()
  | fuel + 1, idx =>
    if words ≤ idx then .ok ()
    else
      let h := le32 desc (tp + idx * 4)
      let n := recordWords h
      let slot := h >>> 23 &&& 0x3f
      if words < idx + 1 + n then
        fail "record declares more payload words than its task holds"
      else if !isBarRef h then
        checkRecords desc m krnSize tp words fuel (idx + 1 + n)
      else
        let off := le32 desc (tp + (idx + 1) * 4) |||
          if 1 < n then le32 desc (tp + (idx + 2) * 4) <<< 32 else 0
        match boundSize m krnSize slot with
        | none => fail "task-stream BAR slot has no binding in the port table"
        | some size =>
          if size ≤ off then
            fail "BAR-ref offset lies outside its bound buffer"
          else checkRecords desc m krnSize tp words fuel (idx + 1 + n)

/-- The first record of a task. -/
def firstRecord (desc : List UInt8) (tp : Nat) : Nat :=
  if le32 desc (tp + 28) &&& 3 = 3 then 9 else 8

/-- `check_bound_slots`. -/
def checkBoundSlots (desc : List UInt8) (tasks : List Task) (m : Model)
    (krnSize : Nat) : Res Unit :=
  tasks.forM (fun t =>
    checkRecords desc m krnSize t.off t.words t.words
      (firstRecord desc t.off))

/-! ## The sections -/

def zeros (n : Nat) : List UInt8 := List.replicate n 0

/-- The entry of an io record in the GENERIC section.  The scratch stands
there as an input. -/
def genericEntry (io : Io) : List UInt8 :=
  let typeField := if io.dir = 2 then 0 else io.dir
  let dirField := if io.dir = 2 then 1 else if io.dir ≠ 0 then 2 else 1
  let e := putLe32 (putLe32 (zeros 0x30) 0x00 1) 0x04 io.bufferId
  let e := putLe32 (putLe32 e 0x08 typeField) 0x10 dirField
  putLe32 (putLe64 e 0x20 io.size) 0x28 0xffff

def genericSection (m : Model) : List UInt8 :=
  let hdr := putLe32 (putLe32 (zeros 0x208) 0x00 1) 0x04 0x10
  putLe32 hdr 0x204 m.io.length ++ m.io.flatMap genericEntry

/-- The record of a call in the OPERATION section. -/
def operationRecord (refs : List Ref) : List UInt8 :=
  let pairs := refs.flatMap (fun r =>
    putLe32 (putLe32 (zeros 8) 0 r.slot) 4 r.tag)
  putLe32 (zeros 0x0c) 0x08 refs.length ++ pairs ++
    zeros (0x400 - pairs.length)

def operationSection (m : Model) : List UInt8 :=
  putLe32 (zeros 4) 0 m.calls.length ++ m.calls.flatMap operationRecord

def procedureSection : List UInt8 :=
  let p := putLe64 (putLe64 (putLe32 (zeros 0x38) 0 1) 0x08 0x18) 0x10 0x20
  let p := putLe32 (putLe32 (putLe32 p 0x18 1) 0x1c 3) 0x20 0
  let p := putLe32 (putLe32 (putLe32 p 0x24 0) 0x28 1) 0x2c 0
  putLe32 (putLe32 p 0x30 0xffffffff) 0x34 4

def tdpropSection (blocks tskSize : Nat) : List UInt8 :=
  let t := putLe32 (putLe32 (zeros 40) 0 1) 0x0c blocks
  putLe64 t 0x20 tskSize

/-- `emit_io_sections`: GENERIC, OPERATION, PROCEDURE and TDPROP. -/
def emitIoSections (calloc : Nat → Bool) (m : Model) (desc : List UInt8) :
    Res (Blob × Blob × Blob × Blob) := do
  let gen ← secAlloc calloc (genericSection m)
  let oper ← secAlloc calloc (operationSection m)
  let proc ← secAlloc calloc procedureSection
  let blocks ← tdpropBlockCount desc
  refuse (blocks = 0)
    ("tdprop walk found no block; the firmware deep check would reject " ++ "the descriptor")
  let tdp ← secAlloc calloc (tdpropSection blocks desc.length)
  return (gen, oper, proc, tdp)

/-! ## The build -/

/-- What the port-table build reads of the header. -/
structure Header where
  firstTask : Nat
  taskCount : Nat
  tskSize : Nat
  krnSize : Nat
  inputCount : Nat
  deriving DecidableEq, Repr

/-- Read the header and check it against the length of the file. -/
def readHeader (anec : List UInt8) : Res Header := do
  refuse (anec.length < anecHeaderSize)
    "anec shorter than the H14 header layout"
  let payload := le64 anec 0
  let krnSize := le64 anec 0x18
  let tskSize := le64 anec 0x10
  refuse (payload ≠ anec.length - anecHeaderSize)
    "header payload size disagrees with file size"
  refuse (le32 anec 0x24 ≠ 1)
    "anec header version word is not the emitted 1"
  refuse (payload < krnSize)
    "constant region is larger than the payload"
  refuse ((payload - krnSize) % 64 ≠ 0)
    "constant region is not 64-byte aligned"
  refuse (payload - krnSize < tskSize)
    "task stream reaches into the constant region"
  return {
    firstTask := le32 anec 0x08
    taskCount := le32 anec 0x0c
    tskSize := tskSize
    krnSize := krnSize
    inputCount := le32 anec 0x20 }

/-- The checks of one port against those in front of it. -/
def checkPort (seen : List PortSpec) (p : PortSpec) : Res Unit := do
  refuse (p.tileBytes = 0 ∨ p.tileBytes.toNat % 0x4000 ≠ 0)
    "port tile_bytes must be a positive multiple of 0x4000"
  refuse (2 < p.dir.toNat)
    "port dir must be 0 (input), 1 (output) or 2 (scratch)"
  refuse (if p.dir = 2 then p.bufferId.toNat ≠ scratchBufid
      else tileCount ≤ p.bufferId.toNat ∨ p.bufferId = 2 ∨
        p.bufferId = 3)
    "port buffer_id collides with a section id or is out of range"
  refuse (p.barSlot.toNat < 2 ∨ 0x3c < p.barSlot.toNat)
    "port bar_slot outside BAR slots 2..60"
  refuse (seen.any (fun q =>
      q.bufferId == p.bufferId || q.barSlot == p.barSlot))
    "two ports share a buffer_id or a BAR slot"

/-- The port loop. -/
def checkPorts : List PortSpec → List PortSpec → Res Unit
  | _, [] => .ok ()
  | seen, p :: ports => do
    checkPort seen p
    checkPorts (seen ++ [p]) ports

/-- The ports of a direction. -/
def portCount (ports : List PortSpec) (dir : UInt32) : Nat :=
  ports.countP (fun p => p.dir == dir)

/-- The io table: inputs, outputs, scratch, each in the order of the
caller. -/
def ioTable (ports : List PortSpec) : List Io :=
  [0, 1, 2].flatMap (fun dir =>
    (ports.filter (fun p => p.dir == dir)).map (fun p =>
      { bufferId := p.bufferId.toNat, dir := dir.toNat,
        size := p.tileBytes.toNat }))

/-- One turn of the insertion sort: the new reference moves left past the
larger slots. -/
def insertRef (sorted : List Ref) (r : Ref) : List Ref :=
  let larger := fun q : Ref => decide (r.slot < q.slot)
  (sorted.reverse.dropWhile larger).reverse ++
    r :: (sorted.reverse.takeWhile larger).reverse

/-- The references: the kernel pair and one pair per port, by slot. -/
def portRefs (ports : List PortSpec) : List Ref :=
  ({ slot := 1, tag := 2 } :: ports.map (fun p =>
    ({ slot := p.barSlot.toNat, tag := p.bufferId.toNat } : Ref))).foldl
    insertRef []

/-- The model of a port table. -/
def portModel (ports : List PortSpec) : Model where
  io := ioTable ports
  scratchIoIndex := (ioTable ports).findIdx? (fun io => io.dir == 2)
  calls := [portRefs ports]

/-- The checks of the task stream against the header and the model. -/
def checkStream (desc : List UInt8) (hdr : Header) (m : Model) :
    Res Unit := do
  refuse (hdr.tskSize / 32 < hdr.taskCount)
    "header taskCount exceeds what the task stream holds"
  let tasks ← splitH14Tasks desc hdr.taskCount
  match tasks with
  | [] => fail "the task stream holds no task"
  | first :: _ =>
    refuse (tasks.length ≠ hdr.taskCount)
      "walked task count disagrees with the header taskCount"
    refuse (hdr.firstTask ≠ first.words * 4)
      "firstTaskBytes disagrees with the walked first task"
    checkBoundSlots desc tasks m hdr.krnSize

/-- `ane_m2_program_build_ports_inner`. -/
def programBuildPortsInner (calloc : Nat → Bool) (anec : List UInt8)
    (ports : List PortSpec) : Res (Model × Sections) := do
  let hdr ← readHeader anec
  checkPorts [] ports
  refuse (portCount ports 0 ≠ hdr.inputCount ∨ portCount ports 1 = 0 ∨ 1 < portCount ports 2)
    ("port table must have input_count inputs, at least one output and " ++ "at most one scratch")
  let m := portModel ports
  refuse (hdr.tskSize < frameBytes)
    "task stream is shorter than one frame"
  let payload := anec.drop anecHeaderSize
  let desc ← secAlloc calloc (payload.take hdr.tskSize)
  refuse (anyNonzero desc.val 0 frameBytes) "task frame not zero"
  checkStream desc.val hdr m
  let kern ← secAlloc calloc (payload.drop (payload.length - hdr.krnSize))
  let (gen, oper, proc, tdp) ← emitIoSections calloc m desc.val
  return (m, ![gen, kern, desc, oper, proc, tdp])

/-- `ane_m2_program_build_ports`. -/
def programBuildPorts (calloc : Nat → Bool) (anec : List UInt8)
    (ports : List PortSpec) : Res (Model × Sections) := do
  refuse (ports.length = 0) "port list is empty"
  refuse (maxBinds ≤ ports.length)
    "port list and the kernel pair exceed ANE_M2_MAX_BINDS"
  programBuildPortsInner calloc anec ports

/-! ## What a build establishes -/

variable {calloc : Nat → Bool} {anec : List UInt8} {ports : List PortSpec}
  {hdr : Header} {m : Model} {secs : Sections}

/-- The facts that an accepted build checked, and its sections. -/
structure Built (calloc : Nat → Bool) (anec : List UInt8)
    (ports : List PortSpec) (hdr : Header) (m : Model) (secs : Sections) :
    Prop where
  header : readHeader anec = .ok hdr
  checked : checkPorts [] ports = .ok ()
  inputs : portCount ports 0 = hdr.inputCount
  outputs : portCount ports 1 ≠ 0
  scratch : portCount ports 2 ≤ 1
  model : m = portModel ports
  frame : frameBytes ≤ hdr.tskSize
  frame_zero : anyNonzero (secs 2).val 0 frameBytes = false
  desc : (secs 2).val = (anec.drop anecHeaderSize).take hdr.tskSize
  stream : checkStream (secs 2).val hdr m = .ok ()
  kernel : (secs secKernel).val = (anec.drop anecHeaderSize).drop
    ((anec.drop anecHeaderSize).length - hdr.krnSize)
  emitted : emitIoSections calloc m (secs 2).val =
    .ok (secs 0, secs 3, secs 4, secs 5)

theorem secAlloc_eq_ok {bytes : List UInt8} {b : Blob}
    (h : secAlloc calloc bytes = .ok b) : b.val = bytes := by
  unfold secAlloc at h
  split at h
  · exact congrArg Subtype.val (Except.ok.inj h).symm
  · cases h

theorem programBuildPorts_built (h : programBuildPorts calloc anec ports = .ok (m, secs)) :
    ∃ hdr, Built calloc anec ports hdr m secs := by
  simp only [programBuildPorts, programBuildPortsInner, bind_eq_ok, refuse_eq_ok, pure_eq_ok] at h
  obtain ⟨_, -, _, -, hdr, hheader, _, hports, _, hcounts, _, hframe, desc,
    hdesc, _, hzero, _, hstream, kern, hkern, ⟨gen, oper, proc, tdp⟩, hemit,
    hm⟩ := h
  cases hm
  have hd := secAlloc_eq_ok hdesc
  push Not at hcounts
  exact ⟨hdr, {
    header := hheader
    checked := hports
    inputs := hcounts.1
    outputs := hcounts.2.1
    scratch := hcounts.2.2
    model := rfl
    frame := Nat.not_lt.mp hframe
    frame_zero := by simpa using hzero
    desc := hd
    stream := hstream
    kernel := secAlloc_eq_ok hkern
    emitted := hemit }⟩

theorem readHeader_ok (h : readHeader anec = .ok hdr) :
    hdr.krnSize + hdr.tskSize ≤ (anec.drop anecHeaderSize).length := by
  simp only [readHeader, bind_eq_ok, refuse_eq_ok, pure_eq_ok] at h
  obtain ⟨_, -, _, hpayload, _, -, _, hkrn, _, -, _, htsk, rfl⟩ := h
  rw [List.length_drop]
  simp only [ne_eq, not_not] at hpayload
  show le64 anec 0x18 + le64 anec 0x10 ≤ _
  omega

/-- The KERNEL section is the constant region. -/
theorem Built.kernel_length (h : Built calloc anec ports hdr m secs) :
    (secs secKernel).val.length = hdr.krnSize := by
  have hfit := readHeader_ok h.header
  rw [h.kernel, List.length_drop]
  omega

@[simp] theorem putLe32_length (d : List UInt8) (i v : Nat) :
    (putLe32 d i v).length = d.length := by
  simp [putLe32]

@[simp] theorem putLe64_length (d : List UInt8) (i v : Nat) :
    (putLe64 d i v).length = d.length := by
  simp [putLe64]

@[simp] theorem zeros_length (n : Nat) : (zeros n).length = n :=
  List.length_replicate

end OmarchyAne.Libane
