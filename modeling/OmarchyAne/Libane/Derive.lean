import OmarchyAne.Lib.Insertion
import OmarchyAne.Libane.Ports

/-!
# The derived build

Without a port table `ane_m2_program_build` reads the bindings off the task
stream.  `derive_refs` first scans the BAR references (`scanRecord`) for the
offsets at each slot and for the slots that the two source registers read.
These decide between three rules: the program is a blend, a matmul or neither
(`Scan.blend`, `Scan.matmul`).  Then each reference gets a tag by its register
and slot (`refTag`), the first reference of a task at a slot counts
(`refsOfTask`), and a slot with different tags in two tasks becomes a slot of
the scratch (`unionRef`).

The build is modelled without the two environment variables, so the scratch
has its id `0x40` and the derived references stand.
-/

namespace OmarchyAne.Libane

open Lib

/-! ## Registers -/

/-- `TD_DST`. -/
def tdDst : Nat := 0x1508

/-- `TD_SRC_A`. -/
def tdSrcA : Nat := 0x1110

/-- `TD_SRC_B`. -/
def tdSrcB : Nat := 0x1128

/-- A register of the KernelDMA, `TD_KDMA_LO` to `TD_KDMA_HI`. -/
def isKdma (addr : Nat) : Bool := decide (0x1900 ≤ addr ∧ addr < 0x1a40)

/-- A source register. -/
def isSrc (addr : Nat) : Bool := addr == tdSrcA || addr == tdSrcB

/-- `ANE_M2_MAX_TASKS`. -/
def maxTasks : Nat := 128

/-! ## A walk over the records of a task -/

/-- A BAR reference: the slot, the register that it patches, and its first
payload word. -/
structure BarRef where
  slot : Nat
  addr : Nat
  p0 : Nat
  /-- Bit 28 of the header. -/
  wide : Bool
  deriving DecidableEq, Repr

/-- The BAR reference with header `h`. -/
def barRef (h p0 : Nat) : BarRef where
  slot := h >>> 23 &&& 0x3f
  addr := (h &&& 0x7fff) * 4
  p0 := p0
  wide := h &&& 0x10000000 != 0

/-- The record loop that `derive_refs`, `refs_of_task` and
`scratch_size_bytes` share: `body` runs for each BAR reference. -/
def walkRecords {σ : Type} (body : σ → BarRef → Res σ) (stream : List UInt8)
    (t : Task) : Nat → Nat → σ → Res σ
  | 0, _, s => .ok s
  | fuel + 1, idx, s =>
    if t.words ≤ idx then .ok s
    else
      let h := le32 stream (t.off + idx * 4)
      let n := recordWords h
      if t.words < idx + 1 + n then
        fail "record declares more payload words than its task holds"
      else if isBarRef h then do
        let s ← body s (barRef h (le32 stream (t.off + (idx + 1) * 4)))
        walkRecords body stream t fuel (idx + 1 + n) s
      else walkRecords body stream t fuel (idx + 1 + n) s

/-- The loop over the records of one task. -/
def walkTask {σ : Type} (body : σ → BarRef → Res σ) (stream : List UInt8)
    (t : Task) (s : σ) : Res σ :=
  walkRecords body stream t t.words (firstRecord stream t.off) s

/-- The loop over the records of all tasks. -/
def walkTasks {σ : Type} (body : σ → BarRef → Res σ) (stream : List UInt8)
    (tasks : List Task) (s : σ) : Res σ :=
  tasks.foldlM (fun s t => walkTask body stream t s) s

/-! ## The scan -/

/-- The offsets of one slot: the largest one, and the smallest gap between
two that follow each other. -/
structure Gap where
  maxOffset : Nat := 0
  chunk : Nat := 0
  offA : Nat := 0
  offB : Nat := 0
  n : Nat := 0
  deriving DecidableEq, Repr

/-- The distance of two offsets. -/
def distance (a b : Nat) : Nat := if b < a then a - b else b - a

/-- One more offset. -/
def Gap.add (g : Gap) (p0 : Nat) : Gap :=
  let g := { g with maxOffset := max g.maxOffset p0 }
  if g.n = 0 then { g with offA := p0, n := 1 }
  else if g.n = 1 then
    { g with offB := p0, chunk := distance p0 g.offA, n := 2 }
  else
    { g with chunk := min g.chunk (distance p0 g.offB), offB := p0 }

/-- The tables of the first pass.  `rankedA` says which slots have a
`slot_rank_srcA`. -/
structure Scan where
  dst : Nat → Gap := fun _ => {}
  src : Nat → Gap := fun _ => {}
  hasDst : Nat → Bool := fun _ => false
  rankedA : Nat → Bool := fun _ => false
  srcA : List Nat := []
  srcB : List Nat := []

/-- The entry of a table at one slot. -/
def setAt {α : Type} (f : Nat → α) (i : Nat) (a : α) : Nat → α :=
  fun j => if j = i then a else f j

/-- A slot above 1 without a destination reference so far is an input. -/
def Scan.isInput (s : Scan) (slot : Nat) : Bool :=
  decide (1 < slot) && !s.hasDst slot

/-- The turn of the first pass for a source A reference. -/
def Scan.addSrcA (s : Scan) (r : BarRef) : Res Scan :=
  let s := { s with src := setAt s.src r.slot ((s.src r.slot).add r.p0) }
  if s.rankedA r.slot then .ok s
  else do
    refuse (s.isInput r.slot ∧ s.srcA.length = 0x40) "too many srcA slots"
    return { s with
      srcA := if s.isInput r.slot then s.srcA ++ [r.slot] else s.srcA
      rankedA := setAt s.rankedA r.slot true }

/-- The turn of the first pass for a source B reference.  The pass never
marks the slot as seen, so every reference to an input adds it again. -/
def Scan.addSrcB (s : Scan) (r : BarRef) : Res Scan := do
  let s := { s with src := setAt s.src r.slot ((s.src r.slot).add r.p0) }
  refuse (s.isInput r.slot ∧ s.srcB.length = 0x40) "too many srcB slots"
  return { s with
    srcB := if s.isInput r.slot then s.srcB ++ [r.slot] else s.srcB }

/-- The text for a header with bit 28. -/
def wideText : String :=
  "BAR-ref header has bit 28 set; the slot field width (28:23 vs 27:23) " ++
    "is not decided by any decoded case"

/-- One turn of the first pass. -/
def scanRecord (s : Scan) (r : BarRef) : Res Scan := do
  refuse (r.wide = true) wideText
  if r.addr = tdDst then
    return { s with
      hasDst := setAt s.hasDst r.slot true
      dst := setAt s.dst r.slot ((s.dst r.slot).add r.p0) }
  else if r.addr = tdSrcA then s.addSrcA r
  else if r.addr = tdSrcB then s.addSrcB r
  else return s

/-- The sorted source slots. -/
def Scan.slotsA (s : Scan) : List Nat := sortBy id s.srcA

def Scan.slotsB (s : Scan) : List Nat := sortBy id s.srcB

/-- `blend_mode`: a source B slot stands below a source A slot. -/
def Scan.blend (s : Scan) : Bool :=
  let lo := s.slotsB.foldl
    (fun lo b => if 1 < b ∧ b < lo then b else lo) 0xffffffff
  let hi := s.slotsA.foldl (fun hi a => if hi < a then a else hi) 0
  decide (lo ≠ 0xffffffff ∧ hi ≠ 0 ∧ lo < hi)

/-- `is_matmul`: two source A slots or more. -/
def Scan.matmul (s : Scan) : Bool := decide (2 ≤ s.srcA.length)

/-- `slot_rank_blend`: the source B slots from above take the channels from 5
on, the source A slots follow.  A slot that comes again is ranked again. -/
def Scan.blendRank (s : Scan) (slot : Nat) : Option Nat :=
  ((s.slotsB.reverse.filter (fun b => decide (1 < b)) ++ s.slotsA).zipIdx 5
    ).foldl (fun rank e => if e.1 = slot then some e.2 else rank) none

/-! ## Tags -/

/-- `pick_smallest_fit_channel`. -/
def pickSmallestFitChannel (io : List Io) (dir reach : Nat) : Option Nat :=
  let best := io.foldl (fun (best : Nat × Nat) c =>
    if c.dir ≠ dir ∨ c.size < reach then best
    else if c.size < best.2 ∨ c.size = best.2 ∧ c.bufferId < best.1 then
      (c.bufferId, c.size)
    else best) (0xffffffff, 2 ^ 64 - 1)
  if best.1 = 0xffffffff then none else some best.1

/-- The smallest output channel. -/
def smallestOutput (io : List Io) : Option Nat :=
  let best := io.foldl (fun (best : Nat × Nat) c =>
    if c.dir = 1 ∧ c.size < best.2 then (c.bufferId, c.size) else best)
    (0xffffffff, 2 ^ 64 - 1)
  if best.1 = 0xffffffff then none else some best.1

/-- `slot_max_in_alloc_src`; the sizes are cut to 32 bits. -/
def maxInAlloc (io : List Io) : Nat :=
  io.foldl (fun best c =>
    if c.dir = 0 ∧ best < c.size % 2 ^ 32 then c.size % 2 ^ 32 else best) 0

/-- The failure for a register without a role. -/
def noRole (addr : Nat) : Res Nat :=
  if addr = 0x1120 ∨ addr = 0x1124 ∨ addr = 0x112c then
    fail ("BAR-ref record sits between the two known source bases; its " ++
      "surface is not identified")
  else
    fail ("BAR-ref record outside the known register roles (sources " ++
      "0x1110/0x1128, destination 0x1508, KernelDMA 0x1900..0x19ff)")

/-- The destination rule of `bar_ref_tag_extents`. -/
def dstTagExtents (io : List Io) (scratch : Nat) (g : Gap) : Res Nat :=
  if g.chunk = 0 then
    match smallestOutput io with
    | some tag => .ok tag
    | none => fail "BAR-ref dst slot has no bound output channel"
  else
    match pickSmallestFitChannel io 1 (g.maxOffset + g.chunk) with
    | some tag => .ok tag
    | none =>
      match pickSmallestFitChannel io 1 g.maxOffset with
      | some tag => .ok tag
      | none =>
        if scratch ≠ 0 then .ok scratch
        else
          fail ("BAR-ref dst register has no bound output channel that " ++
            "covers the slot's offset+extent")

/-- `bar_ref_tag_extents`. -/
def barRefTagExtents (io : List Io) (scratch : Nat) (s : Scan)
    (addr slot : Nat) : Res Nat :=
  if isKdma addr then .ok 2
  else if addr = tdDst then dstTagExtents io scratch (s.dst slot)
  else if isSrc addr then
    if slot ≤ 1 then .ok 2
    else if s.matmul then .ok slot
    else
      let g := s.src slot
      let extent := if g.chunk = 0 then maxInAlloc io else g.chunk
      match pickSmallestFitChannel io 0 (g.maxOffset + extent) with
      | some tag => .ok tag
      | none =>
        fail ("BAR-ref src register's slot reach overflows every bound " ++ "input channel")
  else noRole addr

/-- `bar_ref_tag_legacy`. -/
def barRefTagLegacy (addr slot : Nat) : Res Nat :=
  if isKdma addr then .ok 2
  else if addr = tdDst then .ok 4
  else if isSrc addr then
    if slot ≤ 1 then .ok 2
    else if slot ≤ 3 then
      fail ("BAR slot 2/3 on a TileDMA source base collides with the " ++ "section-tag namespace")
    else .ok (if addr = tdSrcA then 5 else 6)
  else noRole addr

/-- The tag of a reference in `refs_of_task`. -/
def refTag (io : List Io) (scratch : Nat) (s : Scan) (r : BarRef) :
    Res Nat :=
  if s.blend ∧ isSrc r.addr ∧ 1 < r.slot then
    match s.blendRank r.slot with
    | some tag => .ok tag
    | none =>
      if scratch = 0 then
        fail "blend-program scratch slot read with scratch disabled"
      else .ok scratch
  else if s.matmul ∨ s.blend then
    barRefTagExtents io scratch s r.addr r.slot
  else barRefTagLegacy r.addr r.slot

/-- What the union uses of `struct ane_m2_ref`. -/
structure TaskRef where
  slot : Nat
  tag : Nat
  addr : Nat
  deriving DecidableEq, Repr

/-- One turn of `refs_of_task`: the first reference at a slot counts. -/
def taskRecord (io : List Io) (scratch : Nat) (s : Scan)
    (refs : List TaskRef) (r : BarRef) : Res (List TaskRef) := do
  refuse (r.wide = true) wideText
  refuse (r.addr = tdSrcA ∧ s.rankedA r.slot = false)
    "srcA slot's rank was not precomputed"
  let tag ← refTag io scratch s r
  if refs.any (fun q => q.slot == r.slot) then return refs
  else do
    refuse (refs.length = maxBinds) "more refs in one task than the model holds"
    return refs ++ [{ slot := r.slot, tag := tag, addr := r.addr }]

/-- `refs_of_task`. -/
def refsOfTask (io : List Io) (scratch : Nat) (s : Scan)
    (stream : List UInt8) (t : Task) : Res (List TaskRef) :=
  walkTask (taskRecord io scratch s) stream t []

/-! ## The union -/

/-- `scratch_eligible_addr`. -/
def scratchEligibleAddr (addr : Nat) : Bool :=
  addr == tdDst || isKdma addr || isSrc addr

/-- A number as `%#x` prints it. -/
def hexText (n : Nat) : String :=
  if n = 0 then "0" else "0x" ++ String.ofList (Nat.toDigits 16 n)

/-- The text for registers that cannot share the scratch. -/
def mixText (task slot prev cur : Nat) : String :=
  "task " ++ toString task ++ ": BAR slot " ++ toString slot ++
    " has a non-mergeable mix (refs at " ++ hexText prev ++ " and " ++
    hexText cur ++ " are not both TileDMA dst or KernelDMA); scratch " ++
    "merge is unsafe"

/-- The text for two tags when the scratch is disabled. -/
def conflictText (task slot tag prev : Nat) : String :=
  "task " ++ toString task ++ ": BAR slot " ++ toString slot ++
    " resolves to tag " ++ toString tag ++ " here and tag " ++
    toString prev ++ " in an earlier task; fw135 0x44c98 pushToHWDirect " ++
    "has no per-task BAR walk and the 61-slot patch table at netDesc+0xC " ++
    "is global per call (0x44e58-0x44ea4), so this slot must be unique " ++
    "across the whole program"

/-- The union so far, in the order in which the slots came, and whether a
slot was merged. -/
structure Union where
  refs : List TaskRef := []
  scratchUsed : Bool := false
  deriving DecidableEq, Repr

/-- The entry of a slot takes the scratch as its tag. -/
def Union.merge (u : Union) (scratch slot : Nat) : Union where
  refs := u.refs.map (fun e =>
    if e.slot = slot then { e with tag := scratch } else e)
  scratchUsed := true

/-- One turn of the union loop in task `t`. -/
def unionRef (scratch t : Nat) (u : Union) (r : TaskRef) : Res Union :=
  match u.refs.find? (fun e => e.slot == r.slot) with
  | none => .ok { u with refs := u.refs ++ [r] }
  | some e =>
    if e.tag = r.tag then .ok u
    else if scratch = 0 then fail (conflictText t r.slot r.tag e.tag)
    else if !scratchEligibleAddr e.addr || !scratchEligibleAddr r.addr then
      fail (mixText t r.slot e.addr r.addr)
    else .ok (u.merge scratch r.slot)

/-- The second pass. -/
def unionTasks (io : List Io) (scratch : Nat) (s : Scan)
    (stream : List UInt8) (tasks : List Task) : Res Union :=
  tasks.zipIdx.foldlM (fun u t => do
    let refs ← refsOfTask io scratch s stream t.1
    refs.foldlM (unionRef scratch t.2) u) {}

/-- A tag names the constant region, the scratch or a channel. -/
def knownTag (io : List Io) (scratch tag : Nat) : Bool :=
  tag == 2 || (scratch != 0 && tag == scratch) ||
    io.any (fun c => c.bufferId == tag)

/-- `derive_refs`: the references by slot, and whether a slot was merged. -/
def deriveRefs (io : List Io) (scratch : Nat) (stream : List UInt8)
    (tasks : List Task) : Res (List Ref × Bool) := do
  let s ← walkTasks scanRecord stream tasks {}
  let u ← unionTasks io scratch s stream tasks
  refuse (maxBinds < u.refs.length) "more union refs than the model holds"
  let refs := sortBy Ref.slot (u.refs.map (fun e =>
    { slot := e.slot, tag := e.tag }))
  refuse (refs.any (fun r => !knownTag io scratch r.tag))
    ("a ref names a tag outside the kernel section, the scratch buffer, " ++
      "and the bound channels")
  refuse (refs = []) "the task stream holds no BAR-ref record"
  return (refs, u.scratchUsed)

/-! ## The scratch -/

/-- `scratch_size_bytes`. -/
def scratchSizeBytes (stream : List UInt8) (tasks : List Task)
    (slot outputSize : Nat) : Res Nat := do
  let most ← walkTasks (fun most r =>
    .ok (if r.slot = slot then max most r.p0 else most)) stream tasks 0
  return (most + outputSize + 0x3fff) / 0x4000 * 0x4000

/-- The io table with the scratch, if a reference names it. -/
def addScratch (io : List Io) (inputCount : Nat) (stream : List UInt8)
    (tasks : List Task) (refs : List Ref) (scratchUsed : Bool) :
    Res (List Io × Option Nat) :=
  match refs.find? (fun r => r.tag == scratchBufid) with
  | none =>
    if scratchUsed then
      fail "scratch merge requested but no ref uses scratch_bufid 0x40"
    else .ok (io, none)
  | some r => do
    let size ← scratchSizeBytes stream tasks r.slot
      ((io[inputCount]?.map Io.size).getD 0)
    refuse (maxBinds ≤ io.length) "io table full; cannot add scratch entry"
    let entry : Io :=
      { bufferId := scratchBufid, dir := 2, size := size + 0x4000 }
    return (io ++ [entry], some io.length)

/-! ## The build -/

/-- Read the header and check it against the length of the file. -/
def readDerivedHeader (anec : List UInt8) : Res Header := do
  refuse (anec.length < anecHeaderSize)
    "anec shorter than the H14 header layout"
  let payload := le64 anec 0
  let tskSize := le64 anec 0x10
  let krnSize := le64 anec 0x18
  let inputCount := le32 anec 0x20
  refuse (payload ≠ anec.length - anecHeaderSize)
    "header payload size disagrees with file size"
  refuse (le32 anec 0x24 ≠ 1)
    "anec header version word is not the emitted 1"
  refuse (inputCount < 1 ∨ 3 < inputCount) "inputCount outside [1,3]"
  refuse (payload < krnSize)
    "constant region is larger than the payload"
  refuse ((payload - krnSize) % 64 ≠ 0)
    ("constant region is not 64-byte aligned (the encoder emits " ++ "align_up(stream, 64))")
  refuse (payload - krnSize < tskSize)
    "task stream reaches into the constant region"
  return {
    firstTask := le32 anec 0x08
    taskCount := le32 anec 0x0c
    tskSize := tskSize
    krnSize := krnSize
    inputCount := inputCount }

/-- The io record of a channel.  Its size stands in the header, in tiles. -/
def channelIo (anec : List UInt8) (dir b : Nat) : Res Io := do
  refuse (tileCount ≤ b ∨ b = 2 ∨ b = 3)
    "io channel id collides with a section id"
  let tiles := le32 anec (0x28 + b * 4)
  refuse (tiles = 0 ∨ 2 ^ 20 < tiles)
    "unusable tile count for an io channel"
  return { bufferId := b, dir := dir, size := tiles <<< 14 }

/-- The io table: input `k` is channel `5 + k`, the output is channel 4. -/
def channelTable (anec : List UInt8) (inputCount : Nat) : Res (List Io) := do
  let inputs ← (List.range inputCount).mapM (fun k =>
    channelIo anec 0 (5 + k))
  let output ← channelIo anec 1 4
  return inputs ++ [output]

/-- The checks of the task stream against the header. -/
def splitStream (desc : List UInt8) (hdr : Header) : Res (List Task) := do
  let tasks ← splitH14Tasks desc maxTasks
  match tasks with
  | [] => fail "the task stream holds no task"
  | first :: _ =>
    refuse (tasks.length ≠ hdr.taskCount)
      "walked task count disagrees with the header taskCount"
    refuse (hdr.firstTask ≠ first.words * 4)
      "firstTaskBytes disagrees with the walked first task"
    return tasks

/-- `ane_m2_program_build`. -/
def programBuild (calloc : Nat → Bool) (anec : List UInt8) :
    Res (Model × Sections) := do
  let hdr ← readDerivedHeader anec
  let io ← channelTable anec hdr.inputCount
  refuse (hdr.tskSize < frameBytes)
    "task stream is shorter than one frame"
  let payload := anec.drop anecHeaderSize
  let desc ← secAlloc calloc (payload.take hdr.tskSize)
  refuse (anyNonzero desc.val 0 frameBytes) "task frame not zero"
  let tasks ← splitStream desc.val hdr
  let (refs, scratchUsed) ← deriveRefs io scratchBufid desc.val tasks
  let (io, scratchIoIndex) ←
    addScratch io hdr.inputCount desc.val tasks refs scratchUsed
  let m : Model :=
    { io := io, scratchIoIndex := scratchIoIndex, calls := [refs] }
  let kern ← secAlloc calloc (payload.drop (payload.length - hdr.krnSize))
  let (gen, oper, proc, tdp) ← emitIoSections calloc m desc.val
  return (m, ![gen, kern, desc, oper, proc, tdp])

end OmarchyAne.Libane
