import OmarchyAne.Libane.Ports

/-!
# The channels of an H13 program (libane/ane_bind.h)

The engine reads and writes the channels that the task descriptors of a program
name.  `ane_bind_walk` follows the descriptors from the first one, and
`ane_bind_init` derives from it which channel carries which input and output.
`ane_bind_overrun` compares what the tasks move through a channel with what is
allocated for it.

The stream is a list of bytes.  A read outside it is a result of its own
(`Stop.outside`), so that it can be shown that there is none.  The arrays that
are indexed by a channel are functions.
-/

namespace OmarchyAne.H13

open Libane (le32)

/-- `TILE_COUNT`. -/
def tileCount : Nat := 32

/-- `struct anec`, as far as it is used here. -/
structure Anec where
  size : UInt64
  tdSize : UInt32
  tdCount : UInt32
  srcCount : UInt32
  dstCount : UInt32
  tiles : Nat → UInt32
  nchw : Nat → Nat → UInt64

/-- `anec->tiles[channel]`. -/
def Anec.tile (anec : Anec) (channel : Nat) : Nat := (anec.tiles channel).toNat

/-! ## One task -/

/-- `ANE_BIND_FIRST_SURFACE`. -/
def firstSurface : Nat := 4

/-- `ANE_BIND_DMA_DISABLED`. -/
def dmaDisabled : Nat := 0x00008880

/-- `ANE_BIND_DST_REGISTER`. -/
def dstRegister : Nat := 0x17800

/-- `ANE_BIND_SELECTOR_MASK`. -/
def selectorMask : Nat := 0x1f

/-- `ANE_BIND_MIN_TASK_BYTES`. -/
def minTaskBytes : Nat := 40

/-- The three selectors. -/
inductive Slot where
  | src1
  | src2
  | dst
  deriving DecidableEq, Repr

/-- The order of `ane_bind_selectors`. -/
def slots : List Slot := [.src1, .src2, .dst]

/-- The DMA configuration register of a selector. -/
def Slot.config : Slot → Nat
  | .src1 => 0x13800
  | .src2 => 0x13804
  | .dst => dstRegister

/-- Where the selector starts in word 8. -/
def Slot.shift : Slot → Nat
  | .src1 => 0
  | .src2 => 6
  | .dst => 12

/-- The two registers with the size of the surface, zero if they are not
known. -/
def Slot.sizeRegs : Slot → Nat × Nat
  | .src1 => (0x13814, 0x13818)
  | .src2 => (0, 0)
  | .dst => (0x17810, 0x17814)

/-- Why a walk ends early: a read outside the stream, or `-1`. -/
inductive Stop where
  | outside
  | refused
  deriving DecidableEq, Repr

abbrev Walk := Except Stop

/-- `ane_bind_word` of the task at `task`. -/
def bindWord (stream : List UInt8) (task index : Nat) : Walk Nat :=
  if stream.length < task + index * 4 + 4 then .error .outside
  else .ok (le32 stream (task + index * 4))

/-- The arrays `dma` and `extent` of a task. -/
structure Regs where
  dma : Slot → Nat
  extent : Slot → Nat

def Regs.init : Regs where
  dma := fun _ => dmaDisabled
  extent := fun _ => 0

/-- The register is one of those with the size of the surface. -/
def Slot.isSizeReg (slot : Slot) (reg : Nat) : Prop :=
  slot.sizeRegs.1 ≠ 0 ∧ (reg = slot.sizeRegs.1 ∨ reg = slot.sizeRegs.2)

instance (slot : Slot) (reg : Nat) : Decidable (slot.isSizeReg reg) :=
  inferInstanceAs (Decidable (_ ∧ _))

/-- The loop over the selectors for one register. -/
def Regs.write (regs : Regs) (reg value : Nat) : Regs where
  dma := fun slot => if reg = slot.config then value else regs.dma slot
  extent := fun slot =>
    if reg = slot.config then regs.extent slot
    else if slot.isSizeReg reg ∧ regs.extent slot < value then value
    else regs.extent slot

/-- The payload of a record. -/
def recordDma (stream : List UInt8) (task index count base : Nat)
    (regs : Regs) : Walk Regs :=
  (List.range count).foldlM (fun regs offset => do
    let value ← bindWord stream task (index + 1 + offset)
    return regs.write ((base + offset * 4) % 2 ^ 32) value) regs

/-- The record loop of `ane_bind_task_dma`. -/
def taskLoop (stream : List UInt8) (task words : Nat) :
    Nat → Nat → Regs → Walk Regs
  | 0, _, regs => .ok regs
  | fuel + 1, index, regs =>
    if words ≤ index then .ok regs
    else do
      let header ← bindWord stream task index
      let count := (header >>> 26) + 1
      let base := header &&& 0x03ffffff
      if words ≤ index + count then .error .refused
      else do
        let regs ← recordDma stream task index count base regs
        taskLoop stream task words fuel (index + 1 + count) regs

/-- Each turn moves on, so that the number of words is enough fuel. -/
theorem taskLoop_fuel {stream : List UInt8} {task words fuel index : Nat} {regs : Regs}
    (h : words ≤ index + fuel) (more : Nat) :
    taskLoop stream task words (fuel + more) index regs =
      taskLoop stream task words fuel index regs := by
  induction fuel generalizing index regs with
  | zero =>
    cases more with
    | zero => rfl
    | succ more => exact if_pos h
  | succ fuel ih =>
    have hrest (count : Nat) (regs : Regs) := @ih (index + 1 + count) regs (by omega)
    rw [Nat.add_right_comm, taskLoop, taskLoop]
    simp only [hrest]

/-- `ane_bind_task_dma`. -/
def taskDma (stream : List UInt8) (task bytes : Nat) : Walk Regs :=
  if bytes < minTaskBytes ∨ bytes % 4 ≠ 0 then .error .refused
  else do
    let w ← bindWord stream task 9
    taskLoop stream task (bytes / 4) (bytes / 4)
      (10 + if w &&& 3 = 3 then 1 else 0) Regs.init

/-! ## The walk -/

/-- The arrays `is_src`, `is_dst` and `extent` of a walk. -/
structure Marks where
  isSrc : Nat → Bool
  isDst : Nat → Bool
  extent : Nat → Nat

def Marks.empty : Marks where
  isSrc := fun _ => false
  isDst := fun _ => false
  extent := fun _ => 0

/-- The array with a new entry. -/
def update {α : Type} (f : Nat → α) (i : Nat) (a : α) : Nat → α :=
  fun j => if j = i then a else f j

/-- The channel of a selector. -/
def slotChannel (selectors : Nat) (slot : Slot) : Nat :=
  selectors >>> slot.shift &&& selectorMask

/-- The loop over the selectors for one task. -/
def markSlot (anec : Anec) (selectors : Nat) (regs : Regs) (m : Marks)
    (slot : Slot) : Marks :=
  let channel := slotChannel selectors slot
  if regs.dma slot = dmaDisabled then m
  else if channel < firstSurface ∨ tileCount ≤ channel then m
  else
    let extent := if m.extent channel < regs.extent slot then
        update m.extent channel (regs.extent slot)
      else m.extent
    if anec.tile channel = 0 then { m with extent := extent }
    else if slot.config = dstRegister then
      { m with extent := extent, isDst := update m.isDst channel true }
    else { m with extent := extent, isSrc := update m.isSrc channel true }

/-- The loop of `ane_bind_walk` with this many tasks left. -/
def walkLoop (anec : Anec) (stream : List UInt8) :
    Nat → Nat → Nat → Marks → Walk Marks
  | 0, _, _, m => .ok m
  | left + 1, offset, bytes, m =>
    if bytes < minTaskBytes ∨ stream.length < offset ∨
        stream.length - offset < bytes then .error .refused
    else do
      let regs ← taskDma stream offset bytes
      let selectors ← bindWord stream offset 8
      let m := slots.foldl (markSlot anec selectors regs) m
      if left = 0 then .ok m
      else do
        let next ← bindWord stream offset 7
        let w ← bindWord stream offset 1
        if next % 4 ≠ 0 ∨ stream.length < next then .error .refused
        else
          walkLoop anec stream left next (((w >>> 16 &&& 0x1ff) + 1) * 4) m

/-- `ane_bind_walk`. -/
def bindWalk (anec : Anec) (stream : List UInt8) : Walk Marks :=
  if anec.tdCount = 0 then .error .refused
  else walkLoop anec stream anec.tdCount.toNat 0 anec.tdSize.toNat Marks.empty

/-! ## The map -/

/-- `struct ane_bind`. -/
structure Bind where
  src : List UInt8
  dst : List UInt8
  deriving DecidableEq, Repr

/-- `ane_bind_positional`. -/
def bindPositional (anec : Anec) : Bind where
  dst := (List.range tileCount).map (fun idx => .ofNat (firstSurface + idx))
  src := (List.range tileCount).map (fun idx =>
    .ofNat ((firstSurface + anec.dstCount.toNat + idx) % 2 ^ 32))

/-- The channels of the two loops. -/
def surfaces : List Nat := (List.range tileCount).drop firstSurface

/-- The lists that are derived, of channels. -/
structure Lists where
  src : List Nat
  dst : List Nat
  deriving DecidableEq, Repr

/-- The turn of the first loop: the channels that the stream names. -/
def collectStep (m : Marks) (l : Lists) (channel : Nat) : Option Lists :=
  if m.isDst channel then
    if l.dst.length = tileCount then none
    else some { l with dst := l.dst ++ [channel] }
  else if m.isSrc channel then
    if l.src.length = tileCount then none
    else some { l with src := l.src ++ [channel] }
  else some l

/-- The turn of the second loop: an unused channel fills up the lists.  When
both are full the loop has ended, and the later turns change nothing. -/
def fillStep (anec : Anec) (m : Marks) (l : Lists) (channel : Nat) : Lists :=
  if anec.dstCount.toNat ≤ l.dst.length ∧ anec.srcCount.toNat ≤ l.src.length
    then l
  else if m.isDst channel ∨ m.isSrc channel ∨ anec.tile channel = 0 then l
  else if l.dst.length < anec.dstCount.toNat then
    { l with dst := l.dst ++ [channel] }
  else { l with src := l.src ++ [channel] }

/-- What `ane_bind_init` derives from the marks. -/
def deriveLists (anec : Anec) (m : Marks) : Option Lists := do
  let l ← surfaces.foldlM (collectStep m) ⟨[], []⟩
  let l := surfaces.foldl (fillStep anec m) l
  if l.src.length ≠ anec.srcCount.toNat ∨ l.dst.length ≠ anec.dstCount.toNat
    then none
  else some l

/-- The lists that `ane_bind_init` derives, if it does. -/
def bindDerive (anec : Anec) (stream : List UInt8) : Option Lists :=
  if tileCount < anec.srcCount.toNat ∨ tileCount < anec.dstCount.toNat then none
  else match bindWalk anec stream with
    | .error _ => none
    | .ok m => deriveLists anec m

/-- The derived channels in front of the positional ones. -/
def overlay (l : List Nat) (positional : List UInt8) : List UInt8 :=
  l.map UInt8.ofNat ++ positional.drop l.length

/-- `ane_bind_init`: the map, and whether it was derived. -/
def bindInit (anec : Anec) (stream : List UInt8) : Bool × Bind :=
  let positional := bindPositional anec
  match bindDerive anec stream with
  | none => (false, positional)
  | some l => (true, {
      src := overlay l.src positional.src
      dst := overlay l.dst positional.dst })

/-! ## The sizes -/

/-- What is allocated for a channel: `tiles << tile_shift` in 64 bits. -/
def tileBytes (anec : Anec) (tileShift channel : Nat) : Nat :=
  anec.tile channel <<< tileShift % 2 ^ 64

/-- `ane_bind_overrun`: the first channel that is too small, with the bytes
that the tasks move and the bytes that are allocated. -/
def bindOverrun (anec : Anec) (stream : List UInt8) (tileShift : Nat) :
    Option (Nat × Nat × Nat) :=
  match bindWalk anec stream with
  | .error _ => none
  | .ok m =>
    (surfaces.find? fun channel =>
      tileBytes anec tileShift channel < m.extent channel).map
      (fun channel => (channel, m.extent channel, tileBytes anec tileShift channel))

end OmarchyAne.H13
