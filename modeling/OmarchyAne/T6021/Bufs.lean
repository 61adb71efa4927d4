import OmarchyAne.T6021.Pool
import OmarchyAne.T6021.ProgRefs

/-!
# Buffer objects

The buffer half of `ane/t6021/ane_t6021_rtclient_main.c`: BO_INIT, BO_FREE,
the mappings, the marks that PROG_LOAD and EXEC leave on a buffer, and
`ane_t6021_bo_release`, which decides at the last reference whether the
memory is parked, kept or freed.

One step is one section under the buffer lock, one call of a pool function or
one access to the byte counter.  A BO_INIT in progress is an `InitOp`, and
its steps interleave with everything else.

`Bufs.place` is a ghost.  It says where a buffer object is: a C object is
linked into the list of a file or into the pool, or it is in the hands of one
call, or it is gone.  Nothing reads it.

`Ev` is what a step shows to the outside: the memory that is handed out,
zeroed, published or freed, and what an ioctl returns.
-/

namespace OmarchyAne.T6021

open Lib

/-- The identity of a buffer object.  An object that was freed is not reused,
so a new object has a new identity. -/
abbrev BoId := Nat

/-- `struct ane_t6021_bo`. -/
structure Bo where
  owner : FileId
  handle : UInt32
  /-- The handle, the user mappings and the programs. -/
  refs : Nat
  /-- The coherent memory at `dma` is allocated. -/
  cpu : Bool
  dma : Nat
  size : Nat
  /-- The firmware received this IOVA. -/
  fwRef : Bool
  /-- A loaded program keeps this IOVA. -/
  fwProgram : Bool
  /-- An EXEC passed this IOVA as an io buffer. -/
  fwIo : Bool
  /-- The loaded programs that use this buffer as a section. -/
  progRefs : UInt16
  deriving DecidableEq, Repr

/-- A zeroed buffer object. -/
def Bo.zero : Bo :=
  { owner := 0, handle := 0, refs := 0, cpu := false, dma := 0, size := 0,
    fwRef := false, fwProgram := false, fwIo := false, progRefs := 0 }

/-- A program less uses the buffer.  One that no program uses stops being a
firmware buffer, unless it was an io buffer. -/
def Bo.dropProgram (o : Bo) : Bo :=
  if o.progRefs - 1 = 0 then
    { o with progRefs := o.progRefs - 1, fwProgram := false, fwRef := o.fwIo }
  else { o with progRefs := o.progRefs - 1 }

/-- Where a buffer object is. -/
inductive Place where
  /-- Not allocated yet. -/
  | absent
  /-- In the hands of BO_INIT call `i`. -/
  | hand (i : Nat)
  /-- On the list of file `f`. -/
  | file (f : FileId)
  /-- Without a handle, and still referenced. -/
  | loose
  /-- Unlinked, and being released. -/
  | limbo
  /-- On the pool list. -/
  | parked
  /-- The object is gone and its memory is kept for good. -/
  | held
  /-- The object and its memory are gone. -/
  | freed
  deriving DecidableEq, Repr

/-- The program counter of one BO_INIT. -/
inductive InitOp where
  | start (f : FileId) (size : Nat)
  /-- The quarantine flag was read, before `pool_take`. -/
  | take (f : FileId) (size : Nat) (quarantined : Bool)
  /-- A pool entry was taken, before `memset`. -/
  | zero (f : FileId) (size : Nat) (b : BoId)
  /-- Before the charge. -/
  | attempt (f : FileId) (size : Nat)
  /-- The charge is within the cap. -/
  | alloc (f : FileId) (size : Nat)
  /-- The charge is over the cap. -/
  | refund (f : FileId) (size : Nat)
  /-- The attempt failed, before the eviction. -/
  | evict (f : FileId) (size : Nat) (err : Errno)
  | publish (f : FileId) (size : Nat) (b : BoId)
  | done
  deriving DecidableEq, Repr

/-- The buffer that a BO_INIT has in its hands. -/
def InitOp.hand : InitOp → Option BoId
  | zero _ _ b | publish _ _ b => some b
  | _ => none

/-- The file that a BO_INIT works for. -/
def InitOp.file : InitOp → Option FileId
  | start f _ | take f _ _ | zero f _ _ | attempt f _ | alloc f _
  | refund f _ | evict f _ _ | publish f _ _ => some f
  | done => none

/-- What a step shows to the outside. -/
inductive Ev where
  /-- BO_INIT took the buffer from the pool. -/
  | taken (b : BoId)
  /-- `memset` over the memory of the buffer. -/
  | zeroed (b : BoId)
  /-- The buffer got a new handle. -/
  | published (b : BoId)
  /-- `dma_alloc_coherent` gave memory to the buffer. -/
  | allocated (b : BoId)
  /-- `dma_free_coherent` on the memory of the buffer. -/
  | freed (b : BoId)
  /-- An ioctl returned. -/
  | ret (r : Except Errno UInt32)
  deriving DecidableEq, Repr

/-- The buffer half of the driver state. -/
structure Bufs where
  bo : BoId → Bo
  /-- The identity of the next object. -/
  next : Nat
  /-- `fd->bos` of every file. -/
  bos : FileId → List BoId
  /-- The user mappings of every buffer. -/
  maps : BoId → Nat
  inits : List InitOp
  pool : Pool BoId
  /-- `ane_t6021_bo_total_bytes`. -/
  total : Int
  /-- `ane_t6021_next_handle`. -/
  nextHandle : UInt32
  place : BoId → Place

/-- What the buffer half reads of its surroundings. -/
structure BufCfg where
  /-- `bo_total_max_mb`. -/
  capMb : Nat
  /-- `ane_t6021_fw_alias_iova_ok`. -/
  aliasOk : Nat → Nat → Bool

/-- The cap in bytes. -/
def BufCfg.cap (cfg : BufCfg) : Nat := cfg.capMb * 2 ^ 20

/-- What the kernel allocators answer. -/
inductive AllocResult where
  | kzallocFails
  | dmaFails
  | ok (dma : Nat)
  deriving DecidableEq, Repr

/-- `ANE_T6021_BO_MAX`. -/
def boMax : Nat := 2 ^ 30

namespace Bufs

def init (maxMb minKb : Nat) : Bufs :=
  { bo := fun _ => Bo.zero, next := 0, bos := fun _ => [],
    maps := fun _ => 0, inits := [], pool := poolInit maxMb minKb, total := 0,
    nextHandle := 1, place := fun _ => .absent }

/-- Change one buffer object. -/
def modify (B : Bufs) (b : BoId) (g : Bo → Bo) : Bufs :=
  { B with bo := Function.update B.bo b (g (B.bo b)) }

def setPlace (B : Bufs) (b : BoId) (pl : Place) : Bufs :=
  { B with place := Function.update B.place b pl }

def setInit (B : Bufs) (i : Nat) (op : InitOp) : Bufs :=
  { B with inits := B.inits.set i op }

/-- The buffer of file `f` with this handle. -/
def find (B : Bufs) (f : FileId) (handle : UInt32) : Option BoId :=
  (B.bos f).find? (fun b => (B.bo b).handle == handle)

section Functions

variable [PageShift]

/-- The end of `ane_t6021_pool_release_ent` and of the freeing branch of
`ane_t6021_bo_release`: uncount, `dma_free_coherent`, `kfree`. -/
def dmaFree (B : Bufs) (b : BoId) : Bufs :=
  let B' := B.modify b (fun o => { o with cpu := false })
  { B'.setPlace b .freed with
    total := B.total - pageAlign (B.bo b).size }

/-- `ane_t6021_pool_release_ent` on every evicted entry. -/
def releaseEnts (B : Bufs) (old : List (PoolEnt BoId)) : Bufs :=
  old.foldl (fun B e => B.dmaFree e.bo) B

/-- The pool after a call that unlinked the entries `old`. -/
def setPool (B : Bufs) (p : Pool BoId) (old : List (PoolEnt BoId)) : Bufs :=
  { B with
    pool := p
    place := fun b => if b ∈ old.map (fun e => e.bo) then .limbo
      else B.place b }

/-- `ane_t6021_bo_release`. -/
def boRelease (quarantined : Bool) (B : Bufs) (b : BoId) :
    Bufs × List Ev :=
  let o := B.bo b
  if o.fwRef = false then
    match poolPark B.pool b o.size with
    | (.ok _, p, old) =>
      (((B.setPool p old).setPlace b .parked).releaseEnts old, old.map (fun e => Ev.freed e.bo))
    | (.error _, p, old) =>
      (((B.setPool p old).releaseEnts old).dmaFree b,
        old.map (fun e => Ev.freed e.bo) ++ [.freed b])
  else if o.fwProgram || quarantined then (B.setPlace b .held, [])
  else
    ({ B with pool := poolParkUncharged B.pool b o.size }.setPlace b .parked,
      [])

/-- `kref_put` with `ane_t6021_bo_release`. -/
def kput (quarantined : Bool) (B : Bufs) (b : BoId) : Bufs × List Ev :=
  let B' := B.modify b (fun o => { o with refs := o.refs - 1 })
  if (B.bo b).refs = 1 then boRelease quarantined (B'.setPlace b .limbo) b
  else (B', [])

/-- `list_del` from the list of file `f`. -/
def unlink (B : Bufs) (f : FileId) (b : BoId) : Bufs :=
  { B with bos := Function.update B.bos f ((B.bos f).erase b) }.setPlace b
    .loose

/-- `ane_t6021_bo_drop` on a buffer of file `f`. -/
def boDrop (quarantined : Bool) (B : Bufs) (f : FileId) (b : BoId) :
    Bufs × List Ev :=
  kput quarantined (B.unlink f b) b

/-- `ane_t6021_bo_free_ioctl`. -/
def boFree (quarantined : Bool) (B : Bufs) (f : FileId) (handle : UInt32) :
    Bufs × List Ev :=
  match B.find f handle with
  | none => (B, [.ret (.error .ENOENT)])
  | some b =>
    let r := boDrop quarantined B f b
    (r.1, r.2 ++ [.ret (.ok 0)])

/-- The loop over the buffers of a closing file. -/
def dropAll (quarantined : Bool) (f : FileId) :
    Bufs → List BoId → Bufs × List Ev
  | B, [] => (B, [])
  | B, b :: bs =>
    let r := boDrop quarantined B f b
    let r' := dropAll quarantined f r.1 bs
    (r'.1, r.2 ++ r'.2)

/-- The buffer part of `ane_t6021_postclose`. -/
def closeBos (quarantined : Bool) (B : Bufs) (f : FileId) :
    Bufs × List Ev :=
  dropAll quarantined f B (B.bos f)

/-- `ane_t6021_vm_open`. -/
def vmOpen (B : Bufs) (b : BoId) : Bufs :=
  { B.modify b (fun o => { o with refs := o.refs + 1 }) with
    maps := Function.update B.maps b (B.maps b + 1) }

/-- The lookup of `ane_t6021_mmap`, which takes a reference.  A mapping that
fails later gives it back as an unmap does. -/
def mmap (B : Bufs) (f : FileId) (handle : UInt32) : Bufs × List Ev :=
  match (B.bos f).find? (fun b =>
      (B.bo b).handle == handle && (B.bo b).owner == f) with
  | none => (B, [.ret (.error .ENOENT)])
  | some b => (B.vmOpen b, [])

/-- One mapping less. -/
def unmap (B : Bufs) (b : BoId) : Bufs :=
  { B with maps := Function.update B.maps b (B.maps b - 1) }

/-- `ane_t6021_vm_close`. -/
def vmClose (quarantined : Bool) (B : Bufs) (b : BoId) : Bufs × List Ev :=
  kput quarantined (B.unmap b) b

/-- `ane_t6021_bo_pool_max_mb_set`. -/
def setPoolMax (B : Bufs) (maxMb : Nat) : Bufs × List Ev :=
  let p := { B.pool with maxMb := maxMb }
  if maxMb = 0 then
    let r := poolDrain p
    ((B.setPool r.1 r.2).releaseEnts r.2, r.2.map (fun e => Ev.freed e.bo))
  else ({ B with pool := p }, [])

/-- The mark that PROG_LOAD leaves on a section buffer. -/
def markProgram (B : Bufs) (b : BoId) : Bufs :=
  B.modify b (fun o => { o with
    fwRef := true, fwProgram := true, refs := o.refs + 1,
    progRefs := o.progRefs + 1 })

/-- The mark that EXEC leaves on an io buffer. -/
def markIo (B : Bufs) (b : BoId) : Bufs :=
  B.modify b (fun o => { o with fwRef := true, fwIo := true })

/-- One section of `ane_t6021_prog_release_op`. -/
def releaseSec (quarantined : Bool) (B : Bufs) (b : BoId) :
    Bufs × List Ev :=
  kput quarantined (B.modify b Bo.dropProgram) b

/-- `ane_t6021_prog_release_op`. -/
def releaseSecs (quarantined : Bool) :
    Bufs → List (Option BoId) → Bufs × List Ev
  | B, [] => (B, [])
  | B, none :: secs => releaseSecs quarantined B secs
  | B, some b :: secs =>
    let r := releaseSec quarantined B b
    let r' := releaseSecs quarantined r.1 secs
    (r'.1, r.2 ++ r'.2)

/-- Two memory ranges have no byte in common. -/
def disjoint (dma₁ len₁ dma₂ len₂ : Nat) : Bool :=
  decide (dma₁ + len₁ ≤ dma₂ ∨ dma₂ + len₂ ≤ dma₁)

/-- No allocated buffer overlaps the range.  This is what
`dma_alloc_coherent` promises of the memory it gives out. -/
def rangeFree (B : Bufs) (dma size : Nat) : Bool :=
  (List.range B.next).all (fun b => !(B.bo b).cpu ||
    disjoint dma (pageAlign size) (B.bo b).dma (pageAlign (B.bo b).size))

/-- A new buffer object with its memory. -/
def addBo (B : Bufs) (dma size : Nat) (cpu : Bool) (pl : Place) : Bufs :=
  { B with
    bo := Function.update B.bo B.next
      { Bo.zero with cpu := cpu, dma := dma, size := size }
    place := Function.update B.place B.next pl
    next := B.next + 1 }

def charge (B : Bufs) (size : Nat) : Bufs :=
  { B with total := B.total + pageAlign size }

def uncharge (B : Bufs) (size : Nat) : Bufs :=
  { B with total := B.total - pageAlign size }

/-- The part of `ane_t6021_bo_alloc_attempt` after the charge. -/
def allocStep (cfg : BufCfg) (B : Bufs) (i : Nat) (f : FileId) (size : Nat) :
    AllocResult → Option (Bufs × List Ev)
  | .kzallocFails | .dmaFails =>
    some ((B.uncharge size).setInit i (.evict f size .ENOMEM), [])
  | .ok dma =>
    if !B.rangeFree dma size then none
    else if dma % 2 ^ 14 ≠ 0 ∨ cfg.aliasOk dma size = false then
      -- the memory breaks the alias contract and goes back at once
      some (((B.uncharge size).addBo dma size false .freed).setInit i .done,
        [.allocated B.next, .freed B.next, .ret (.error .ERANGE)])
    else
      some ((B.addBo dma size true (.hand i)).setInit i
        (.publish f size B.next), [.allocated B.next])

/-- The handle of the next buffer and the counter after it; the handle `0` is
skipped. -/
def takeHandle (n : UInt32) : UInt32 × UInt32 :=
  if n = 0 then (1, 2) else (n, n + 1)

/-- The end of BO_INIT: the buffer gets its size, its first reference and its
handle, and goes on the list of the file. -/
def publish (B : Bufs) (f : FileId) (size : Nat) (b : BoId) : Bufs :=
  let h := takeHandle B.nextHandle
  { (B.modify b (fun o => { o with
      size := size, owner := f, refs := 1, handle := h.1 })).setPlace b
        (.file f) with
    nextHandle := h.2
    bos := Function.update B.bos f (B.bos f ++ [b]) }

/-- One step of BO_INIT call `i`, `ane_t6021_bo_init_ioctl`. -/
def initStep (cfg : BufCfg) (quarantined : Bool) (B : Bufs) (i : Nat)
    (res : AllocResult) : Option (Bufs × List Ev) :=
  match B.inits[i]? with
  | none | some .done => none
  | some (.start f size) =>
    if size = 0 ∨ boMax < size then
      some (B.setInit i .done, [.ret (.error .EINVAL)])
    else some (B.setInit i (.take f size quarantined), [])
  | some (.take f size q) =>
    match poolTake B.pool size q with
    | none => some (B.setInit i (.attempt f size), [])
    | some (e, p) =>
      some (({ B with pool := p }.setPlace e.bo (.hand i)).setInit i
        (.zero f size e.bo), [.taken e.bo])
  | some (.zero f size b) => some (B.setInit i (.publish f size b), [.zeroed b])
  | some (.attempt f size) =>
    let B' := B.charge size
    some (B'.setInit i (if (cfg.cap : Int) < B'.total then .refund f size else .alloc f size), [])
  | some (.refund f size) =>
    some ((B.uncharge size).setInit i (.evict f size .ENOSPC), [])
  | some (.alloc f size) => allocStep cfg B i f size res
  | some (.evict f size err) =>
    match poolEvictOldest B.pool with
    | none => some (B.setInit i .done, [.ret (.error err)])
    | some (old, p) =>
      some (((B.setPool p [old]).releaseEnts [old]).setInit i (.attempt f size), [.freed old.bo])
  | some (.publish f size b) =>
    some ((B.publish f size b).setInit i .done,
      [.published b, .ret (.ok (takeHandle B.nextHandle).1)])

end Functions

end Bufs

end OmarchyAne.T6021
