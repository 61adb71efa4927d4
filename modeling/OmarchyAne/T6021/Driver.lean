import OmarchyAne.Lib.Run
import OmarchyAne.T6021.BufInit
import OmarchyAne.T6021.SectionStream

/-!
# The driver

The ioctls of `ane/t6021/ane_t6021_rtclient_main.c` as one transition system.
Any number of files run ioctls at the same time.  One step is one section
under the buffer lock, one call of a pool function, one access to an atomic
counter, or one firmware command.

The firmware lock is held over a whole PROG_LOAD, EXEC or close, so there is
one `FwOp` at a time.  BO_INIT, BO_FREE and the mappings do not take that
lock, and their steps interleave with it.

What the driver cannot see is a choice in the action: the bytes that a user
wrote into a section, the answers of the allocators, the outcome of a
firmware command and the moment when the firmware finishes a call.

`Drv.inflight` is the firmware's view of the PROCEDURE_CALL it works on.  The
fields below it are ghosts for the history results.
-/

namespace OmarchyAne.T6021

open Lib

variable {δ : Type}

/-- `struct drm_ane_section`. -/
structure SecArg where
  id : UInt32
  handle : UInt32
  size : UInt64
  offset : UInt64
  deriving DecidableEq, Repr

/-- What EXEC reads of `struct drm_ane_exec_io`. -/
structure IoArg where
  handle : UInt32
  size : Nat
  deriving DecidableEq, Repr

/-- `struct drm_ane_exec`. -/
structure ExecArg where
  progId : UInt32
  priority : Nat
  ios : List IoArg
  deriving DecidableEq, Repr

/-- The operation that holds the firmware lock. -/
inductive FwOp (δ : Type) where
  | idle
  /-- PROG_LOAD hashes its sections. -/
  | hash (f : FileId) (args todo : List SecArg) (read : List Section)
  /-- PROG_LOAD marks its section buffers. -/
  | mark (f : FileId) (todo : List SecArg) (sec : List (Option BoId))
    (digest : δ) (read : List Section)
  /-- LOAD_PROGRAM is sent. -/
  | load (f : FileId) (sec : List (Option BoId)) (digest : δ)
    (read : List Section)
  /-- EXEC marks its io buffers. -/
  | exec (f : FileId) (todo : List IoArg) (marked : List BoId)
  /-- PROCEDURE_CALL is sent. -/
  | call (f : FileId) (marked : List BoId)
  /-- A file drops its program references. -/
  | close (f : FileId) (unloadOnClose : Bool)
  deriving DecidableEq, Repr

/-- What happens to the program of load `n`. -/
inductive ProgEv where
  | loaded (n : Nat)
  | unloadOk (n : Nat)
  | unloadFailed (n : Nat)
  | released (n : Nat)
  deriving DecidableEq, Repr

/-- The state of the driver. -/
structure Drv (δ : Type) where
  buf : Bufs
  prg : Progs δ BoId
  fw : FwOp δ
  /-- `ane_t6021_quarantined`. -/
  quarantined : Bool
  /-- The files whose `postclose` started. -/
  closing : List FileId
  /-- The io buffers of the call that the firmware works on. -/
  inflight : List BoId
  /-- Every io buffer of a call so far. -/
  sentIo : List BoId
  /-- The programs that were added so far. -/
  serial : Nat
  hist : List ProgEv
  /-- The sections that load `n` hashed. -/
  loads : Nat → List Section

/-- What the driver reads of its surroundings. -/
structure DrvCfg (δ : Type) where
  buf : BufCfg
  /-- `bo_pool_min_kb`. -/
  poolMinKb : Nat
  /-- `ane->cmd_buf` is allocated. -/
  cmdBuf : Bool
  /-- The digest of the sections of a load. -/
  digest : List Section → δ

/-- A driver with 64 MiB and an ideal digest, which is the list of sections
itself. -/
def DrvCfg.ideal : DrvCfg (List Section) :=
  { buf := { capMb := 64, aliasOk := fun _ _ => true }
    poolMinKb := 0, cmdBuf := true, digest := fun secs => secs }

/-- How the firmware answers the commands of an unload. -/
structure UnloadReply where
  terminate : Bool
  terminateSettle : Bool
  destroy : Bool
  destroySettle : Bool
  deriving DecidableEq, Repr

inductive Act (δ : Type) where
  | openFile (f : FileId)
  | boInit (f : FileId) (size : Nat)
  | initStep (i : Nat) (res : AllocResult)
  | boFree (f : FileId) (handle : UInt32)
  | mmap (f : FileId) (handle : UInt32)
  | vmOpen (b : BoId)
  | vmClose (b : BoId)
  | setPoolMax (maxMb : Nat)
  | progLoad (f : FileId) (args : List SecArg) (genericCount : Nat)
  /-- PROG_LOAD cannot allocate or read its arguments. -/
  | loadAbort (err : Errno)
  /-- The next section has these bytes. -/
  | loadHash (bytes : List UInt8)
  | loadDecide
  | loadMark
  | loadSend
  /-- LOAD_PROGRAM fails, or the firmware answers with an id. -/
  | loadDone (r : Except Errno UInt32)
  | lookup (f : FileId) (digest : δ)
  | procCreate (f : FileId) (progId : UInt32) (r : Except Errno UInt32)
  | exec (f : FileId) (arg : ExecArg)
  | execMark
  | execSend
  /-- The firmware posts the finish event of the call. -/
  | fwFinish
  | execDone (r : Except Errno Unit)
  /-- Another command of the driver. -/
  | command (r : Except Errno Unit)
  | close (f : FileId) (unloadOnClose : Bool)
  | closePut (reply : UnloadReply)
  | closeEnd
  | closeBos (f : FileId)

namespace Drv

/-- The file may issue ioctls. -/
def isOpen (s : Drv δ) (f : FileId) : Bool :=
  decide (f ∈ s.prg.files) && decide (f ∉ s.closing)

/-- The operation returns. -/
def done (s : Drv δ) (r : Except Errno UInt32) : Option (Drv δ × List Ev) :=
  some ({ s with fw := .idle }, [.ret r])

end Drv

/-! ## PROG_LOAD -/

/-- `ANE_M2_MAX_BINDS`. -/
def maxBinds : Nat := 64

/-- The argument checks of `ane_rtclient_load_program`: the counts, and
section ids that are in range and distinct. -/
def loadArgsOk (args : List SecArg) (genericCount : Nat) : Bool :=
  decide (1 ≤ args.length) && decide (args.length ≤ progSecs) &&
    decide (genericCount ≤ maxBinds) &&
    args.all (fun a => decide (1 ≤ a.id.toNat) && decide (a.id.toNat ≤ progSecs)) &&
    decide (args.map (fun a => a.id)).Nodup

/-- A section lies inside its buffer. -/
def SecArg.fits (a : SecArg) (o : Bo) : Bool :=
  decide (a.size.toNat ≤ o.size) &&
    decide (a.offset.toNat ≤ o.size - a.size.toNat)

/-- A section with the bytes that its buffer holds. -/
def SecArg.read (a : SecArg) (bytes : List UInt8)
    (h : bytes.length = a.size.toNat) : Section :=
  { id := a.id.toUInt64, bytes := bytes, small := h ▸ a.size.toNat_lt }

/-- The buffer of a section, when the section lies inside it. -/
def Bufs.secBo (B : Bufs) (f : FileId) (a : SecArg) : Option BoId :=
  match B.find f a.handle with
  | none => none
  | some b => if a.fits (B.bo b) then some b else none

namespace Drv

variable [DecidableEq δ]

/-- `ane_t6021_prog_load_ioctl` up to the hash. -/
def progLoad (s : Drv δ) (f : FileId) (args : List SecArg)
    (genericCount : Nat) : Option (Drv δ × List Ev) :=
  if s.quarantined then s.done (.error .ETIMEDOUT)
  else if !loadArgsOk args genericCount then s.done (.error .EINVAL)
  else some ({ s with fw := .hash f args args [] }, [])

/-- Hash the next section. -/
def loadHash (s : Drv δ) (bytes : List UInt8) : Option (Drv δ × List Ev) :=
  match s.fw with
  | .hash f args (a :: todo) read =>
    match s.buf.secBo f a with
    | none => s.done (.error .EINVAL)
    | some _ =>
      if h : bytes.length = a.size.toNat then
        some ({ s with fw := .hash f args todo (read ++ [a.read bytes h]) }, [])
      else none
  | _ => none

/-- A program with the digest is shared; else a new one needs room and the
command buffer. -/
def loadDecide (cfg : DrvCfg δ) (s : Drv δ) : Option (Drv δ × List Ev) :=
  match s.fw with
  | .hash f args [] read =>
    let digest := cfg.digest read
    match progtabFind s.prg.tab digest with
    | some i =>
      match s.prg.tab.slots[i]? with
      | none => none
      | some p =>
        match s.prg.ref f i p with
        | none => s.done (.error .ENOSPC)
        | some prg => { s with prg := prg }.done (.ok p.progId)
    | none =>
      if !progtabHasRoom s.prg.tab then s.done (.error .ENOSPC)
      else if !cfg.cmdBuf then s.done (.error .ENODEV)
      else
        some ({ s with
          fw := .mark f args (List.replicate progSecs none) digest read }, [])
  | _ => none

/-- Mark the buffer of the next section.  A load that fails here keeps the
references it took. -/
def loadMark (s : Drv δ) : Option (Drv δ × List Ev) :=
  match s.fw with
  | .mark f (a :: todo) sec digest read =>
    match s.buf.secBo f a with
    | none => s.done (.error .EINVAL)
    | some b =>
      some ({ s with
        buf := s.buf.markProgram b
        fw := .mark f todo (sec.set (a.id.toNat - 1) (some b)) digest
          read }, [])
  | _ => none

/-- The answer to LOAD_PROGRAM. -/
def loadDone (s : Drv δ) (r : Except Errno UInt32) :
    Option (Drv δ × List Ev) :=
  match s.fw with
  | .load f sec digest read =>
    match r with
    | .error err => { s with quarantined := true }.done (.error err)
    | .ok progId =>
      if progId = 0xffffffff then s.done (.error .EPROTO)
      else
        match s.prg.add digest progId s.serial sec with
        | none => s.done (.error .ENOSPC)
        | some (prg, i, p) =>
          let s' : Drv δ := { s with
            serial := s.serial + 1
            hist := s.hist ++ [ProgEv.loaded s.serial]
            loads := Function.update s.loads s.serial read }
          match prg.ref f i p with
          | none => { s' with prg := prg }.done (.error .ENOSPC)
          | some prg' => { s' with prg := prg' }.done (.ok progId)
  | _ => none

/-- `ane_t6021_prog_lookup_ioctl`; the answer `0` says that nothing was
found. -/
def lookup (s : Drv δ) (f : FileId) (digest : δ) : Option (Drv δ × List Ev) :=
  if s.quarantined then s.done (.error .ENODEV)
  else
    match progtabFind s.prg.tab digest with
    | none => s.done (.ok 0)
    | some i =>
      match s.prg.tab.slots[i]? with
      | none => none
      | some p =>
        match s.prg.ref f i p with
        | none => s.done (.error .ENOSPC)
        | some prg => { s with prg := prg }.done (.ok p.progId)

/-- `ane_t6021_proc_create_ioctl`. -/
def procCreate (cfg : DrvCfg δ) (s : Drv δ) (f : FileId) (progId : UInt32)
    (r : Except Errno UInt32) : Option (Drv δ × List Ev) :=
  if s.quarantined then s.done (.error .ETIMEDOUT)
  else if !fdprogsHas (s.prg.progs f) progId then s.done (.error .ENOENT)
  else
    match progtabById s.prg.tab progId with
    | none => s.done (.error .ENOENT)
    | some i =>
      match s.prg.tab.slots[i]? with
      | none => none
      | some p =>
        if p.procId ≠ progNoproc then s.done (.ok p.procId)
        else if !cfg.cmdBuf then s.done (.error .ENODEV)
        else
          match r with
          | .error err => { s with quarantined := true }.done (.error err)
          | .ok procId =>
            if procId = progNoproc then s.done (.error .EPROTO)
            else { s with prg := s.prg.setProc i p procId }.done (.ok procId)

/-! ## EXEC -/

/-- The argument checks of `ane_rtclient_procedure_call`. -/
def execCheck (arg : ExecArg) : Except Errno Unit :=
  if arg.ios.length < 1 ∨ maxBinds < arg.ios.length ∨ arg.priority < 2 ∨
      7 < arg.priority then .error .EINVAL
  else if 0x4000 < 0x60 + arg.ios.length * 0x30 then .error .E2BIG
  else .ok ()

/-- `ane_rtclient_procedure_call` up to the marks. -/
def exec (cfg : DrvCfg δ) (s : Drv δ) (f : FileId) (arg : ExecArg) :
    Option (Drv δ × List Ev) :=
  match execCheck arg with
  | .error err => s.done (.error err)
  | .ok _ =>
    if s.quarantined then s.done (.error .ETIMEDOUT)
    else if !cfg.cmdBuf then s.done (.error .ENODEV)
    else if !fdprogsHas (s.prg.progs f) arg.progId then
      s.done (.error .ENOENT)
    else some ({ s with fw := .exec f arg.ios [] }, [])

/-- Mark the next io buffer. -/
def execMark (s : Drv δ) : Option (Drv δ × List Ev) :=
  match s.fw with
  | .exec f (a :: todo) marked =>
    match s.buf.find f a.handle with
    | none => s.done (.error .EINVAL)
    | some b =>
      if (s.buf.bo b).size < a.size then s.done (.error .EINVAL)
      else
        some ({ s with
          buf := s.buf.markIo b
          fw := .exec f todo (marked ++ [b]) }, [])
  | _ => none

/-- PROCEDURE_CALL is on its way with the IOVA of every marked buffer. -/
def execSend (s : Drv δ) : Option (Drv δ × List Ev) :=
  match s.fw with
  | .exec f [] marked =>
    some ({ s with
      fw := .call f marked
      inflight := marked
      sentIo := s.sentIo ++ marked }, [])
  | _ => none

/-- EXEC returns.  It returns zero only after the finish event of the call;
otherwise the device is quarantined. -/
def execDone (s : Drv δ) (r : Except Errno Unit) : Option (Drv δ × List Ev) :=
  match s.fw with
  | .call _ _ =>
    match r with
    | .ok _ => if s.inflight = [] then s.done (.ok 0) else none
    | .error err => { s with quarantined := true }.done (.error err)
  | _ => none

/-! ## The close of a file -/

/-- What the two firmware operations of a close may change. -/
structure CloseCtx where
  buf : Bufs
  quarantined : Bool
  hist : List ProgEv
  evs : List Ev

/-- Where a turn of the close loop starts. -/
def closeCtx (s : Drv δ) : CloseCtx :=
  { buf := s.buf, quarantined := s.quarantined, hist := s.hist, evs := [] }

/-- `ane_t6021_prog_unload_op`. -/
def unloadOp (cfg : DrvCfg δ) (reply : UnloadReply) (ctx : CloseCtx)
    (p : Prog δ BoId) : Bool × CloseCtx :=
  let failed := { ctx with hist := ctx.hist ++ [.unloadFailed p.serial] }
  if !cfg.cmdBuf || ctx.quarantined then (false, failed)
  else if p.procId ≠ progNoproc ∧
      (reply.terminate && reply.terminateSettle) = false then
    (false, { failed with quarantined := true })
  else if (reply.destroy && reply.destroySettle) = false then
    (false, { failed with quarantined := true })
  else (true, { ctx with hist := ctx.hist ++ [.unloadOk p.serial] })

/-- `ane_t6021_prog_release_op`. -/
def releaseOp [PageShift] (ctx : CloseCtx) (p : Prog δ BoId) : CloseCtx :=
  let r := ctx.buf.releaseSecs ctx.quarantined p.sec
  { ctx with
    buf := r.1
    hist := ctx.hist ++ [.released p.serial]
    evs := ctx.evs ++ r.2 }

/-- `ane_t6021_progtab_ops`. -/
def progtabOps [PageShift] (cfg : DrvCfg δ) (reply : UnloadReply) :
    ProgtabOps δ BoId CloseCtx where
  unload := unloadOp cfg reply
  release := releaseOp

/-- One turn of the loop over the references of a closing file. -/
def closePut [PageShift] [Inhabited δ] (cfg : DrvCfg δ) (s : Drv δ)
    (reply : UnloadReply) : Option (Drv δ × List Ev) :=
  match s.fw with
  | .close f unloadOnClose =>
    match h : (s.prg.progs f).ids with
    | [] => none
    | id :: rest =>
      let rest' : FdProgs := ⟨rest, by
        have := (s.prg.progs f).bounded
        rw [h] at this
        exact Nat.le_of_succ_le this⟩
      let r := s.prg.put (progtabOps cfg reply) unloadOnClose s.closeCtx f id
        rest'
      some ({ s with
        prg := r.1
        buf := r.2.buf
        quarantined := r.2.quarantined
        hist := r.2.hist }, r.2.evs)
  | _ => none

/-- The references of the file are gone. -/
def closeEnd (s : Drv δ) : Option (Drv δ × List Ev) :=
  match s.fw with
  | .close f _ =>
    if (s.prg.progs f).ids = [] then
      some ({ s with prg := s.prg.closeFile f, fw := .idle }, [])
    else none
  | _ => none

/-! ## The system -/

/-- The buffer half makes a step. -/
def withBuf (s : Drv δ) (r : Bufs × List Ev) : Option (Drv δ × List Ev) :=
  some ({ s with buf := r.1 }, r.2)

/-- One step of the driver, with what it shows. -/
def step [PageShift] [Inhabited δ] (cfg : DrvCfg δ) (s : Drv δ) :
    Act δ → Option (Drv δ × List Ev)
  | .openFile f =>
    if f ∈ s.prg.files ∨ f ∈ s.closing then none
    else some ({ s with prg := s.prg.openFile f }, [])
  | .boInit f size =>
    if s.isOpen f then
      s.withBuf ({ s.buf with inits := s.buf.inits ++ [.start f size] }, [])
    else none
  | .initStep i res =>
    match s.buf.initStep cfg.buf s.quarantined i res with
    | none => none
    | some r => s.withBuf r
  | .boFree f handle =>
    if s.isOpen f then s.withBuf (s.buf.boFree s.quarantined f handle)
    else none
  | .mmap f handle =>
    if s.isOpen f then s.withBuf (s.buf.mmap f handle) else none
  | .vmOpen b =>
    if 0 < s.buf.maps b then s.withBuf (s.buf.vmOpen b, []) else none
  | .vmClose b =>
    if 0 < s.buf.maps b then s.withBuf (s.buf.vmClose s.quarantined b)
    else none
  | .setPoolMax maxMb => s.withBuf (s.buf.setPoolMax maxMb)
  | .progLoad f args genericCount =>
    if s.fw = .idle ∧ s.isOpen f then s.progLoad f args genericCount else none
  | .loadAbort err =>
    match s.fw with
    | .hash _ _ _ [] => s.done (.error err)
    | _ => none
  | .loadHash bytes => s.loadHash bytes
  | .loadDecide => s.loadDecide cfg
  | .loadMark => s.loadMark
  | .loadSend =>
    match s.fw with
    | .mark f [] sec digest read =>
      some ({ s with fw := .load f sec digest read }, [])
    | _ => none
  | .loadDone r => s.loadDone r
  | .lookup f digest =>
    if s.fw = .idle ∧ s.isOpen f then s.lookup f digest else none
  | .procCreate f progId r =>
    if s.fw = .idle ∧ s.isOpen f then s.procCreate cfg f progId r else none
  | .exec f arg =>
    if s.fw = .idle ∧ s.isOpen f then s.exec cfg f arg else none
  | .execMark => s.execMark
  | .execSend => s.execSend
  | .fwFinish => some ({ s with inflight := [] }, [])
  | .execDone r => s.execDone r
  | .command r =>
    if s.fw = .idle ∧ s.quarantined = false then
      match r with
      | .ok _ => s.done (.ok 0)
      | .error err => { s with quarantined := true }.done (.error err)
    else none
  | .close f unloadOnClose =>
    -- the last user of the file is gone, so no ioctl of it is running
    if s.fw = .idle ∧ s.isOpen f ∧
        s.buf.inits.all (fun op => decide (op.file ≠ some f)) then
      some ({ s with
        fw := .close f unloadOnClose
        closing := f :: s.closing }, [])
    else none
  | .closePut reply => s.closePut cfg reply
  | .closeEnd => s.closeEnd
  | .closeBos f =>
    if f ∈ s.closing ∧ f ∉ s.prg.files then
      s.withBuf (s.buf.closeBos s.quarantined f)
    else none

/-- The driver after the probe. -/
def start (cfg : DrvCfg δ) (poolMaxMb : Nat) : Drv δ :=
  { buf := Bufs.init poolMaxMb cfg.poolMinKb
    prg := { tab := .empty, files := [], progs := fun _ => .empty }
    fw := .idle, quarantined := false, closing := [], inflight := [],
    sentIo := [], serial := 0, hist := [], loads := fun _ => [] }

end Drv

/-- The driver as a transition system. -/
def driver [PageShift] [DecidableEq δ] [Inhabited δ] (cfg : DrvCfg δ) :
    System (Drv δ) (Act δ) where
  init s := ∃ poolMaxMb, s = Drv.start cfg poolMaxMb
  step s a := (s.step cfg a).map Prod.fst

/-! ## Fragments of runs -/

/-- BO_INIT call `i` with nothing to take from the pool, up to its return. -/
def Act.allocBo (i : Nat) (f : FileId) (size dma : Nat) : List (Act δ) :=
  [.boInit f size, .initStep i .dmaFails, .initStep i .dmaFails,
    .initStep i .dmaFails, .initStep i (.ok dma), .initStep i .dmaFails]

/-- A PROG_LOAD of one section, up to the room check. -/
def Act.hashOne (f : FileId) (handle : UInt32) (bytes : List UInt8) :
    List (Act δ) :=
  [.progLoad f [{ id := 1, handle := handle, offset := 0,
                  size := bytes.length.toUInt64 }] 0,
    .loadHash bytes, .loadDecide]

/-- A PROG_LOAD of one section that the firmware answers with an id. -/
def Act.loadOne (f : FileId) (handle : UInt32) (bytes : List UInt8)
    (progId : UInt32) : List (Act δ) :=
  hashOne f handle bytes ++ [.loadMark, .loadSend, .loadDone (.ok progId)]

end OmarchyAne.T6021
