import Mathlib.Data.List.Basic

/-!
# The clock level of the M1 Max engine (ane/src/ane_dvfs.c)

`ane_dvfs_up` raises the clock level after a runtime resume and
`ane_dvfs_down` gives it back before a suspend.  The level needs a request in
bit 10 of PS-REQ, a word that other agents share.  The request goes through
`apple_pmp_report_set_request` where the kernel exports it, and otherwise
through a read and a write of the word here.

The registers answer what the environment chooses (`UpEnv`, `ReqEnv`).  `log`
holds the accesses in their order: every write of the driver, its reads of
PS-REQ and its calls of the export.
-/

namespace OmarchyAne.M1

/-! ## The request word (ane_dvfs_req.h) -/

/-- `PS_ANE_SYS`: bit 10. -/
def psAneSys : BitVec 64 := 1 <<< 10

/-- `ane_dvfs_req_may_up`. -/
def reqMayUp (req : BitVec 64) : Bool := req &&& psAneSys == 0

/-- `ane_dvfs_req_up`. -/
def reqUp (req : BitVec 64) : BitVec 64 := req ||| psAneSys

/-- `ane_dvfs_req_down`. -/
def reqDown (req : BitVec 64) : BitVec 64 := req &&& ~~~psAneSys

/-- `ane_dvfs_req_is_up`. -/
def reqIsUp (req : BitVec 64) : Bool := req &&& psAneSys != 0

/-! ## The driver -/

/-- `DVFS_CMD_BASE | prev << 4 | new`. -/
def cmdWord (prev new : Nat) : BitVec 32 :=
  0x80000000 ||| BitVec.ofNat 32 prev <<< 4 ||| BitVec.ofNat 32 new

/-- `PTD_LEVEL_WORD`. -/
def levelBase : BitVec 64 := 0x2000000000000000

def levelWord (level : Nat) : BitVec 64 := levelBase ||| BitVec.ofNat 64 level

/-- `ANE_DVFS_LEVEL_MAX`. -/
def levelMax : Nat := 5

/-- `ANE_DVFS_MAX_TIMEOUTS`. -/
def maxTimeouts : Nat := 3

def enodev : Int := -19

inductive DvfsEv where
  | on (w : BitVec 32)
  | cmd (w : BitVec 32)
  | level (w : BitVec 64)
  | readReq (w : BitVec 64)
  | writeReq (w : BitVec 64)
  /-- A call of the export, and whether it wrote the bit. -/
  | request (enable wrote : Bool)
  deriving DecidableEq

/-- What sysfs `perf_state` shows. -/
inductive PerfState where
  | level (n : Nat)
  | levelZeroByParameter
  | disabledAfterPsAckTimeouts
  | pmpNotRunning
  | dvfsBusy
  | psReqAlreadySet
  | levelWordUnexpected
  | psReqChanged
  | psAckTimeout
  | psReqReadbackUnexpected
  | notConfigured
  deriving DecidableEq

structure Dvfs where
  /-- Both register windows are mapped. -/
  mapped : Bool
  /-- `set_request` is resolved. -/
  hasExport : Bool
  active : Bool
  level : Nat
  ackTimeouts : Nat
  state : PerfState
  log : List DvfsEv

/-- The answers to one request or withdrawal. -/
structure ReqEnv where
  /-- What `set_request` returns. -/
  result : Int
  /-- The export wrote the bit and failed later. -/
  wrote : Bool
  /-- The word that the driver's own update reads. -/
  req : BitVec 64
  /-- The acknowledge comes before the poll times out. -/
  acked : Bool

namespace ReqEnv

/-- The export wrote the bit. -/
def writes (r : ReqEnv) : Bool := r.result == 0 || r.wrote

end ReqEnv

structure UpEnv where
  /-- The parameter `dvfs_level`. -/
  level : Nat
  status : BitVec 64
  on : BitVec 32
  /-- PS-REQ before the first write. -/
  first : BitVec 64
  levelWord : BitVec 64
  /-- PS-REQ after the first writes. -/
  again : BitVec 64
  request : ReqEnv
  readback : BitVec 64
  release : ReqEnv

namespace Dvfs

def emit (d : Dvfs) (evs : List DvfsEv) : Dvfs :=
  { d with log := d.log ++ evs }

/-- The request goes through the export. -/
def exported (d : Dvfs) (env : ReqEnv) : Bool :=
  d.hasExport && env.result != enodev

/-- `ps_req_request`, and whether it returns 0. -/
def psReqRequest (d : Dvfs) (enable noAck : Bool) (env : ReqEnv) :
    Bool × Dvfs :=
  if d.exported env then
    (env.result == 0, d.emit [.request enable env.writes])
  else
    (noAck || env.acked, d.emit [.readReq env.req,
        .writeReq (if enable then reqUp env.req else reqDown env.req)])

/-- `ane_dvfs_release`. -/
def release (d : Dvfs) (levelSet psreqSet : Bool) (env : ReqEnv) : Dvfs :=
  let d₁ :=
    if levelSet then d.emit [.cmd (cmdWord d.level 0), .level levelBase] else d
  let d₂ := if psreqSet then (d₁.psReqRequest false true env).2 else d₁
  d₂.emit [.cmd (cmdWord 0 0), .on 0]

/-- The last part of `ane_dvfs_up`, from the request on. -/
def raise (d : Dvfs) (level : Nat) (env : UpEnv) : Dvfs :=
  let (ok, d₁) := d.psReqRequest true false env.request
  if !ok then
    { d₁.release false true env.release with
      ackTimeouts := d.ackTimeouts + 1, state := .psAckTimeout }
  else
    let d₂ := d₁.emit [.readReq env.readback]
    if !reqIsUp env.readback then
      { d₂.release false true env.release with
        state := .psReqReadbackUnexpected }
    else
      { d₂.emit [.cmd (cmdWord 0 level), .level (levelWord level)] with
        level := level, active := true, state := .level level }

/-- `ane_dvfs_up`. -/
def up (d : Dvfs) (env : UpEnv) : Dvfs :=
  let level := min env.level levelMax
  if !d.mapped || d.active then d
  else if level = 0 then { d with state := .levelZeroByParameter }
  else if maxTimeouts ≤ d.ackTimeouts then
    { d with state := .disabledAfterPsAckTimeouts }
  else if env.status &&& 1 ≠ 1 then { d with state := .pmpNotRunning }
  else if env.on ≠ 0 then { d with state := .dvfsBusy }
  else
    let d₁ := d.emit [.readReq env.first]
    if !reqMayUp env.first then { d₁ with state := .psReqAlreadySet }
    else if env.levelWord ≠ 0 ∧
        (env.levelWord < levelBase ∨ levelWord levelMax < env.levelWord) then
      { d₁ with state := .levelWordUnexpected }
    else
      let d₂ := d₁.emit [.on 1, .cmd (cmdWord 0 0), .readReq env.again]
      if !reqMayUp env.again then
        { d₂.release false false env.release with state := .psReqChanged }
      else d₂.raise level env

/-- `ane_dvfs_down`. -/
def down (d : Dvfs) (env : ReqEnv) : Dvfs :=
  if !d.active then d
  else
    { d.release true true env with active := false, state := .level 0 }

end Dvfs

end OmarchyAne.M1
