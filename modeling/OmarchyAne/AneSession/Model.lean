import OmarchyAne.AneSession.Command
import Mathlib.Logic.Function.Basic

/-!
# The session (tools/ane-session.c)

A session holds programs open under names.  A program is cached under the
hashes of its two files, so names with equal files share one program and its
buffers on the device (`Key`).  A name may keep some of its inputs in the
session (`State`): they carry the bytes of an output over to the next call.

The model follows the commands with every refusal.  `World` has what the
session computes through other code from the bytes of files: the port table,
the memory that a program needs, and the outputs of a program.  The outputs
are a function of the inputs that were sent last.  `CmdEnv` has what happens to
one command: the files, the allocations, the device.

Port sizes are those of buffers that exist, so their sums do not wrap.
-/

namespace OmarchyAne.AneSession

open Lib

structure Port where
  dir : Nat
  tileBytes : Nat
  deriving DecidableEq

structure World where
  /-- `read_port_file`, on the bytes of the file. -/
  ports : Bytes → Option (List Port)
  /-- `program_demand`. -/
  demand : Bytes → List Port → Option Nat
  /-- The byte of an output, from the two files and the inputs. -/
  outputs : Bytes → Bytes → List Bytes → Nat → Nat → UInt8

structure Cfg where
  maxProgs : Nat
  boCap : Nat
  boUsed : Nat

structure CmdEnv where
  file : Bytes → Option Bytes
  /-- `ane_m2_init_ports` succeeds. -/
  opens : Bool
  /-- The allocations of the command that succeed, in their order. -/
  mem : Nat → Bool
  /-- `ane_m2_exec` succeeds. -/
  exec : Bool
  /-- The time of the call. -/
  us : Int
  /-- The payload of the reply is written. -/
  written : Bool
  /-- `open` and `flock` succeed. -/
  lock : Bool

/-- Nothing fails, and the content of a file is its name. -/
def plainEnv : CmdEnv where
  file := some
  opens := true
  mem := fun _ => true
  exec := true
  us := 0
  written := true
  lock := true

/-! ## Ports -/

/-- `port_dir_index`. -/
def portDirIndex (table : List Port) (k dir : Nat) : Nat :=
  (table.take k).countP (·.dir == dir)

/-- `port_at`: the port with a position among the ports of a direction. -/
def portAt (table : List Port) (dir idx : Nat) : Option Port :=
  (table.filter (·.dir == dir))[idx]?

/-- The bytes of the ports of a direction. -/
def dirTotal (table : List Port) (dir : Nat) : Nat :=
  ((table.filter (·.dir == dir)).map (·.tileBytes)).sum

/-! ## The state of a session -/

/-- `struct session_state`. -/
structure State where
  inIdx : Nat
  outIdx : Nat
  tileBytes : Nat
  runBytes : Nat
  offs : List Nat
  buf : Bytes

/-- `struct session_key`.  `id` are the hashes that `keybuf` prints, `anec` and
`ports` the bytes of the files, and `sent` the inputs on the device. -/
structure Key where
  id : UInt64 × UInt64
  anec : Bytes
  ports : Bytes
  table : List Port
  demand : Nat
  sent : Nat → Bytes

/-- `struct session_prog`.  `key` is the place of the key in the cache. -/
structure Prog where
  name : Bytes
  key : Nat
  inTotal : Nat
  outTotal : Nat
  st : List State

structure Session where
  progs : List Prog
  keys : List Key
  demand : Nat
  failed : Bool
  /-- The files of the programs that were loaded. -/
  loaded : List Bytes

namespace Session

def start : Session := ⟨[], [], 0, false, []⟩

/-- `session_prog_find`. -/
def find (s : Session) (name : Bytes) : Option Prog :=
  s.progs.find? (·.name = name)

def emptyKey : Key := ⟨(0, 0), [], [], [], 0, fun _ => []⟩

/-- The program of a name. -/
def keyOf (s : Session) (p : Prog) : Key := s.keys.getD p.key emptyKey

def fail (s : Session) : Session := { s with failed := true }

/-- The entry of a name is replaced. -/
def setProg (s : Session) (name : Bytes) (f : Prog → Prog) : Session :=
  { s with progs := s.progs.map fun p => if p.name = name then f p else p }

end Session

/-- `fnv_file`, on the bytes of the file. -/
def fnv (b : Bytes) : UInt64 :=
  b.foldl (fun h x => (h ^^^ x.toUInt64) * 0x100000001b3) 0xcbf29ce484222325

inductive Refusal where
  | alreadyLoaded | badPorts | maxProgs | unreadable | keyCacheFull
  | buildFailed | boCap | deviceOpenFailed | notLoaded | badRunCount
  | shortInput | badField | sessionFailed | noSuchPort | tileBytesDiffer
  | alreadyResident | badRunBytes | runOutOfTile | noMem | execFailed | lock
  deriving DecidableEq

inductive Reply where
  | pong
  | quit
  | lock
  | unlock
  | load (name : Bytes) (nIn nOut : Nat)
  | free (name : Bytes)
  | state (name : Bytes)
  | reset
  | call (name : Bytes) (us : Int) (payload : Bytes)
  /-- A reply to a call whose payload could not be written. -/
  | torn (name : Bytes) (us : Int)
  | err (name : Bytes) (why : Refusal)
  deriving DecidableEq

/-- The end of a command: the reply, the session, the bytes that the command
took from the stream and the rest of the stream. -/
structure Out where
  reply : Reply
  session : Session
  taken : Bytes
  rest : Bytes

/-! ## LOAD and FREE -/

/-- The name is bound to the program at a place in the cache. -/
def bindName (s : Session) (name anec ports : Bytes) (key : Nat)
    (table : List Port) : Reply × Session :=
  (.load name (table.countP (·.dir == 0)) (table.countP (·.dir == 1)),
    { s with
      progs := s.progs ++ [⟨name, key, dirTotal table 0, dirTotal table 1, []⟩]
      loaded := s.loaded ++ [anec, ports] })

/-- A program that is not in the cache. -/
def loadNew (w : World) (cfg : Cfg) (env : CmdEnv) (s : Session)
    (name anec ports : Bytes) (table : List Port) : Reply × Session :=
  if cfg.maxProgs ≤ s.keys.length then (.err name .keyCacheFull, s.fail)
  else
    match w.demand anec table with
    | none => (.err name .buildFailed, s.fail)
    | some demand =>
      if cfg.boCap ≠ 0 ∧ cfg.boCap < s.demand + demand + cfg.boUsed then
        (.err name .boCap, s.fail)
      else if !env.opens then (.err name .deviceOpenFailed, s.fail)
      else
        let k : Key :=
          ⟨(fnv anec, fnv ports), anec, ports, table, demand, fun _ => []⟩
        bindName
          { s with keys := s.keys ++ [k], demand := s.demand + demand }
          name anec ports s.keys.length table

/-- `cmd_load`. -/
def cmdLoad (w : World) (cfg : Cfg) (env : CmdEnv) (s : Session)
    (name anecPath portsPath : Bytes) : Reply × Session :=
  if (s.find name).isSome then (.err name .alreadyLoaded, s.fail)
  else
    match (env.file portsPath).bind w.ports with
    | none => (.err name .badPorts, s.fail)
    | some table =>
      if cfg.maxProgs ≤ s.progs.length then (.err name .maxProgs, s.fail)
      else
        match env.file anecPath, env.file portsPath with
        | some anec, some ports =>
          match s.keys.findIdx? (·.id = (fnv anec, fnv ports)) with
          | some i =>
            bindName s name anec ports i (s.keys.getD i Session.emptyKey).table
          | none => loadNew w cfg env s name anec ports table
        | _, _ => (.err name .unreadable, s.fail)

/-- `FREE`: the name goes, the program stays in the cache. -/
def cmdFree (s : Session) (name : Bytes) : Reply × Session :=
  match s.find name with
  | none => (.err name .notLoaded, s.fail)
  | some _ =>
    (.free name, { s with progs := s.progs.filter (·.name ≠ name) })

/-! ## STATE and RESET -/

namespace Prog

/-- `state_by_in`. -/
def stateByIn (p : Prog) (idx : Nat) : Option State :=
  p.st.find? (·.inIdx = idx)

/-- `state_by_out`. -/
def stateByOut (p : Prog) (idx : Nat) : Option State :=
  p.st.find? (·.outIdx = idx)

/-- `state_zero`. -/
def stateZero (p : Prog) : Prog :=
  { p with st := p.st.map fun st =>
      { st with buf := List.replicate st.tileBytes 0 } }

end Prog

/-- `ANE_SESSION_MAX_RUNS`. -/
def maxRuns : Nat := 2 ^ 22

/-- The checks of `cmd_state` on runs: their length and their places. -/
def runsFit (tileBytes runBytes : Nat) (offs : List Nat) : Except Refusal Unit :=
  if runBytes = 0 ∨ tileBytes < runBytes then .error .badRunBytes
  else if offs.any fun o => tileBytes < o || tileBytes - o < runBytes then
    .error .runOutOfTile
  else .ok ()

/-- The checks of `cmd_state` once the offsets are read. -/
def checkState (s : Session) (name : Bytes) (fields : Option (Nat × Nat × Nat))
    (offs : List Nat) : Except Refusal State :=
  match fields with
  | none => .error .badField
  | some (ia, ib, rb) =>
    if 2 ^ 32 ≤ ia ∨ 2 ^ 32 ≤ ib then .error .badField
    else if s.failed then .error .sessionFailed
    else
      match s.find name with
      | none => .error .notLoaded
      | some p =>
        match portAt (s.keyOf p).table 0 ia, portAt (s.keyOf p).table 1 ib with
        | some pin, some pout =>
          if pin.tileBytes ≠ pout.tileBytes then .error .tileBytesDiffer
          else if (p.stateByIn ia).isSome ∨ (p.stateByOut ib).isSome then
            .error .alreadyResident
          else
            (runsFit pin.tileBytes rb offs).map fun _ =>
              ⟨ia, ib, pin.tileBytes, rb, offs, List.replicate pin.tileBytes 0⟩
        | _, _ => .error .noSuchPort

/-- `cmd_state`. -/
def cmdState (env : CmdEnv) (s : Session) (name : Bytes)
    (fields : Option (Nat × Nat × Nat)) (nruns : Nat) (input : Bytes) : Out :=
  let refuse := fun why taken rest => (⟨.err name why, s.fail, taken, rest⟩ : Out)
  if nruns = 0 ∨ maxRuns < nruns then refuse .badRunCount [] input
  else if !env.mem 0 then refuse .shortInput [] input
  else if input.length < 8 * nruns then refuse .shortInput input []
  else
    let taken := input.take (8 * nruns)
    let rest := input.drop (8 * nruns)
    match checkState s name fields (words64 nruns taken) with
    | .error why => refuse why taken rest
    | .ok st =>
      if !env.mem 1 || !env.mem 2 then refuse .noMem taken rest
      else
        ⟨.state name, s.setProg name fun p => { p with st := p.st ++ [st] },
          taken, rest⟩

/-- `cmd_reset`. -/
def cmdReset (s : Session) : Option Bytes → Reply × Session
  | some name =>
    match s.find name with
    | none => (.err name .notLoaded, s.fail)
    | some _ => (.reset, s.setProg name Prog.stateZero)
  | none => (.reset, { s with progs := s.progs.map Prog.stateZero })

/-! ## CALL -/

/-- The bytes of a direction that are on the stream: the total without the
resident ports. -/
def wire (total : Nat) (st : List State) : Nat :=
  st.foldl (fun n s => n - s.tileBytes) total

/-- One turn of the loop over the inputs.  The place in the payload and the
inputs on the device. -/
def sendPort (p : Prog) (table : List Port) (payload : Bytes)
    (acc : Nat × (Nat → Bytes)) (port : Port × Nat) : Nat × (Nat → Bytes) :=
  let (off, sent) := acc
  if port.1.dir ≠ 0 then (off, sent)
  else
    let idx := portDirIndex table port.2 0
    match p.stateByIn idx with
    | some rs => (off, Function.update sent rs.inIdx rs.buf)
    | none =>
      (off + port.1.tileBytes, Function.update sent idx (slice payload off port.1.tileBytes))

/-- The inputs of a call are sent. -/
def sendAll (p : Prog) (table : List Port) (payload : Bytes)
    (sent : Nat → Bytes) : Nat → Bytes :=
  (table.zipIdx.foldl (sendPort p table payload) (0, sent)).2

/-- `ane_m2_read`: the bytes of an output. -/
def readOut (out : Nat → Nat → UInt8) (idx tileBytes : Nat) : Bytes :=
  (List.range tileBytes).map (out idx)

/-- The outputs of a call that are not resident, one after the other. -/
def readAll (p : Prog) (table : List Port) (out : Nat → Nat → UInt8) : Bytes :=
  table.zipIdx.flatMap fun port =>
    if port.1.dir ≠ 1 then []
    else
      let idx := portDirIndex table port.2 1
      if (p.stateByOut idx).isSome then []
      else readOut out idx port.1.tileBytes

/-- The state after a call: zero, then the runs of the output. -/
def State.carry (st : State) (scratch : Bytes) : State :=
  let zero := List.replicate st.tileBytes 0
  { st with buf := copyRuns scratch st.runBytes st.offs zero }

/-- One turn of the loop that carries.  At most one pair has an output. -/
def carryPort (table : List Port) (out : Nat → Nat → UInt8)
    (st : List State) (port : Port × Nat) : List State :=
  if port.1.dir ≠ 1 then st
  else
    let idx := portDirIndex table port.2 1
    st.map fun rs =>
      if rs.outIdx = idx then rs.carry (readOut out rs.outIdx port.1.tileBytes)
      else rs

/-- The states of a name after a call. -/
def carryAll (table : List Port) (out : Nat → Nat → UInt8)
    (st : List State) : List State :=
  table.zipIdx.foldl (carryPort table out) st

/-- The program of a call, with the inputs that were sent. -/
def Session.setSent (s : Session) (i : Nat) (sent : Nat → Bytes) : Session :=
  { s with keys := s.keys.modify i fun k => { k with sent := sent } }

/-- What the device computed from the inputs that were sent last. -/
def Key.run (w : World) (k : Key) : Nat → Nat → UInt8 :=
  w.outputs k.anec k.ports
    ((List.range (k.table.countP (·.dir == 0))).map k.sent)

/-- `cmd_call` once its payload is read. -/
def callLoaded (w : World) (env : CmdEnv) (s : Session) (p : Prog)
    (payload : Bytes) : Reply × Session :=
  let k := s.keyOf p
  let sent := sendAll p k.table payload k.sent
  let s₁ := s.setSent p.key sent
  if !env.mem 1 || (!p.st.isEmpty && !env.mem 2) then
    (.err p.name .noMem, s₁.fail)
  else if !env.exec then (.err p.name .execFailed, s₁.fail)
  else
    let out := Key.run w { k with sent := sent }
    let outWire := wire p.outTotal p.st
    if outWire ≠ 0 ∧ env.written = false then (.torn p.name env.us, s₁.fail)
    else
      (.call p.name env.us ((readAll p k.table out).take outWire),
        s₁.setProg p.name fun p =>
          { p with st := carryAll k.table out p.st })

/-- `cmd_call`. -/
def cmdCall (w : World) (env : CmdEnv) (s : Session) (name : Bytes)
    (input : Bytes) : Out :=
  match s.find name with
  | none => ⟨.err name .notLoaded, s.fail, [], input⟩
  | some p =>
    if s.failed then ⟨.err name .sessionFailed, s, [], input⟩
    else if !env.mem 0 then ⟨.err name .noMem, s.fail, [], input⟩
    else
      let inWire := wire p.inTotal p.st
      if input.length < inWire then ⟨.err name .shortInput, s.fail, input, []⟩
      else
        let r := callLoaded w env s p (input.take inWire)
        ⟨r.1, r.2, input.take inWire, input.drop inWire⟩

/-! ## The main loop -/

/-- A command that takes nothing from the stream. -/
def lineOnly (r : Reply × Session) (input : Bytes) : Out := ⟨r.1, r.2, [], input⟩

def execCmd (w : World) (cfg : Cfg) (env : CmdEnv) (s : Session) (cmd : Cmd)
    (input : Bytes) : Out :=
  match cmd with
  | .ping => lineOnly (.pong, s) input
  | .quit => lineOnly (.quit, s) input
  | .lock =>
    lineOnly (if env.lock then (.lock, s) else (.err [] .lock, s.fail)) input
  | .unlock =>
    lineOnly (if env.lock then (.unlock, s) else (.err [] .lock, s.fail)) input
  | .load name anec ports =>
    lineOnly (cmdLoad w cfg env s name anec ports) input
  | .free name => lineOnly (cmdFree s name) input
  | .state name fields nruns => cmdState env s name fields nruns input
  | .reset name => lineOnly (cmdReset s name) input
  | .call name => cmdCall w env s name input

/-- `getline`: the next line and what comes after it. -/
def getline : Bytes → Option (Bytes × Bytes)
  | [] => none
  | input =>
    match cut 10 input with
    | (line, none) => some (line, [])
    | (line, some rest) => some (line, rest)

/-- A command that was executed: its answers, the bytes that it took from the
stream and its reply. -/
structure Entry where
  env : CmdEnv
  cmd : Cmd
  taken : Bytes
  reply : Reply

/-- The loop of `main`, for as many commands as the environment has answers
for: the commands that it executed, in order, and the session. -/
def run (w : World) (cfg : Cfg) :
    List CmdEnv → Session → Bytes → List Entry × Session
  | [], s, _ => ([], s)
  | env :: envs, s, input =>
    match getline input with
    | none => ([], s)
    | some (line, rest) =>
      match parseLine line with
      | none => ([], s)
      | some cmd =>
        let o := execCmd w cfg env s cmd rest
        let e : Entry := ⟨env, cmd, o.taken, o.reply⟩
        if cmd = .quit then ([e], o.session)
        else
          let r := run w cfg envs o.session o.rest
          (e :: r.1, r.2)

end OmarchyAne.AneSession
