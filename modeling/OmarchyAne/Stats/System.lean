import Mathlib.Algebra.Group.Nat.Defs
import OmarchyAne.Lib.Run

/-!
# The statistics of the drivers

`ane_stats_begin` and `ane_stats_complete` run at the same time on several
CPUs.  They count the submissions in flight, fold each busy period into
`busy_ns` when its last submission completes, and write one slot of a ring for
each submission.  `ane_stats_snapshot` and `ane_timeline_show` read the
counters and the ring without a lock.

A submission, a snapshot and a read of the timeline have a program counter
each.  One step is one atomic access of the source.  A step that only tests
local values is kept where the loop of the source tests them.  A run of
`statsSystem` is one interleaving of any number of calls.

The clock and the samples that the callers pass are numbers.  `head`, the
tickets and `jobs` do not wrap: they count submissions in 64 bits.

Three parts of the state are ghosts.  `Counters.folds` lists the periods that
were added to `busy_ns`.  A `Cell` knows the ticket it was written for.
`Report.since` is the number of snapshots that had returned when this one was
called.
-/

namespace OmarchyAne.Stats

open Lib

/-! ## Counters and ring -/

/-- `ANE_STATS_INFLIGHT_TRANS`. -/
def inflightTrans : Nat := 0xFFFFFFFF

/-- `struct ane_stats_counters`. -/
structure Counters where
  busyNs : Nat
  jobs : Nat
  lastBusyEnd : Nat
  maxEnd : Nat
  inflight : Nat
  folds : List (Nat × Nat)
  deriving DecidableEq, Repr

/-- The words of a slot that describe a submission. -/
inductive Field where
  | submitNs | startNs | endNs | tasks | rc | tmst
  deriving DecidableEq, Repr

/-- A word of a slot, and the ticket it was written for. -/
structure Cell where
  val : Nat
  ticket : Nat
  deriving DecidableEq, Repr

/-- `struct ane_stats_ring_entry`. -/
structure Entry where
  seq : Nat
  cell : Field → Cell

/-- `struct ane_stats_ring`. -/
structure Ring where
  head : Nat
  mask : Nat
  slots : Nat → Entry

namespace Ring

/-- The slot of a ticket. -/
def index (r : Ring) (ticket : Nat) : Nat := (ticket - 1) &&& r.mask

/-- The slot of a ticket, as it is now. -/
def entry (r : Ring) (ticket : Nat) : Entry := r.slots (r.index ticket)

/-- A store to the slot of a ticket. -/
def update (r : Ring) (ticket : Nat) (f : Entry → Entry) : Ring :=
  { r with slots := fun k =>
      if k = r.index ticket then f (r.slots k) else r.slots k }

/-- A store of the sequence word. -/
def setSeq (r : Ring) (ticket seq : Nat) : Ring :=
  r.update ticket (fun e => { e with seq := seq })

/-- A store of another word, for the submission with this ticket. -/
def setCell (r : Ring) (ticket : Nat) (f : Field) (val : Nat) : Ring :=
  r.update ticket (fun e =>
    { e with cell := fun g => if g = f then ⟨val, ticket⟩ else e.cell g })

end Ring

/-! ## Submissions -/

/-- The program counter of a submission. -/
inductive Pc where
  /-- `ane_stats_begin`, before the ticket is taken. -/
  | take
  /-- At a read of `inflight`. -/
  | read
  /-- In the loop, with the value that was read. -/
  | enter (cur : Nat)
  /-- The sentinel is set, before the read of `max_end`. -/
  | readMax
  /-- Before the store of `last_busy_end`. -/
  | latch (value : Nat)
  /-- Before the store that opens the period. -/
  | openUp
  /-- Before the load of the old sequence word. -/
  | pair
  /-- Before the store of the odd sequence word. -/
  | storeSeq
  /-- Before the read of `last_busy_end`. -/
  | readStart
  /-- Before the store of another word. -/
  | store (f : Field)
  /-- `ane_stats_begin` returned. -/
  | begun
  /-- `ane_stats_complete`, before the first read of `inflight`. -/
  | readCur
  /-- `ane_stats_atomic64_max`, before the read of `max_end`. -/
  | readOld (cur : Nat)
  /-- In the loop of `ane_stats_atomic64_max`. -/
  | feed (cur old : Nat)
  /-- In the loop, with the value that was read. -/
  | leave (cur : Nat)
  /-- At a further read of `inflight`. -/
  | reread
  /-- The sentinel is set, before the read of `last_busy_end`. -/
  | readLatch
  /-- Before the read of `max_end`. -/
  | readFold (start : Nat)
  /-- Before the fold. -/
  | fold (start : Nat)
  /-- Before the store that ends the transition. -/
  | release
  /-- Before the job is counted. -/
  | count
  /-- Before the stores to the slot. -/
  | commitEnd | commitRc | commitTmst | commitSeq
  /-- `ane_stats_complete` returned. -/
  | done
  deriving DecidableEq, Repr

/-- A submission: the arguments and the local values of the two calls. -/
structure Sub where
  submitNs : Nat
  tasks : Nat
  ticket : Nat
  startNs : Nat
  endNs : Nat
  rc : Nat
  tmst : Nat
  foldEnd : Nat
  pc : Pc
  deriving DecidableEq, Repr

namespace Sub

/-- The end that `ane_stats_complete` records. -/
def fin (u : Sub) : Nat := if u.foldEnd ≠ 0 then u.foldEnd else u.endNs

/-- What `ane_stats_begin` stores in a word of the slot. -/
def beginValue (u : Sub) : Field → Nat
  | .submitNs | .endNs => u.submitNs
  | .startNs => u.startNs
  | .tasks => u.tasks
  | .rc => 0xFFFFFFFF
  | .tmst => 0

/-- Where `ane_stats_begin` goes on after the store of a word. -/
def beginNext : Field → Pc
  | .submitNs => .readStart
  | .startNs => .store .endNs
  | .endNs => .store .tasks
  | .tasks => .store .rc
  | .rc => .store .tmst
  | .tmst => .begun

/-- The loop of `ane_stats_begin`. -/
def enterStep (c : Counters) (u : Sub) (cur : Nat) : Counters × Sub :=
  if cur = inflightTrans then (c, { u with pc := .enter c.inflight })
  else if cur = 0 then
    if c.inflight = 0 then
      ({ c with inflight := inflightTrans }, { u with pc := .readMax })
    else (c, { u with pc := .read })
  else if c.inflight = cur then
    ({ c with inflight := cur + 1 }, { u with pc := .pair })
  else (c, { u with pc := .enter c.inflight })

/-- The loop of `ane_stats_complete`. -/
def leaveStep (c : Counters) (u : Sub) (cur : Nat) : Counters × Sub :=
  if cur = inflightTrans then (c, { u with pc := .leave c.inflight })
  else if 1 < cur then
    if c.inflight = cur then
      ({ c with inflight := cur - 1 }, { u with pc := .count })
    else (c, { u with pc := .leave c.inflight })
  else if cur = 0 then (c, { u with pc := .count })
  else if c.inflight = 1 then
    ({ c with inflight := inflightTrans }, { u with pc := .readLatch })
  else (c, { u with pc := .reread })

/-- The start of the period that a submission opens. -/
def latchValue (c : Counters) (u : Sub) : Nat :=
  if c.maxEnd < u.submitNs then u.submitNs else c.maxEnd

/-- The end of the period that a submission closes. -/
def foldValue (c : Counters) (u : Sub) : Nat :=
  if c.maxEnd < u.endNs then u.endNs else c.maxEnd

/-- The fold of a closed period. -/
def foldStep (c : Counters) (u : Sub) (start : Nat) : Counters × Sub :=
  if start < u.foldEnd then
    ({ c with
        busyNs := c.busyNs + (u.foldEnd - start)
        folds := c.folds ++ [(start, u.foldEnd)] },
      { u with pc := .release })
  else (c, { u with pc := .release })

/-- The next step of a submission, as far as the counters go. -/
def countersStep (c : Counters) (u : Sub) : Counters × Sub :=
  match u.pc with
  | .take | .begun | .done => (c, u)
  | .read => (c, { u with pc := .enter c.inflight })
  | .enter cur => u.enterStep c cur
  | .readMax => (c, { u with pc := .latch (u.latchValue c) })
  | .latch value => ({ c with lastBusyEnd := value }, { u with pc := .openUp })
  | .openUp => ({ c with inflight := 1 }, { u with pc := .pair })
  | .pair => (c, { u with pc := .storeSeq })
  | .storeSeq => (c, { u with pc := .store .submitNs })
  | .readStart =>
    (c, { u with startNs := c.lastBusyEnd, pc := .store .startNs })
  | .store f => (c, { u with pc := beginNext f })
  | .readCur => (c, { u with pc := .readOld c.inflight })
  | .readOld cur => (c, { u with pc := .feed cur c.maxEnd })
  | .feed cur old =>
    if old < u.endNs then
      if c.maxEnd = old then
        ({ c with maxEnd := u.endNs }, { u with pc := .leave cur })
      else (c, { u with pc := .feed cur c.maxEnd })
    else (c, { u with pc := .leave cur })
  | .leave cur => u.leaveStep c cur
  | .reread => (c, { u with pc := .leave c.inflight })
  | .readLatch => (c, { u with pc := .readFold c.lastBusyEnd })
  | .readFold start =>
    (c, { u with foldEnd := u.foldValue c, pc := .fold start })
  | .fold start => u.foldStep c start
  | .release => ({ c with inflight := 0 }, { u with pc := .count })
  | .count => ({ c with jobs := c.jobs + 1 }, { u with pc := .commitEnd })
  | .commitEnd => (c, { u with pc := .commitRc })
  | .commitRc => (c, { u with pc := .commitTmst })
  | .commitTmst => (c, { u with pc := .commitSeq })
  | .commitSeq => (c, { u with pc := .done })

/-- The same step, as far as the ring goes. -/
def ringStep (r : Ring) (u : Sub) : Ring :=
  match u.pc with
  | .take => { r with head := r.head + 1 }
  | .storeSeq => r.setSeq u.ticket (2 * u.ticket - 1)
  | .store f => r.setCell u.ticket f (u.beginValue f)
  | .commitEnd => r.setCell u.ticket .endNs u.fin
  | .commitRc => r.setCell u.ticket .rc u.rc
  | .commitTmst => r.setCell u.ticket .tmst u.tmst
  | .commitSeq => r.setSeq u.ticket (2 * u.ticket)
  | _ => r

/-- The next step of a submission.  A call that returned makes none. -/
def step (c : Counters) (r : Ring) (u : Sub) :
    Option (Counters × Ring × Sub) :=
  match u.pc with
  | .begun | .done => none
  | .take =>
    some (c, u.ringStep r, { u with ticket := r.head + 1, pc := .read })
  | _ => some ((u.countersStep c).1, u.ringStep r, (u.countersStep c).2)

/-- A call of `ane_stats_begin`. -/
def begin (submitNs tasks : Nat) : Sub where
  submitNs := submitNs
  tasks := tasks
  ticket := 0
  startNs := 0
  endNs := 0
  rc := 0
  tmst := 0
  foldEnd := 0
  pc := .take

/-- A call of `ane_stats_complete`. -/
def complete (u : Sub) (endNs rc tmst : Nat) : Sub :=
  { u with
    endNs := endNs
    rc := rc
    tmst := tmst
    foldEnd := 0
    pc := .readCur }

end Sub

/-! ## Snapshots -/

/-- The program counter of a snapshot. -/
inductive SnapPc where
  | readInflight | readBusy | readStart | readClock
  | checkBusy | checkInflight | checkStart
  | done
  deriving DecidableEq, Repr

/-- A call of `ane_stats_snapshot`: its local values. -/
structure Snap where
  since : Nat
  inflight : Nat
  raw : Nat
  start : Nat
  now : Nat
  pc : SnapPc
  deriving DecidableEq, Repr

/-- A snapshot that returned. -/
structure Report where
  since : Nat
  value : Nat
  deriving DecidableEq, Repr

namespace Snap

/-- The value that a snapshot returns if its checks pass. -/
def value (p : Snap) : Nat :=
  if p.inflight ≠ 0 ∧ p.start < p.now then p.raw + (p.now - p.start)
  else p.raw

/-- The next step of a snapshot.  The last step gives the value. -/
def step (c : Counters) (clock : Nat) (p : Snap) : Option (Snap × Option Nat) :=
  match p.pc with
  | .readInflight =>
    if c.inflight = inflightTrans then some (p, none)
    else some ({ p with inflight := c.inflight, pc := .readBusy }, none)
  | .readBusy =>
    some ({ p with
      raw := c.busyNs
      pc := if p.inflight ≠ 0 then .readStart else .readClock }, none)
  | .readStart =>
    some ({ p with start := c.lastBusyEnd, pc := .readClock }, none)
  | .readClock => some ({ p with now := clock, pc := .checkBusy }, none)
  | .checkBusy =>
    if c.busyNs ≠ p.raw then some ({ p with pc := .readInflight }, none)
    else some ({ p with pc := .checkInflight }, none)
  | .checkInflight =>
    if c.inflight ≠ p.inflight then
      some ({ p with pc := .readInflight }, none)
    else if p.inflight ≠ 0 then some ({ p with pc := .checkStart }, none)
    else some ({ p with pc := .done }, some p.value)
  | .checkStart =>
    if c.lastBusyEnd ≠ p.start then
      some ({ p with pc := .readInflight }, none)
    else some ({ p with pc := .done }, some p.value)
  | .done => none

end Snap

/-! ## The timeline -/

/-- The program counter of a read of the timeline. -/
inductive ShowPc where
  /-- Before the read of `head`. -/
  | readHead
  /-- At the top of the loop, before the load of a sequence word. -/
  | loadSeq
  /-- Before the load of another word of the slot. -/
  | load (f : Field)
  | done
  deriving DecidableEq, Repr

/-- A read of the timeline: its local values. -/
structure Show where
  head : Nat
  i : Nat
  seq : Nat
  got : Field → Cell
  pc : ShowPc

/-- A line of the timeline. -/
structure Line where
  ticket : Nat
  cell : Field → Cell

namespace Show

/-- The ticket that the reader looks for. -/
def ticket (v : Show) : Nat := v.head - v.i

/-- The number of slots that the reader visits. -/
def live (mask : Nat) (v : Show) : Nat :=
  if v.head < mask + 1 then v.head else mask + 1

/-- Where the reader goes on after the load of a word. -/
def loadNext : Field → ShowPc
  | .submitNs => .load .startNs
  | .startNs => .load .endNs
  | .endNs => .load .tasks
  | .tasks => .load .rc
  | .rc => .load .tmst
  | .tmst => .loadSeq

/-- The line of a slot, if its sequence word matches. -/
def line (v : Show) : Option Line :=
  if v.seq ≠ 2 * v.ticket then none else some ⟨v.ticket, v.got⟩

/-- The load of one word.  The last one ends the turn of the loop. -/
def loadStep (r : Ring) (v : Show) (f : Field) : Show × Option Line :=
  let v' := { v with
    got := fun g => if g = f then (r.entry v.ticket).cell f else v.got g
    pc := loadNext f }
  if f = .tmst then ({ v' with i := v.i + 1 }, v'.line) else (v', none)

/-- The next step of a read of the timeline, and the line it prints. -/
def step (r : Ring) (v : Show) : Option (Show × Option Line) :=
  match v.pc with
  | .readHead => some ({ v with head := r.head, i := 0, pc := .loadSeq }, none)
  | .loadSeq =>
    if v.i < v.live r.mask then
      some ({ v with seq := (r.entry v.ticket).seq, pc := .load .submitNs },
        none)
    else some ({ v with pc := .done }, none)
  | .load f => some (v.loadStep r f)
  | .done => none

end Show

/-! ## The system -/

/-- The counters, the ring, the clock, the calls in progress, and what the
readers returned so far. -/
structure St where
  ctrs : Counters
  ring : Ring
  clock : Nat
  subs : List Sub
  snaps : List Snap
  reports : List Report
  shows : List Show
  lines : List Line

inductive Act where
  /-- Time passes. -/
  | tick (ns : Nat)
  /-- A driver calls `ane_stats_begin`. -/
  | begin (submitNs tasks : Nat)
  /-- The driver of submission `i` calls `ane_stats_complete`. -/
  | complete (i endNs rc tmst : Nat)
  /-- Submission `i` makes its next step. -/
  | sub (i : Nat)
  /-- A call of `ane_stats_snapshot`. -/
  | snapshot
  /-- Snapshot `i` makes its next step. -/
  | snap (i : Nat)
  /-- A read of the timeline starts. -/
  | timeline
  /-- Timeline read `i` makes its next step. -/
  | print (i : Nat)
  deriving DecidableEq, Repr

/-- One action. -/
def St.step (s : St) : Act → Option St
  | .tick ns => some { s with clock := s.clock + ns }
  | .begin submitNs tasks =>
    some { s with subs := s.subs ++ [Sub.begin submitNs tasks] }
  | .complete i endNs rc tmst =>
    match s.subs[i]? with
    | none => none
    | some u =>
      if u.pc = .begun then
        some { s with subs := s.subs.set i (u.complete endNs rc tmst) }
      else none
  | .sub i =>
    match s.subs[i]? with
    | none => none
    | some u =>
      match u.step s.ctrs s.ring with
      | none => none
      | some (c, r, u') =>
        some { s with ctrs := c, ring := r, subs := s.subs.set i u' }
  | .snapshot =>
    some { s with snaps :=
      s.snaps ++ [⟨s.reports.length, 0, 0, 0, 0, .readInflight⟩] }
  | .snap i =>
    match s.snaps[i]? with
    | none => none
    | some p =>
      match p.step s.ctrs s.clock with
      | none => none
      | some (p', none) => some { s with snaps := s.snaps.set i p' }
      | some (p', some value) =>
        some { s with
          snaps := s.snaps.set i p'
          reports := s.reports ++ [⟨p.since, value⟩] }
  | .timeline =>
    some { s with shows :=
      s.shows ++ [⟨0, 0, 0, fun _ => ⟨0, 0⟩, .readHead⟩] }
  | .print i =>
    match s.shows[i]? with
    | none => none
    | some v =>
      match v.step s.ring with
      | none => none
      | some (v', line) =>
        some { s with
          shows := s.shows.set i v'
          lines := s.lines ++ line.toList }

/-- The interleavings of all calls, from zeroed counters and a zeroed ring of
`2 ^ shift` slots. -/
def statsSystem (shift : Nat) : System St Act where
  init s := s.ctrs = ⟨0, 0, 0, 0, 0, []⟩ ∧ s.ring.head = 0 ∧
    s.ring.mask = 2 ^ shift - 1 ∧
    (∀ k, s.ring.slots k = ⟨0, fun _ => ⟨0, 0⟩⟩) ∧
    s.subs = [] ∧ s.snaps = [] ∧ s.reports = [] ∧ s.shows = [] ∧
    s.lines = []
  step := St.step

end OmarchyAne.Stats
