import OmarchyAne.Lib.Run
import OmarchyAne.M1.Dvfs

/-!
# The driver undoes what it requested

`Monitor` reads the log of the driver and keeps what the rules speak of: the
last writes, whether bit 10 of PS-REQ is the driver's own, and whether a write
has broken a rule.  The driver owns the bit once it has written it over a word
that did not have it, and until it writes it away.

`Disciplined` says what holds after each call, and `Settled` adds what is true
while the boost is active.  Each part of a call has a lemma about the monitor:
`withdraw_spec`, `request_spec`, `release_request`.  `raise_settled` and
`down_settled` put them together.
-/

namespace OmarchyAne.M1

open Lib

/-! ## Bit 10 -/

@[simp]
theorem reqIsUp_reqUp (req : BitVec 64) : reqIsUp (reqUp req) = true := by
  have h : reqUp req &&& psAneSys = psAneSys := by
    ext i hi
    simp only [reqUp, BitVec.getElem_and, BitVec.getElem_or]
    cases req[i] <;> simp
  rw [reqIsUp, h]
  decide

@[simp]
theorem reqIsUp_reqDown (req : BitVec 64) : reqIsUp (reqDown req) = false := by
  have h : reqDown req &&& psAneSys = 0 := by
    ext i hi
    simp only [reqDown, BitVec.getElem_and, BitVec.getElem_not]
    cases psAneSys[i] <;> simp
  rw [reqIsUp, h]
  decide

/-- The two words agree outside bit 10. -/
def sameButBit (r w : BitVec 64) : Bool := r ||| psAneSys == w ||| psAneSys

@[simp]
theorem sameButBit_reqUp (req : BitVec 64) : sameButBit req (reqUp req) = true := by
  simp [sameButBit, reqUp, BitVec.or_assoc]

@[simp]
theorem sameButBit_reqDown (req : BitVec 64) : sameButBit req (reqDown req) = true := by
  rw [sameButBit, beq_iff_eq]
  ext i hi
  simp only [reqDown, BitVec.getElem_or, BitVec.getElem_and, BitVec.getElem_not]
  cases psAneSys[i] <;> simp

/-! ## The monitor -/

/-- The level that a command leaves, and the one that it asks for. -/
def cmdPrev (w : BitVec 32) : BitVec 32 := w >>> 4 &&& 0xf

def cmdNew (w : BitVec 32) : BitVec 32 := w &&& 0xf

structure Monitor where
  on : Option (BitVec 32)
  cmd : Option (BitVec 32)
  level : Option (BitVec 64)
  /-- The value of PS-REQ that was read last. -/
  read : Option (BitVec 64)
  /-- Bit 10 is the driver's. -/
  own : Bool
  /-- Each write of PS-REQ kept the other bits of the last read. -/
  masked : Bool
  /-- No request was cleared that a read had found set by another agent. -/
  kept : Bool
  /-- Each command left the level that the command before asked for. -/
  undone : Bool

namespace Monitor

def start : Monitor := ⟨none, none, none, none, false, true, true, true⟩

/-- The last read did not find the bit set. -/
def unset (m : Monitor) : Bool := m.read.all reqMayUp

/-- The level that the last command asked for. -/
def asked (m : Monitor) : BitVec 32 := (m.cmd.map cmdNew).getD 0

def next (m : Monitor) : DvfsEv → Monitor
  | .on w => { m with on := some w }
  | .cmd w => { m with
      cmd := some w
      undone := m.undone && cmdPrev w == m.asked }
  | .level w => { m with level := some w }
  | .readReq r => { m with read := some r }
  | .writeReq w => { m with
      own := reqIsUp w && (m.own || m.unset)
      masked := m.masked && m.read.any fun r => sameButBit r w
      kept := m.kept && (reqIsUp w || m.own || m.unset) }
  | .request true wrote => { m with own := m.own || wrote }
  | .request false wrote => { m with
      own := m.own && !wrote
      kept := m.kept && (!wrote || m.own || m.unset) }

end Monitor

namespace Dvfs

/-- What the log of the driver says. -/
def seen (d : Dvfs) : Monitor := d.log.foldl Monitor.next Monitor.start

@[simp]
theorem seen_emit (d : Dvfs) (evs : List DvfsEv) :
    (d.emit evs).seen = evs.foldl Monitor.next d.seen := by
  simp [seen, emit]

end Dvfs

/-- The rules that hold after each call. -/
structure Disciplined (d : Dvfs) : Prop where
  off : d.active = false → d.seen.on ∈ [none, some 0]
  withdrawn : d.active = false → d.seen.own = false
  atBase : d.active = false → d.seen.level ∈ [none, some levelBase]
  masked : d.seen.masked = true
  kept : d.seen.kept = true
  undone : d.seen.undone = true

/-! ## One request -/

namespace Dvfs

variable {d : Dvfs} {env : ReqEnv} {level : Nat}

/-- A withdrawal takes effect and takes nobody else's request: the export
writes the word, or the driver's own update finds the bit only when it is the
driver's. -/
def withdraws (d : Dvfs) (own : Bool) (env : ReqEnv) : Bool :=
  if d.exported env then env.writes else own || reqMayUp env.req

/-- A request does not find the bit set. -/
def asks (d : Dvfs) (env : ReqEnv) : Bool :=
  d.exported env || reqMayUp env.req

/-- The request leaves the bit to the driver. -/
def gains (d : Dvfs) (env : ReqEnv) : Bool :=
  !d.exported env || env.writes

theorem withdraw_spec (hknown : d.seen.own = true ∨ d.seen.unset = true)
    (h : d.withdraws d.seen.own env = true) :
    ∃ read, (d.psReqRequest false true env).2.seen =
      { d.seen with read := read, own := false } := by
  unfold withdraws at h
  unfold psReqRequest
  split at h
  · next hexp =>
    refine ⟨d.seen.read, ?_⟩
    have hkept : (d.seen.own || d.seen.unset) = true := by
      simpa using hknown
    simp [hexp, Monitor.next, h, hkept]
  · next hexp =>
    refine ⟨some env.req, ?_⟩
    simp [hexp, Monitor.next, Monitor.unset, h]

/-- A request from a state in which the bit is free. -/
theorem request_spec (hown : d.seen.own = false) (hunset : d.seen.unset = true)
    (h : d.asks env = true) :
    (∃ read, read.all reqMayUp = true ∧ (d.psReqRequest true false env).2.seen =
        { d.seen with read := read, own := d.gains env }) ∧
    ((d.psReqRequest true false env).1 = true → d.gains env = true) := by
  unfold asks at h
  unfold psReqRequest gains
  split
  · next hexp =>
    refine ⟨⟨d.seen.read, hunset, ?_⟩, ?_⟩
    · simp [hexp, Monitor.next, hown]
    · intro hok
      simp [ReqEnv.writes, show env.result = 0 by simpa using hok]
  · next hexp =>
    have hreq : reqMayUp env.req = true := by simpa [hexp] using h
    refine ⟨⟨some env.req, hreq, ?_⟩, fun _ => by simp [hexp]⟩
    simp [hexp, Monitor.next, Monitor.unset, hown, hreq]

@[simp]
theorem psReqRequest_active (d : Dvfs) (enable noAck : Bool) (env : ReqEnv) :
    (d.psReqRequest enable noAck env).2.active = d.active := by
  unfold psReqRequest
  split <;> rfl

@[simp]
theorem psReqRequest_hasExport (d : Dvfs) (enable noAck : Bool) (env : ReqEnv) :
    (d.psReqRequest enable noAck env).2.hasExport = d.hasExport := by
  unfold psReqRequest
  split <;> rfl

/-! ## The release -/

theorem release_active (d : Dvfs) (levelSet psreqSet : Bool) (env : ReqEnv) :
    (d.release levelSet psreqSet env).active = d.active := by
  unfold release
  cases levelSet <;> cases psreqSet <;> simp [emit]

/-- A command that asks for a level leaves none. -/
theorem cmdPrev_asks (h : level ≤ levelMax) : cmdPrev (cmdWord 0 level) = 0 := by
  have hall : ∀ l < 6, cmdPrev (cmdWord 0 l) = 0 := by decide
  exact hall level (Nat.lt_succ_of_le h)

theorem cmdPrev_zero : cmdPrev (cmdWord 0 0) = 0 := cmdPrev_asks (by decide)

theorem cmdNew_zero : cmdNew (cmdWord 0 0) = 0 := by decide

/-- A command that leaves a level, after the one that asked for it. -/
theorem cmdPrev_leaves (h : level ≤ levelMax) :
    cmdNew (cmdWord 0 level) = cmdPrev (cmdWord level 0) := by
  have hall : ∀ l < 6, cmdNew (cmdWord 0 l) = cmdPrev (cmdWord l 0) := by
    decide
  exact hall level (Nat.lt_succ_of_le h)

/-- Both commands of a release ask for the level 0. -/
theorem cmdNew_leaves (h : level ≤ levelMax) : cmdNew (cmdWord level 0) = 0 := by
  have hall : ∀ l < 6, cmdNew (cmdWord l 0) = 0 := by decide
  exact hall level (Nat.lt_succ_of_le h)

/-- The release of a request, before a level was set. -/
theorem release_request (hknown : d.seen.own = true ∨ d.seen.unset = true)
    (h : d.withdraws d.seen.own env = true) (hasked : d.seen.asked = 0) :
    ∃ read, (d.release false true env).seen = { d.seen with
      read := read, own := false, cmd := some (cmdWord 0 0), on := some 0 } := by
  obtain ⟨read, hseen⟩ := withdraw_spec hknown h
  refine ⟨read, ?_⟩
  simp [release, hseen, Monitor.next, cmdPrev_zero]
  exact fun _ => hasked.symm

/-- The release of the level and the request. -/
theorem release_level (hown : d.seen.own = true)
    (h : d.withdraws true env = true) (hlevel : d.level ≤ levelMax)
    (hcmd : d.seen.cmd = some (cmdWord 0 d.level)) :
    ∃ read, (d.release true true env).seen = { d.seen with
      read := read, own := false, level := some levelBase,
      cmd := some (cmdWord 0 0), on := some 0 } := by
  have hmid : (d.emit [.cmd (cmdWord d.level 0), .level levelBase]).seen =
      { d.seen with
        cmd := some (cmdWord d.level 0), level := some levelBase } := by
    simp [Monitor.next, Monitor.asked, hcmd, cmdPrev_leaves hlevel]
  obtain ⟨read, hseen⟩ := @withdraw_spec (d.emit [.cmd (cmdWord d.level 0), .level levelBase]) env
    (.inl (by rw [hmid]; exact hown)) (by rw [hmid, hown]; exact h)
  rw [hmid] at hseen
  refine ⟨read, ?_⟩
  rw [release, seen_emit]
  simp only [if_true, hseen]
  simp [Monitor.next, Monitor.asked, cmdPrev_zero, cmdNew_leaves hlevel]

end Dvfs

/-! ## The calls -/

/-- The rules, and what is true while the boost is active. -/
structure Settled (d : Dvfs) : Prop extends Disciplined d where
  owns : d.active = true → d.seen.own = true
  asked : d.active = true → d.seen.cmd = some (cmdWord 0 d.level)
  bound : d.active = true → d.level ≤ levelMax
  asksNone : d.active = false → d.seen.asked = 0

inductive DvfsAct where
  | up (env : UpEnv)
  | down (env : ReqEnv)

/-- The driver from probe on. -/
def dvfsSystem : System Dvfs DvfsAct where
  init d := d.active = false ∧ d.ackTimeouts = 0 ∧ d.log = []
  step d
    | .up env => some (d.up env)
    | .down env => some (d.down env)

namespace Dvfs

variable {d d' : Dvfs} {env : UpEnv} {a : DvfsAct}

/-- The up call comes to its request. -/
def reaches (d : Dvfs) (env : UpEnv) : Bool :=
  d.mapped && !d.active && min env.level levelMax != 0 &&
    decide (d.ackTimeouts < maxTimeouts) && env.status &&& 1 == 1 &&
    env.on == 0 && reqMayUp env.first &&
    (env.levelWord == 0 || decide (levelBase ≤ env.levelWord) &&
      decide (env.levelWord ≤ levelWord levelMax)) &&
    reqMayUp env.again

/-- The request is acknowledged and reads back. -/
def granted (d : Dvfs) (env : UpEnv) : Bool :=
  (if d.exported env.request then env.request.result == 0
    else env.request.acked) && reqIsUp env.readback

/-- The condition on a call: the request does not find the bit set by another
agent, and a withdrawal takes effect and takes the driver's bit only. -/
def careful (d : Dvfs) : DvfsAct → Bool
  | .up env =>
    !d.reaches env || d.asks env.request &&
      (d.granted env || d.withdraws (d.gains env.request) env.release)
  | .down env => !d.active || d.withdraws true env

theorem withdraws_congr (h : d'.hasExport = d.hasExport) (own : Bool)
    (env : ReqEnv) : d'.withdraws own env = d.withdraws own env := by
  simp [withdraws, exported, h]

/-- The state of the monitor before the driver asks for its bit. -/
structure Idle (m : Monitor) : Prop where
  own : m.own = false
  level : m.level ∈ [none, some levelBase]
  asked : m.asked = 0
  masked : m.masked = true
  kept : m.kept = true
  undone : m.undone = true

theorem settled_off (hactive : d.active = false)
    (hon : d.seen.on ∈ [none, some 0]) (h : Idle d.seen) : Settled d where
  off _ := hon
  withdrawn _ := h.own
  atBase _ := h.level
  masked := h.masked
  kept := h.kept
  undone := h.undone
  owns hc := absurd hc (by simp [hactive])
  asked hc := absurd hc (by simp [hactive])
  bound hc := absurd hc (by simp [hactive])
  asksNone _ := h.asked

theorem raise_settled {level : Nat} (h : Idle d.seen)
    (hactive : d.active = false) (hunset : d.seen.unset = true)
    (hlevel : level ≤ levelMax) (hasks : d.asks env.request = true)
    (hok : d.granted env = true ∨ d.withdraws (d.gains env.request) env.release = true) :
    Settled (d.raise level env) := by
  obtain ⟨⟨read, hread, hseen⟩, hgains⟩ := request_spec h.own hunset hasks
  have hexp := psReqRequest_hasExport d true false env.request
  have hact := psReqRequest_active d true false env.request
  have hret : (d.psReqRequest true false env.request).1 =
      if d.exported env.request then env.request.result == 0
      else env.request.acked := by
    unfold psReqRequest
    split <;> simp
  unfold granted at hok
  rw [← hret] at hok
  clear hret
  unfold raise
  generalize d.psReqRequest true false env.request = result at *
  obtain ⟨ok, d₁⟩ := result
  dsimp only at *
  -- A release after the request ends where the call began.
  have hreleased : ∀ d₂ : Dvfs, d₂.hasExport = d₁.hasExport →
      d₂.active = d₁.active → (∃ r, d₂.seen = { d₁.seen with read := r }) →
      (d₂.seen.own = true ∨ d₂.seen.unset = true) →
      d.withdraws (d.gains env.request) env.release = true →
      (d₂.release false true env.release).active = false ∧
        (d₂.release false true env.release).seen.on ∈ [none, some 0] ∧
        Idle (d₂.release false true env.release).seen := by
    intro d₂ hexp₂ hact₂ hseen₂ hknown hw
    obtain ⟨r, hseen₂⟩ := hseen₂
    have hown₂ : d₂.seen.own = d.gains env.request := by rw [hseen₂, hseen]
    rw [← withdraws_congr (hexp₂.trans hexp), ← hown₂] at hw
    obtain ⟨r', hrel⟩ := release_request hknown hw (by rw [hseen₂, hseen]; exact h.asked)
    rw [release_active, hact₂, hact, hrel, hseen₂, hseen]
    exact ⟨hactive, by simp, rfl, h.level, cmdNew_zero, h.masked, h.kept, h.undone⟩
  cases ok with
  | false =>
    have hw := hok.resolve_left (by simp)
    have hknown : d₁.seen.own = true ∨ d₁.seen.unset = true := by
      right
      rw [hseen]
      exact hread
    obtain ⟨hoff, hon, hidle⟩ :=
      hreleased d₁ rfl rfl ⟨d₁.seen.read, rfl⟩ hknown hw
    exact settled_off hoff hon hidle
  | true =>
    have hgain := hgains rfl
    cases hback : reqIsUp env.readback with
    | false =>
      have hw := hok.resolve_left (by simp [hback])
      obtain ⟨hoff, hon, hidle⟩ := hreleased (d₁.emit [.readReq env.readback])
        rfl rfl ⟨some env.readback, by simp [Monitor.next]⟩
        (by simp [Monitor.next, hseen, hgain]) hw
      exact settled_off hoff hon hidle
    | true =>
      have hup : ((d₁.emit [.readReq env.readback]).emit
          [.cmd (cmdWord 0 level), .level (levelWord level)]).seen =
          { d.seen with
            read := some env.readback, own := true,
            cmd := some (cmdWord 0 level), level := some (levelWord level) } := by
        simp [Monitor.next, hseen, hgain, cmdPrev_asks hlevel]
        exact fun _ => h.asked.symm
      refine ⟨⟨nofun, nofun, nofun, ?_, ?_, ?_⟩, fun _ => ?_, fun _ => ?_, fun _ => hlevel, nofun⟩
      · exact (congrArg Monitor.masked hup).trans h.masked
      · exact (congrArg Monitor.kept hup).trans h.kept
      · exact (congrArg Monitor.undone hup).trans h.undone
      · exact congrArg Monitor.own hup
      · exact congrArg Monitor.cmd hup

theorem Settled.idle (h : Settled d) (hactive : d.active = false) : Idle d.seen :=
  ⟨h.withdrawn hactive, h.atBase hactive, h.asksNone hactive, h.masked, h.kept, h.undone⟩

/-- The driver after the writes that come before the request. -/
def started (d : Dvfs) (env : UpEnv) : Dvfs :=
  (d.emit [.readReq env.first]).emit
    [.on 1, .cmd (cmdWord 0 0), .readReq env.again]

/-- An up call refuses with at most one read, or it starts and finds the bit
set, or it comes to its request. -/
theorem up_cases (d : Dvfs) (env : UpEnv) :
    (∃ evs state, d.up env = { d.emit evs with state } ∧ evs ∈ [[], [.readReq env.first]]) ∨
    (d.active = false ∧ d.up env = { (d.started env).release false false env.release with
        state := .psReqChanged }) ∨
    (d.reaches env = true ∧
      d.up env = (d.started env).raise (min env.level levelMax) env) := by
  have hnone : ∀ state, ({ d with state } : Dvfs) =
      { d.emit [] with state } := by
    intro state
    simp [emit]
  unfold up
  dsimp only
  split
  · exact .inl ⟨[], d.state, hnone d.state, by simp⟩
  next hgo =>
  split
  · exact .inl ⟨[], _, hnone _, by simp⟩
  next hlevel =>
  split
  · exact .inl ⟨[], _, hnone _, by simp⟩
  next htimeouts =>
  split
  · exact .inl ⟨[], _, hnone _, by simp⟩
  next hstatus =>
  split
  · exact .inl ⟨[], _, hnone _, by simp⟩
  next hon =>
  split
  · exact .inl ⟨[.readReq env.first], _, rfl, by simp⟩
  next hfirst =>
  split
  · exact .inl ⟨[.readReq env.first], _, rfl, by simp⟩
  next hword =>
  simp only [Bool.or_eq_true, Bool.not_eq_true', not_or, Bool.not_eq_false, Bool.not_eq_true] at hgo
  split
  · exact .inr (.inl ⟨hgo.2, rfl⟩)
  next hagain =>
  refine .inr (.inr ⟨?_, rfl⟩)
  simp only [Bool.not_eq_true', Bool.not_eq_false] at hfirst hagain
  simp only [ne_eq, not_and, not_or, BitVec.not_lt, not_not] at hword hstatus hon
  have hword' : env.levelWord = 0 ∨
      levelBase ≤ env.levelWord ∧ env.levelWord ≤ levelWord levelMax := by
    by_cases hz : env.levelWord = 0
    · exact .inl hz
    · exact .inr (hword hz)
  simp only [reaches, Bool.and_eq_true, Bool.or_eq_true, decide_eq_true_eq,
    bne_iff_ne, beq_iff_eq, Bool.not_eq_true']
  exact ⟨⟨⟨⟨⟨⟨⟨⟨hgo.1, hgo.2⟩, hlevel⟩, Nat.lt_of_not_le htimeouts⟩, hstatus⟩,
    hon⟩, hfirst⟩, hword'⟩, hagain⟩

theorem started_seen (h : d.seen.asked = 0) (env : UpEnv) : (d.started env).seen = { d.seen with
      on := some 1, cmd := some (cmdWord 0 0), read := some env.again } := by
  simp [started, Monitor.next, cmdPrev_zero]
  exact fun _ => h.symm

theorem started_idle (h : Idle d.seen) (env : UpEnv) : Idle (d.started env).seen := by
  rw [started_seen h.asked]
  exact ⟨h.own, h.level, cmdNew_zero, h.masked, h.kept, h.undone⟩

/-- A read of the request word changes nothing that the rules speak of. -/
theorem Settled.of_read (h : Settled d) (hactive : d'.active = d.active)
    (hlevel : d'.level = d.level) {read : Option (BitVec 64)}
    (hseen : d'.seen = { d.seen with read }) :
    Settled d' := by
  refine ⟨⟨fun ha => ?_, fun ha => ?_, fun ha => ?_, ?_, ?_, ?_⟩,
    fun ha => ?_, fun ha => ?_, fun ha => ?_, fun ha => ?_⟩ <;>
    simp only [hseen, hlevel]
  · exact h.off (hactive ▸ ha)
  · exact h.withdrawn (hactive ▸ ha)
  · exact h.atBase (hactive ▸ ha)
  · exact h.masked
  · exact h.kept
  · exact h.undone
  · exact h.owns (hactive ▸ ha)
  · exact h.asked (hactive ▸ ha)
  · exact h.bound (hactive ▸ ha)
  · exact h.asksNone (hactive ▸ ha)

theorem up_settled (h : Settled d) (hok : d.careful (.up env) = true) : Settled (d.up env) := by
  rcases up_cases d env with
    ⟨evs, state, hup, hevs⟩ | ⟨hactive, hup⟩ | ⟨hreach, hup⟩
  · rw [hup]
    simp only [List.mem_cons, List.not_mem_nil, or_false] at hevs
    rcases hevs with rfl | rfl
    · have hseen : (d.emit []).seen = { d.seen with } := by simp
      exact Settled.of_read h rfl rfl hseen
    · have hseen : (d.emit [.readReq env.first]).seen =
          { d.seen with read := some env.first } := by simp [Monitor.next]
      exact Settled.of_read h rfl rfl hseen
  · rw [hup]
    have hidle := started_idle (Settled.idle h hactive) env
    have hseen : ((d.started env).release false false env.release).seen =
        { (d.started env).seen with
          cmd := some (cmdWord 0 0), on := some 0 } := by
      simp [release, Monitor.next, cmdPrev_zero, hidle.asked]
    refine settled_off hactive ?_ ?_
    · show ((d.started env).release false false env.release).seen.on ∈ _
      rw [hseen]
      simp
    · show Idle ((d.started env).release false false env.release).seen
      rw [hseen]
      exact ⟨hidle.own, hidle.level, cmdNew_zero, hidle.masked, hidle.kept, hidle.undone⟩
  · rw [hup]
    have hactive : d.active = false := by
      simp only [reaches, Bool.and_eq_true, Bool.not_eq_true'] at hreach
      exact hreach.1.1.1.1.1.1.1.2
    have hagain : reqMayUp env.again = true := by
      simp only [reaches, Bool.and_eq_true] at hreach
      exact hreach.2
    simp only [careful, hreach, Bool.not_true, Bool.false_or,
      Bool.and_eq_true, Bool.or_eq_true] at hok
    refine raise_settled (started_idle (Settled.idle h hactive) env) hactive ?_
      (Nat.min_le_right _ _) hok.1 ?_
    · rw [started_seen (h.asksNone hactive)]
      exact hagain
    · exact hok.2

theorem down_settled {env : ReqEnv} (h : Settled d)
    (hok : d.careful (.down env) = true) : Settled (d.down env) := by
  unfold down
  split
  · exact h
  next hactive =>
  have hactive : d.active = true := by simpa using hactive
  simp only [careful, hactive, Bool.not_true, Bool.false_or] at hok
  obtain ⟨read, hseen⟩ := release_level (h.owns hactive) hok (h.bound hactive) (h.asked hactive)
  refine settled_off rfl ?_ ?_
  · show (d.release true true env).seen.on ∈ _
    rw [hseen]
    simp
  · show Idle (d.release true true env).seen
    rw [hseen]
    exact ⟨rfl, by simp, cmdNew_zero, h.masked, h.kept, h.undone⟩

/-! ## After three failures -/

theorem psReqRequest_ackTimeouts (d : Dvfs) (enable noAck : Bool) (env : ReqEnv) :
    (d.psReqRequest enable noAck env).2.ackTimeouts = d.ackTimeouts := by
  unfold psReqRequest
  split <;> rfl

/-- A boost is only raised by a driver that has not given up. -/
theorem step_trusted (h : d.active = true → d.ackTimeouts < maxTimeouts)
    (hstep : dvfsSystem.step d a = some d') :
    d'.active = true → d'.ackTimeouts < maxTimeouts := by
  cases a with
  | down env =>
    cases hstep
    unfold down
    split
    · exact h
    · exact nofun
  | up env =>
    cases hstep
    rcases up_cases d env with
      ⟨evs, state, hup, -⟩ | ⟨hactive, hup⟩ | ⟨hreach, hup⟩
    · rw [hup]
      exact h
    · rw [hup]
      intro hc
      exact absurd hc (by simp [release, emit, started, hactive])
    · rw [hup]
      simp only [reaches, Bool.and_eq_true, Bool.not_eq_true', decide_eq_true_eq] at hreach
      have hactive : d.active = false := hreach.1.1.1.1.1.1.1.2
      have htimeouts : d.ackTimeouts < maxTimeouts := hreach.1.1.1.1.1.2
      unfold raise
      dsimp only
      split
      · intro hc
        exact absurd hc (by simp [release, emit, started, hactive])
      split
      · intro hc
        exact absurd hc (by simp [release, emit, started, hactive])
      · intro _
        simp only [emit, psReqRequest_ackTimeouts]
        exact htimeouts

/-- A call on a driver that has given up accesses no register. -/
theorem step_gaveUp (h : d.active = false ∧ maxTimeouts ≤ d.ackTimeouts)
    (hstep : dvfsSystem.step d a = some d') :
    d'.active = false ∧ maxTimeouts ≤ d'.ackTimeouts ∧ d'.log = d.log := by
  obtain ⟨hactive, htimeouts⟩ := h
  cases a with
  | up env =>
    cases hstep
    unfold up
    dsimp only
    split
    · exact ⟨hactive, htimeouts, rfl⟩
    split
    · exact ⟨hactive, htimeouts, rfl⟩
    exact ⟨hactive, htimeouts, rfl⟩
  | down env =>
    cases hstep
    simp [down, hactive, htimeouts]

theorem run_gaveUp {acts : List DvfsAct} (h : d.active = false ∧ maxTimeouts ≤ d.ackTimeouts)
    (hrun : dvfsSystem.run d acts = some d') : d'.log = d.log := by
  have hall : (d'.active = false ∧ maxTimeouts ≤ d'.ackTimeouts) ∧ d'.log = d.log := by
    refine System.run_invariant (I := fun u =>
      (u.active = false ∧ maxTimeouts ≤ u.ackTimeouts) ∧ u.log = d.log)
      ?_ ⟨h, rfl⟩ hrun
    intro u a v hu hstep
    obtain ⟨hactive, htimeouts, hlog⟩ := step_gaveUp hu.1 hstep
    exact ⟨⟨hactive, htimeouts⟩, hlog.trans hu.2⟩
  exact hall.2

end Dvfs

/-! ## Runs -/

theorem dvfs_init_settled {d : Dvfs} (h : dvfsSystem.init d) : Settled d := by
  obtain ⟨hactive, -, hlog⟩ := h
  have hseen : d.seen = Monitor.start := by simp [Dvfs.seen, hlog]
  refine Dvfs.settled_off hactive ?_ ?_ <;> rw [hseen]
  · exact List.mem_cons_self
  · exact ⟨rfl, List.mem_cons_self, rfl, rfl, rfl, rfl⟩

/-- In every run whose calls meet the condition, the rules hold after each
call, and once three requests have failed no register is accessed again. -/
theorem request_discipline {d₀ d : Dvfs} {acts : List DvfsAct}
    (hinit : dvfsSystem.init d₀) (hrun : dvfsSystem.run d₀ acts = some d)
    (hmeet : dvfsSystem.StepsMeet Dvfs.careful d₀ acts) :
    Disciplined d ∧
    (maxTimeouts ≤ d.ackTimeouts → ∀ later d',
      dvfsSystem.run d later = some d' → d'.log = d.log) := by
  have hres : (dvfsSystem.restrict Dvfs.careful).run d₀ acts = some d :=
    System.run_restrict_iff.mpr ⟨hrun, hmeet⟩
  have hsettled : Settled d := by
    refine System.run_invariant ?_ (dvfs_init_settled hinit) hres
    intro u a v hu hstep
    obtain ⟨hok, hstep⟩ := System.restrict_step hstep
    cases a with
    | up env =>
      cases hstep
      exact Dvfs.up_settled hu hok
    | down env =>
      cases hstep
      exact Dvfs.down_settled hu hok
  have htrusted : d.active = true → d.ackTimeouts < maxTimeouts := by
    refine System.run_invariant (I := fun u : Dvfs =>
      u.active = true → u.ackTimeouts < maxTimeouts) ?_ ?_ hrun
    · exact fun _ _ _ hu hstep => Dvfs.step_trusted hu hstep
    · exact fun hc => absurd hc (by simp [hinit.1])
  refine ⟨hsettled.toDisciplined, ?_⟩
  intro htimeouts later d' hlater
  have hactive : d.active = false := by
    cases hc : d.active with
    | false => rfl
    | true => exact absurd (htrusted hc) (by omega)
  exact Dvfs.run_gaveUp ⟨hactive, htimeouts⟩ hlater

/-! ## Runs on a word that others share -/

/-- The driver after probe, on a kernel without the export. -/
def dvfsProbed : Dvfs :=
  ⟨true, false, false, 0, 0, .level 0, []⟩

/-- An up call that finds PS-REQ at `first`, and at `req` in its update. -/
def upOver (first req : BitVec 64) : UpEnv where
  level := 5
  status := 1
  on := 0
  first := first
  levelWord := 0
  again := first
  request := ⟨0, false, req, true⟩
  readback := reqUp req
  release := ⟨0, false, reqUp req, true⟩

/-- The withdrawal finds the word as the update left it. -/
def downOver (req : BitVec 64) : ReqEnv := ⟨0, false, reqUp req, true⟩

theorem request_discipline_shared : ∃ d, dvfsSystem.run dvfsProbed
        [.up (upOver 0x60003200 0x60003201), .down (downOver 0x60003201)] = some d ∧
      d.seen.read = some 0x60003601 ∧ d.seen.level = some levelBase ∧
      Disciplined d := by
  have hmap : ((dvfsSystem.restrict Dvfs.careful).run dvfsProbed
      [.up (upOver 0x60003200 0x60003201), .down (downOver 0x60003201)]).map
        (fun d => (d.seen.read, d.seen.level)) =
      some (some 0x60003601, some levelBase) := by decide +kernel
  obtain ⟨d, hrun, hseen⟩ := Option.map_eq_some_iff.mp hmap
  simp only [Prod.mk.injEq] at hseen
  obtain ⟨hrun, hmeet⟩ := System.run_restrict_iff.mp hrun
  exact ⟨d, hrun, hseen.1, hseen.2, (request_discipline ⟨rfl, rfl, rfl⟩ hrun hmeet).1⟩

/-- Another agent sets bit 10 between the second check and the update.  The
update reads the word with the bit, and the down call clears it. -/
theorem clears_foreign_request :
    ∃ d d', dvfsSystem.run dvfsProbed [.up (upOver 0x60003000 0x60003400)] =
        some d ∧ d.active = true ∧
      DvfsEv.readReq 0x60003400 ∈ d.log ∧ d.seen.own = false ∧
      dvfsSystem.step d (.down (downOver 0x60003400)) = some d' ∧
      DvfsEv.writeReq 0x60003000 ∈ d'.log ∧ d'.seen.kept = false := by
  have hmap : (dvfsSystem.run dvfsProbed
      [.up (upOver 0x60003000 0x60003400)]).map (fun d =>
        (d.active, decide (DvfsEv.readReq 0x60003400 ∈ d.log), d.seen.own,
          decide (DvfsEv.writeReq 0x60003000 ∈ (d.down (downOver 0x60003400)).log),
          (d.down (downOver 0x60003400)).seen.kept)) =
      some (true, true, false, true, false) := by decide +kernel
  obtain ⟨d, hrun, hd⟩ := Option.map_eq_some_iff.mp hmap
  simp only [Prod.mk.injEq, decide_eq_true_eq] at hd
  obtain ⟨hactive, hread, hown, hwrite, hkept⟩ := hd
  exact ⟨d, _, hrun, hactive, hread, hown, rfl, hwrite, hkept⟩

end OmarchyAne.M1
