import OmarchyAne.Lib.Lists
import OmarchyAne.Lib.Periods
import OmarchyAne.Stats.System

/-!
# The protocol of the counters

The program counter of a submission falls into six stages.  A submission waits
outside, opens a period or joins the open one, is a member, and leaves: the
last member closes the period, folds it and releases the counter.  `Move` lists
what one step does to the counters and to the stage (`step_move`).  `Ok` says
what the local values of a submission have to do with the counters.
-/

namespace OmarchyAne.Stats

open Lib

/-- Where a submission stands. -/
inductive Stage where
  /-- Not counted yet. -/
  | outside
  /-- Holds the sentinel, to open a period. -/
  | opening
  /-- Counted in `inflight`. -/
  | member
  /-- Holds the sentinel, before the fold. -/
  | closing
  /-- Holds the sentinel, after the fold. -/
  | folded
  /-- Not counted any more. -/
  | gone
  deriving DecidableEq, Repr

namespace Stage

variable {st : Stage}

def isMember : Stage → Bool
  | member => true
  | _ => false

def isTransit : Stage → Bool
  | opening | closing | folded => true
  | _ => false

def isRunning : Stage → Bool
  | member | closing => true
  | _ => false

def isLeft : Stage → Bool
  | folded | gone => true
  | _ => false

/-- Neither in a period nor with the sentinel. -/
def isIdle : Stage → Bool
  | outside | gone => true
  | _ => false

theorem isIdle_of_not (hm : ¬ st.isMember = true) (ht : ¬ st.isTransit = true) : st.isIdle := by
  cases st <;> simp_all [isMember, isTransit, isIdle]

theorem not_transit_of_isIdle (h : st.isIdle) : ¬ st.isTransit = true ∧ ¬ st.isMember = true := by
  cases st <;> simp_all [isIdle, isTransit, isMember]

theorem not_running_of_isIdle (h : st.isIdle) : ¬ st.isRunning = true := by
  cases st <;> simp_all [isIdle, isRunning]

end Stage

/-- The stage of a program counter. -/
def Pc.stage : Pc → Stage
  | take | read | enter _ => .outside
  | readMax | latch _ | openUp => .opening
  | pair | storeSeq | readStart | store _ | begun | readCur | readOld _
  | feed _ _ | leave _ | reread => .member
  | readLatch | readFold _ | fold _ => .closing
  | release => .folded
  | count | commitEnd | commitRc | commitTmst | commitSeq | done => .gone

/-- The program counters behind the count of the job. -/
def Pc.counted : Pc → Bool
  | commitEnd | commitRc | commitTmst | commitSeq | done => true
  | _ => false

namespace Sub

variable {c c' : Counters} {r r' : Ring} {u u' : Sub} {cur : Nat}

/-- The submission is counted in `inflight`. -/
def member (u : Sub) : Bool := u.pc.stage.isMember

/-- The submission holds the sentinel. -/
def transit (u : Sub) : Bool := u.pc.stage.isTransit

/-- The submission belongs to the period that is open. -/
def running (u : Sub) : Bool := u.pc.stage.isRunning

/-- The submission left its period. -/
def left (u : Sub) : Bool := u.pc.stage.isLeft

theorem running_of_member (h : u.member) : u.running := by
  unfold member at h
  unfold running
  cases hs : u.pc.stage <;> simp_all [Stage.isMember, Stage.isRunning]

/-- The completion was counted in `jobs`. -/
def counted (u : Sub) : Bool := u.pc.counted

theorem counted_of_stage (h : u.pc.stage ≠ .gone) : u.counted = false := by
  unfold counted
  cases hpc : u.pc <;> simp_all [Pc.stage, Pc.counted]

/-- What the local values have to do with the counters. -/
def Ok (c : Counters) (u : Sub) : Prop :=
  match u.pc with
  | .latch value => c.maxEnd ≤ value
  | .openUp => c.maxEnd ≤ c.lastBusyEnd
  | .store .submitNs => True
  | .store _ | .begun => u.startNs = c.lastBusyEnd
  | .readCur => u.startNs = c.lastBusyEnd ∧ u.foldEnd = 0
  | .readOld cur => u.startNs = c.lastBusyEnd ∧ u.foldEnd = 0 ∧ cur ≠ 0
  | .feed cur old =>
    u.startNs = c.lastBusyEnd ∧ u.foldEnd = 0 ∧ cur ≠ 0 ∧ old ≤ c.maxEnd
  | .leave cur =>
    u.startNs = c.lastBusyEnd ∧ u.foldEnd = 0 ∧ u.endNs ≤ c.maxEnd ∧ cur ≠ 0
  | .reread | .readLatch =>
    u.startNs = c.lastBusyEnd ∧ u.foldEnd = 0 ∧ u.endNs ≤ c.maxEnd
  | .readFold start =>
    u.startNs = c.lastBusyEnd ∧ u.endNs ≤ c.maxEnd ∧ start = c.lastBusyEnd
  | .fold start =>
    u.startNs = c.lastBusyEnd ∧ u.endNs ≤ c.maxEnd ∧
      start = c.lastBusyEnd ∧ u.foldEnd = c.maxEnd
  | _ => True

/-- Outside of a period nothing is said. -/
theorem ok_of_idle (h : u.pc.stage.isIdle) : u.Ok c := by
  cases hpc : u.pc <;> simp [hpc, Pc.stage, Stage.isIdle] at h <;>
    simp [Ok, hpc]

/-- A member does not mind a later `max_end`. -/
theorem Ok.mono (h : u.Ok c) (hstage : u.transit = false)
    (hlatch : c'.lastBusyEnd = c.lastBusyEnd) (hmax : c.maxEnd ≤ c'.maxEnd) :
    u.Ok c' := by
  unfold Ok at h ⊢
  cases hpc : u.pc with
  | store f =>
    cases f <;> simp only [hpc, hlatch] at h ⊢ <;> exact h
  | latch | openUp | readLatch | readFold | fold =>
    simp [transit, hpc, Pc.stage, Stage.isTransit] at hstage
  | leave | reread | feed =>
    simp only [hpc, hlatch] at h ⊢
    refine ⟨h.1, h.2.1, ?_⟩
    omega
  | begun | readCur | readOld => simp only [hpc, hlatch] at h ⊢; exact h
  | _ => trivial

/-- Only `last_busy_end` and `max_end` matter. -/
theorem Ok.congr (h : u.Ok c) (hlatch : c'.lastBusyEnd = c.lastBusyEnd)
    (hmax : c'.maxEnd = c.maxEnd) : u.Ok c' := by
  unfold Ok at h ⊢
  rw [hlatch, hmax]
  exact h

/-! ## What a step does -/

/-- What one step of a submission does to the counters and to the
submission. -/
inductive Move (c : Counters) (u : Sub) : Counters → Sub → Prop where
  /-- The counters and the stage stay. -/
  | stay {u' : Sub} (stage : u'.pc.stage = u.pc.stage)
      (counted : u'.counted = u.counted)
      (record : u.left → u'.startNs = u.startNs ∧ u'.fin = u.fin) :
      Move c u c u'
  /-- The submission joins the open period. -/
  | join {u' : Sub} (stage : u.pc.stage = .outside)
      (busy : c.inflight ≠ 0 ∧ c.inflight ≠ inflightTrans)
      (stage' : u'.pc.stage = .member) :
      Move c u { c with inflight := c.inflight + 1 } u'
  /-- The submission sets the sentinel on an idle counter. -/
  | grab {u' : Sub} (stage : u.pc.stage = .outside) (idle : c.inflight = 0)
      (stage' : u'.pc.stage = .opening) :
      Move c u { c with inflight := inflightTrans } u'
  /-- The start of the new period is stored. -/
  | latch {u' : Sub} {value : Nat} (stage : u.pc = .latch value)
      (above : c.maxEnd ≤ value) (stage' : u'.pc = .openUp) :
      Move c u { c with lastBusyEnd := value } u'
  /-- The new period is open. -/
  | openUp {u' : Sub} (stage : u.pc = .openUp)
      (above : c.maxEnd ≤ c.lastBusyEnd) (stage' : u'.pc = .pair) :
      Move c u { c with inflight := 1 } u'
  /-- An end sample becomes the latest one. -/
  | feed {u' : Sub} (stage : u.pc.stage = .member)
      (above : c.maxEnd < u.endNs) (stage' : u'.pc.stage = .member)
      (same : u'.endNs = u.endNs) :
      Move c u { c with maxEnd := u.endNs } u'
  /-- The submission leaves, and others stay. -/
  | drop {u' : Sub} (stage : u.pc.stage = .member) (others : 1 < c.inflight)
      (stage' : u'.pc = .count) (start : u'.startNs = c.lastBusyEnd)
      (fin : u'.fin = u.endNs) (fed : u.endNs ≤ c.maxEnd) :
      Move c u { c with inflight := c.inflight - 1 } u'
  /-- The last member sets the sentinel. -/
  | shut {u' : Sub} (stage : u.pc.stage = .member) (last : c.inflight = 1)
      (stage' : u'.pc.stage = .closing) :
      Move c u { c with inflight := inflightTrans } u'
  /-- The period is folded. -/
  | fold {u' : Sub} (stage : u.pc.stage = .closing)
      (proper : c.lastBusyEnd < c.maxEnd) (stage' : u'.pc = .release)
      (start : u'.startNs = c.lastBusyEnd) (fin : u'.fin = c.maxEnd) :
      Move c u { c with
        busyNs := c.busyNs + (c.maxEnd - c.lastBusyEnd)
        folds := c.folds ++ [(c.lastBusyEnd, c.maxEnd)] } u'
  /-- The period has no length. -/
  | skip {u' : Sub} (stage : u.pc.stage = .closing)
      (empty : c.maxEnd ≤ c.lastBusyEnd) (stage' : u'.pc = .release)
      (start : u'.startNs = c.lastBusyEnd) (fin : u'.fin ≤ c.maxEnd) :
      Move c u c u'
  /-- The counter is idle again. -/
  | release {u' : Sub} (stage : u.pc.stage = .folded)
      (stage' : u'.pc = .count)
      (record : u'.startNs = u.startNs ∧ u'.fin = u.fin) :
      Move c u { c with inflight := 0 } u'
  /-- The job is counted. -/
  | count {u' : Sub} (stage : u.pc = .count) (stage' : u'.pc = .commitEnd)
      (record : u'.startNs = u.startNs ∧ u'.fin = u.fin) :
      Move c u { c with jobs := c.jobs + 1 } u'

/-- The log of periods after a move. -/
theorem Move.folds (hmove : u.Move c c' u') : c'.folds = c.folds ∧ c'.busyNs = c.busyNs ∨
      u.pc.stage = .closing ∧ u'.pc = .release ∧
      c.lastBusyEnd < c.maxEnd ∧ c'.maxEnd = c.maxEnd ∧
      u'.startNs = c.lastBusyEnd ∧ u'.fin = c.maxEnd ∧
      c'.folds = c.folds ++ [(c.lastBusyEnd, c.maxEnd)] ∧
      c'.busyNs = c.busyNs + (c.maxEnd - c.lastBusyEnd) := by
  cases hmove with
  | fold stage proper stage' start fin =>
    exact .inr ⟨stage, stage', proper, rfl, start, fin, rfl, rfl⟩
  | _ => exact .inl ⟨rfl, rfl⟩

theorem Move.maxEnd_le (hmove : u.Move c c' u') : c.maxEnd ≤ c'.maxEnd := by
  cases hmove with
  | feed stage above => exact Nat.le_of_lt above
  | _ => exact le_rfl

/-- A step that changes the program counter only, within its stage. -/
theorem Move.silent {pc pc' : Pc} (hpc : u.pc = pc)
    (hstage : pc'.stage = pc.stage) (hcount : pc'.counted = pc.counted) :
    Move c u c { u with pc := pc' } :=
  .stay (by rw [hpc]; exact hstage) (by rw [counted, counted, hpc]; exact hcount)
    (fun _ => ⟨rfl, rfl⟩)

theorem enterStep_move (hpc : u.pc = .enter cur) :
    Move c u (u.enterStep c cur).1 (u.enterStep c cur).2 ∧
      (u.enterStep c cur).2.Ok (u.enterStep c cur).1 := by
  have hout : u.pc.stage = .outside := by rw [hpc]; rfl
  rw [enterStep]
  split
  case isTrue => exact ⟨.silent hpc rfl rfl, trivial⟩
  case isFalse htrans =>
    split
    case isTrue hzero =>
      split
      case isTrue hidle => exact ⟨.grab hout hidle rfl, trivial⟩
      case isFalse =>
        exact ⟨.silent hpc rfl rfl, trivial⟩
    case isFalse hpos =>
      split
      case isTrue heq =>
        subst heq
        exact ⟨.join hout ⟨hpos, htrans⟩ rfl, trivial⟩
      case isFalse =>
        exact ⟨.silent hpc rfl rfl, trivial⟩

theorem leaveStep_move (hpc : u.pc = .leave cur) (hok : u.Ok c) (hin : c.inflight ≠ 0) :
    Move c u (u.leaveStep c cur).1 (u.leaveStep c cur).2 ∧
      (u.leaveStep c cur).2.Ok (u.leaveStep c cur).1 := by
  have hmem : u.pc.stage = .member := by rw [hpc]; rfl
  simp only [Ok, hpc] at hok
  obtain ⟨hstart, hfold, hfed, hcur⟩ := hok
  rw [leaveStep]
  split
  case isTrue =>
    exact ⟨.silent hpc rfl rfl, hstart, hfold, hfed, hin⟩
  case isFalse =>
    split
    case isTrue hmany =>
      split
      case isTrue heq =>
        subst heq
        exact ⟨.drop hmem hmany rfl hstart (by simp [fin, hfold]) hfed,
          trivial⟩
      case isFalse =>
        exact ⟨.silent hpc rfl rfl, hstart, hfold, hfed, hin⟩
    case isFalse =>
      split
      case isTrue hlast =>
        exact ⟨.shut hmem hlast rfl, hstart, hfold, hfed⟩
      case isFalse =>
        exact ⟨.silent hpc rfl rfl, hstart, hfold, hfed⟩

theorem foldStep_move {start : Nat} (hpc : u.pc = .fold start) (hok : u.Ok c) :
    Move c u (u.foldStep c start).1 (u.foldStep c start).2 ∧
      (u.foldStep c start).2.Ok (u.foldStep c start).1 := by
  have hclose : u.pc.stage = .closing := by rw [hpc]; rfl
  simp only [Ok, hpc] at hok
  obtain ⟨hstart, hfed, rfl, hfold⟩ := hok
  rw [foldStep]
  split
  case isTrue hlt =>
    rw [hfold] at hlt ⊢
    exact ⟨.fold hclose hlt rfl hstart (by simp [fin]; omega), trivial⟩
  case isFalse hge =>
    rw [hfold] at hge
    refine ⟨.skip hclose (by omega) rfl hstart ?_, trivial⟩
    simp only [fin, hfold]
    split <;> omega

/-- The step of a submission that has taken its ticket. -/
theorem countersStep_move (hok : u.Ok c)
    (hin : u.pc.stage = .member → c.inflight ≠ 0) (htake : u.pc ≠ .take)
    (hbegun : u.pc ≠ .begun) (hdone : u.pc ≠ .done) :
    Move c u (u.countersStep c).1 (u.countersStep c).2 ∧
      (u.countersStep c).2.Ok (u.countersStep c).1 := by
  unfold countersStep
  unfold Ok at hok
  cases hpc : u.pc with
  | take => exact absurd hpc htake
  | begun => exact absurd hpc hbegun
  | done => exact absurd hpc hdone
  | enter cur => exact enterStep_move hpc
  | leave cur =>
    exact leaveStep_move hpc (by simpa only [Ok, hpc] using hok) (hin (by rw [hpc]; rfl))
  | fold start => exact foldStep_move hpc (by simpa only [Ok, hpc] using hok)
  | read => exact ⟨.silent hpc rfl rfl, trivial⟩
  | readMax =>
    refine ⟨.silent hpc rfl rfl, ?_⟩
    show c.maxEnd ≤ u.latchValue c
    rw [latchValue]
    split <;> omega
  | latch value =>
    rw [hpc] at hok
    exact ⟨.latch hpc hok rfl, hok⟩
  | openUp =>
    rw [hpc] at hok
    exact ⟨.openUp hpc hok rfl, trivial⟩
  | pair => exact ⟨.silent hpc rfl rfl, trivial⟩
  | storeSeq =>
    exact ⟨.silent hpc rfl rfl, trivial⟩
  | readStart =>
    refine ⟨.stay (by rw [hpc]; rfl) ?_ ?_, rfl⟩
    · rw [counted, counted, hpc]; rfl
    · simp [left, hpc, Pc.stage, Stage.isLeft]
  | store f =>
    rw [hpc] at hok
    refine ⟨.silent hpc ?_ ?_, ?_⟩
    · cases f <;> rfl
    · cases f <;> rfl
    · cases f <;> trivial
  | readCur =>
    rw [hpc] at hok
    exact ⟨.silent hpc rfl rfl, hok.1, hok.2, hin (by rw [hpc]; rfl)⟩
  | readOld cur =>
    rw [hpc] at hok
    exact ⟨.silent hpc rfl rfl, hok.1, hok.2.1, hok.2.2, le_rfl⟩
  | feed cur old =>
    rw [hpc] at hok
    obtain ⟨hstart, hfold, hcur, hold⟩ := hok
    simp only
    split
    case isTrue hlt =>
      split
      case isTrue heq =>
        exact ⟨.feed (by rw [hpc]; rfl) (by omega) rfl rfl, hstart, hfold, le_rfl, hcur⟩
      case isFalse =>
        exact ⟨.silent hpc rfl rfl, hstart, hfold, hcur, le_rfl⟩
    case isFalse hge =>
      exact ⟨.silent hpc rfl rfl, hstart, hfold, by show u.endNs ≤ c.maxEnd; omega, hcur⟩
  | reread =>
    rw [hpc] at hok
    exact ⟨.silent hpc rfl rfl, hok.1, hok.2.1, hok.2.2, hin (by rw [hpc]; rfl)⟩
  | readLatch =>
    rw [hpc] at hok
    exact ⟨.silent hpc rfl rfl, hok.1, hok.2.2, rfl⟩
  | readFold start =>
    rw [hpc] at hok
    refine ⟨.stay (by rw [hpc]; rfl) ?_ ?_, hok.1, hok.2.1, hok.2.2, ?_⟩
    · rw [counted, counted, hpc]; rfl
    · simp [left, hpc, Pc.stage, Stage.isLeft]
    · show u.foldValue c = c.maxEnd
      rw [foldValue, if_neg (by omega)]
  | release => exact ⟨.release (by rw [hpc]; rfl) rfl ⟨rfl, rfl⟩, trivial⟩
  | count => exact ⟨.count hpc rfl ⟨rfl, rfl⟩, trivial⟩
  | commitEnd | commitRc | commitTmst | commitSeq =>
    exact ⟨.silent hpc rfl rfl, trivial⟩

/-- A step takes the ticket, or it is one of `countersStep`. -/
theorem step_cases (h : u.step c r = some (c', r', u')) : r' = u.ringStep r ∧
      (u.pc = .take ∧ c' = c ∧ u' = { u with ticket := r.head + 1, pc := .read } ∨
      u.pc ≠ .take ∧ u.pc ≠ .begun ∧ u.pc ≠ .done ∧
        c' = (u.countersStep c).1 ∧ u' = (u.countersStep c).2) := by
  unfold step at h
  split at h
  case h_1 | h_2 => cases h
  case h_3 hpc =>
    cases h
    exact ⟨rfl, .inl ⟨hpc, rfl, rfl⟩⟩
  case h_4 hbegun hdone htake =>
    cases h
    exact ⟨rfl, .inr ⟨htake, hbegun, hdone, rfl, rfl⟩⟩

/-- What a step of a submission does. -/
theorem step_move (hok : u.Ok c) (hin : u.pc.stage = .member → c.inflight ≠ 0)
    (h : u.step c r = some (c', r', u')) : Move c u c' u' ∧ u'.Ok c' := by
  obtain ⟨-, ⟨hpc, rfl, rfl⟩ | ⟨htake, hbegun, hdone, rfl, rfl⟩⟩ := step_cases h
  · exact ⟨.stay (by rw [hpc]; rfl) (by rw [counted, counted, hpc]; rfl)
      (by simp [left, hpc, Pc.stage, Stage.isLeft]), trivial⟩
  · exact countersStep_move hok hin htake hbegun hdone

end Sub

/-! ## What an action does -/

section Actions

variable {s s' : St} {a : Act} {i : Nat}

theorem step_sub (h : s.step (.sub i) = some s') :
    ∃ u c r u', s.subs[i]? = some u ∧ u.step s.ctrs s.ring = some (c, r, u') ∧
      s' = { s with ctrs := c, ring := r, subs := s.subs.set i u' } := by
  simp only [St.step] at h
  split at h
  case h_1 => cases h
  case h_2 u hu =>
    split at h
    case h_1 => cases h
    case h_2 c r u' hstep =>
      exact ⟨u, c, r, u', hu, hstep, (Option.some.inj h).symm⟩

theorem step_complete {endNs rc tmst : Nat} (h : s.step (.complete i endNs rc tmst) = some s') :
    ∃ u, s.subs[i]? = some u ∧ u.pc = .begun ∧
      s' = { s with subs := s.subs.set i (u.complete endNs rc tmst) } := by
  simp only [St.step] at h
  split at h
  case h_1 => cases h
  case h_2 u hu =>
    split at h
    case isFalse => cases h
    case isTrue hpc => exact ⟨u, hu, hpc, (Option.some.inj h).symm⟩

theorem step_snap (h : s.step (.snap i) = some s') : ∃ p p' value, s.snaps[i]? = some p ∧
      p.step s.ctrs s.clock = some (p', value) ∧
      s' = { s with
        snaps := s.snaps.set i p'
        reports := s.reports ++ (value.map (Report.mk p.since)).toList } := by
  simp only [St.step] at h
  split at h
  case h_1 => cases h
  case h_2 p hp =>
    split at h
    case h_1 => cases h
    case h_2 p' hstep =>
      refine ⟨p, p', none, hp, hstep, ?_⟩
      simpa using (Option.some.inj h).symm
    case h_3 p' value hstep =>
      exact ⟨p, p', some value, hp, hstep, (Option.some.inj h).symm⟩

theorem step_print (h : s.step (.print i) = some s') :
    ∃ v v' line, s.shows[i]? = some v ∧ v.step s.ring = some (v', line) ∧ s' = { s with
        shows := s.shows.set i v'
        lines := s.lines ++ line.toList } := by
  simp only [St.step] at h
  split at h
  case h_1 => cases h
  case h_2 v hv =>
    split at h
    case h_1 => cases h
    case h_2 v' line hstep =>
      exact ⟨v, v', line, hv, hstep, (Option.some.inj h).symm⟩

/-- The actions of readers. -/
def Act.reads : Act → Bool
  | snapshot | snap _ | timeline | print _ => true
  | _ => false

/-- A reader changes nothing that others see. -/
theorem step_reads (ha : a.reads) (h : s.step a = some s') :
    s'.ctrs = s.ctrs ∧ s'.ring = s.ring ∧ s'.subs = s.subs ∧ s'.clock = s.clock := by
  cases a with
  | snapshot | timeline =>
    cases h
    exact ⟨rfl, rfl, rfl, rfl⟩
  | snap i =>
    obtain ⟨p, p', value, -, -, rfl⟩ := step_snap h
    exact ⟨rfl, rfl, rfl, rfl⟩
  | print i =>
    obtain ⟨v, v', line, -, -, rfl⟩ := step_print h
    exact ⟨rfl, rfl, rfl, rfl⟩
  | _ => exact absurd ha Bool.false_ne_true

end Actions

/-- What an action does to the counters and the submissions. -/
inductive Change (c : Counters) (subs : List Sub) :
    Counters → List Sub → Prop where
  /-- The action is not one of a submission. -/
  | none : Change c subs c subs
  /-- A new submission. -/
  | spawn (submitNs tasks : Nat) :
      Change c subs c (subs ++ [Sub.begin submitNs tasks])
  /-- One submission moves. -/
  | move {i : Nat} {u u' : Sub} {c' : Counters} (entry : subs[i]? = some u)
      (move : u.Move c c' u') (ok : u'.Ok c') :
      Change c subs c' (subs.set i u')

theorem step_change {s s' : St} {a : Act} (hok : ∀ u ∈ s.subs, u.Ok s.ctrs)
    (hin : ∀ u ∈ s.subs, u.pc.stage = .member → s.ctrs.inflight ≠ 0)
    (h : s.step a = some s') : Change s.ctrs s.subs s'.ctrs s'.subs := by
  cases a with
  | tick =>
    cases h
    exact .none
  | begin submitNs tasks =>
    cases h
    exact .spawn submitNs tasks
  | complete i endNs rc tmst =>
    obtain ⟨u, hu, hpc, rfl⟩ := step_complete h
    have hstart := hok u (List.mem_of_getElem? hu)
    simp only [Sub.Ok, hpc] at hstart
    refine .move hu (.stay (by rw [hpc]; rfl) ?_ ?_) ⟨hstart, rfl⟩
    · rw [Sub.counted, Sub.counted, hpc]; rfl
    · simp [Sub.left, hpc, Pc.stage, Stage.isLeft]
  | sub i =>
    obtain ⟨u, c, r, u', hu, hstep, rfl⟩ := step_sub h
    have hmem := List.mem_of_getElem? hu
    obtain ⟨hmove, hok'⟩ := Sub.step_move (hok u hmem) (hin u hmem) hstep
    exact .move hu hmove hok'
  | snapshot | snap | timeline | print =>
    obtain ⟨hctrs, -, hsubs, -⟩ := step_reads rfl h
    rw [hctrs, hsubs]
    exact .none

end OmarchyAne.Stats
