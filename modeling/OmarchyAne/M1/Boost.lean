import OmarchyAne.Lib.Run
import Mathlib.Algebra.Group.Nat.Defs

/-!
# The boost of the CPU clusters (ane/src/ane_boost.c)

A submit holds every CPU cluster at its top frequency, and a delayed work drops
the hold `boost_idle_ms` after the last submit has ended.

The steps are those of three parties.  The submitting thread, of which there is
one at a time, reads the parameter (`enter`), takes the lock and sets the boost
(`lock`) and ends its submit (`finish`).  The work leaves the queue when its
time has come (`fire`) and takes the lock later (`work`).  And anybody may
write the parameter (`setIdle`) at any time.

The body of the work compares the time since the last end with the parameter as
it is then, and it does not arm itself again.  `boost_due_iff` says when this
leaves the boost on for ever.
-/

namespace OmarchyAne.M1

open Lib

/-- Where the thread with the engine lock is. -/
inductive Submit where
  | none
  /-- `ane_boost_begin` has seen a nonzero parameter and waits for the lock. -/
  | entering
  | running
  deriving DecidableEq, Repr

/-- What `ane_boost_set` meets at a possible CPU. -/
structure Cpu where
  hasPolicy : Bool
  /-- The CPU is the first of the related CPUs of its policy. -/
  first : Bool
  /-- What `freq_qos_add_request` returns. -/
  err : Int

/-- `struct ane_boost`, the parameter, and what the kernel keeps for it. -/
structure Boost where
  /-- `legs` is not NULL. -/
  legs : Bool
  nlegs : Nat
  held : Nat
  lastEnd : Nat
  busy : Bool
  on : Bool
  /-- `boost_idle_ms`. -/
  idleMs : Nat
  /-- The requests for a minimum frequency that are in force. -/
  requests : Nat
  submit : Submit
  /-- The time from which the pending work may run. -/
  pending : Option Nat
  /-- The work has left the queue and does not have the lock yet. -/
  working : Bool
  /-- The time since boot.  `jiffies` is its low 64 bits. -/
  now : Nat
  deriving DecidableEq, Repr

/-- `time_after_eq`: the difference of two 64-bit times is not negative. -/
def timeAfterEq (a b : Nat) : Bool :=
  (a % 2 ^ 64 + 2 ^ 64 - b % 2 ^ 64) % 2 ^ 64 < 2 ^ 63

namespace Boost

/-- The loop over the CPUs, with the number of legs so far. -/
def addLegs (nlegs : Nat) : Nat → List Cpu → Nat
  | n, [] => n
  | n, c :: cs =>
    if !c.hasPolicy then addLegs nlegs n cs
    else if !c.first || decide (nlegs ≤ n) then addLegs nlegs n cs
    else if 0 ≤ c.err then addLegs nlegs (n + 1) cs
    else addLegs nlegs n cs

/-- `ane_boost_set` with `on`. -/
def setOn (b : Boost) (cpus : List Cpu) : Boost :=
  let n := addLegs b.nlegs 0 cpus
  { b with requests := b.requests + n, held := n, on := true }

/-- `ane_boost_set` without `on`. -/
def setOff (b : Boost) : Boost :=
  { b with requests := b.requests - b.held, held := 0, on := false }

/-- The state after `ane_boost_init`, at any time and with any parameter. -/
def Init (b : Boost) : Prop :=
  b.held = 0 ∧ b.busy = false ∧ b.on = false ∧ b.requests = 0 ∧
    b.submit = .none ∧ b.pending = none ∧ b.working = false

section Steps

-- `msecs_to_jiffies`, which depends on the kernel's tick.
variable (toJiffies : Nat → Nat)

/-- The time from which the boost may be dropped has come. -/
def elapsed (b : Boost) : Bool :=
  timeAfterEq b.now (b.lastEnd + toJiffies b.idleMs)

/-- `ane_boost_off_work`, with the lock. -/
def offWork (b : Boost) : Boost :=
  if b.on && !b.busy && b.elapsed toJiffies then b.setOff else b

/-- `ane_boost_begin` before the lock. -/
def enter (b : Boost) : Boost :=
  if !b.legs || b.idleMs == 0 then { b with submit := .running }
  else { b with submit := .entering }

/-- `ane_boost_begin` with the lock. -/
def begin (b : Boost) (cpus : List Cpu) : Boost :=
  { (if !b.on then b.setOn cpus else b) with
    busy := true
    submit := .running }

/-- `ane_boost_end`.  The timer is set a little after `last_end` is read. -/
def finish (b : Boost) (lag : Nat) : Boost :=
  if !b.legs then { b with submit := .none }
  else
    { b with
      submit := .none
      busy := false
      lastEnd := b.now % 2 ^ 64
      pending :=
        if b.on then some (b.now + lag + toJiffies b.idleMs) else b.pending }

/-- `ane_boost_exit`.  It cancels the work and waits for its end. -/
def exit (b : Boost) : Boost :=
  if !b.legs then b
  else
    { (if b.on then b.setOff else b) with
      pending := none
      legs := false }

end Steps

end Boost

inductive BoostAct where
  | tick (n : Nat)
  | setIdle (ms : Nat)
  | enter
  | lock (cpus : List Cpu)
  | finish (lag : Nat)
  | fire
  | work
  | exit

/-- A step.  A work item does not run twice at the same time. -/
def Boost.step (toJiffies : Nat → Nat) (b : Boost) : BoostAct → Option Boost
  | .tick n => some { b with now := b.now + n }
  | .setIdle ms => some { b with idleMs := ms }
  | .enter => if b.submit = .none then some b.enter else none
  | .lock cpus => if b.submit = .entering then some (b.begin cpus) else none
  | .finish lag =>
    if b.submit = .running then some (b.finish toJiffies lag) else none
  | .fire =>
    match b.pending with
    | none => none
    | some t =>
      if t ≤ b.now ∧ b.working = false then
        some { b with pending := none, working := true }
      else none
  | .work =>
    if b.working then some { b.offWork toJiffies with working := false }
    else none
  | .exit =>
    if b.submit = .none ∧ b.working = false then some b.exit else none

def boostSystem (toJiffies : Nat → Nat) : System Boost BoostAct where
  init := Boost.Init
  step := Boost.step toJiffies

namespace Boost

variable {toJiffies : Nat → Nat} {b b' : Boost}

/-- If the boost is on, or a request in force, and no submit runs, then the
work is pending or about to take the lock. -/
def Due (b : Boost) : Prop :=
  b.on = true ∨ 0 < b.requests → b.submit = .none →
    b.pending.isSome = true ∨ b.working = true

/-- The condition on a step.  A body of the work that finds the boost on, no
submit and no newer work pending comes when the time that the parameter gives
now has passed since the last end. -/
def notEarly (toJiffies : Nat → Nat) (b : Boost) : BoostAct → Bool
  | .work =>
    !b.on || b.submit != .none || b.pending.isSome || b.elapsed toJiffies
  | _ => true

/-! ## The invariant -/

structure Inv (b : Boost) : Prop where
  busy : b.busy = true → b.submit = .running
  requests : b.requests = b.held
  held : b.on = false → b.held = 0
  entering : b.submit = .entering → b.legs = true
  legs : b.legs = false → b.on = false ∧ b.busy = false

theorem Init.inv (h : b.Init) : b.Inv := by
  obtain ⟨hheld, hbusy, hon, hreq, hsubmit, hpending, hworking⟩ := h
  constructor <;> simp_all

theorem Init.due (h : b.Init) : b.Due := by
  obtain ⟨hheld, hbusy, hon, hreq, hsubmit, hpending, hworking⟩ := h
  intro hor
  simp [hon, hreq] at hor

theorem Inv.not_busy (h : b.Inv) (hnone : b.submit = .none) : b.busy = false := by
  cases hbusy : b.busy with
  | false => rfl
  | true =>
    have := h.busy hbusy
    simp [hnone] at this

/-- With the boost off no request is in force, and nothing is due. -/
theorem Inv.due_of_off (h : b.Inv) (hoff : b.on = false) : b.Due := by
  intro hor
  have hzero := h.held hoff
  rw [← h.requests] at hzero
  simp [hoff, hzero] at hor

theorem due_of_submit (hsubmit : b.submit ≠ .none) : b.Due :=
  fun _ hnone => absurd hnone hsubmit

theorem Inv.setOff (h : b.Inv) : b.setOff.Inv where
  busy := h.busy
  requests := by
    show b.requests - b.held = 0
    have := h.requests
    omega
  held _ := rfl
  entering := h.entering
  legs hlegs := ⟨rfl, (h.legs hlegs).2⟩

theorem Inv.enter (h : b.Inv) (hnone : b.submit = .none) : b.enter.Inv := by
  have hbusy := h.not_busy hnone
  rw [Boost.enter]
  split
  next => constructor <;> simp_all [h.requests, h.held, h.legs]
  next hlegs =>
    simp only [Bool.or_eq_true, not_or, Bool.not_eq_true'] at hlegs
    constructor <;> simp_all [h.requests, h.held]

theorem Inv.begin (h : b.Inv) (hentering : b.submit = .entering)
    (cpus : List Cpu) : (b.begin cpus).Inv := by
  have hlegs := h.entering hentering
  rw [Boost.begin]
  split
  next hoff =>
    have hon : b.on = false := by simpa using hoff
    have hreq : b.requests = 0 := h.requests.trans (h.held hon)
    constructor <;> simp [setOn, hreq, hlegs]
  next hon => constructor <;> simp_all [h.requests]

theorem Inv.finish (h : b.Inv) (lag : Nat) : (b.finish toJiffies lag).Inv := by
  rw [Boost.finish]
  split
  next hlegs =>
    obtain ⟨hoff, hbusy⟩ := h.legs (by simpa using hlegs)
    constructor <;> simp_all [h.requests, h.held]
  next hlegs =>
    exact ⟨fun hb => (by cases hb), h.requests, h.held,
      fun hs => (by cases hs), fun hno => ⟨(h.legs hno).1, rfl⟩⟩

theorem Inv.offWork (h : b.Inv) : ({ b.offWork toJiffies with working := false } : Boost).Inv := by
  rw [Boost.offWork]
  split
  next =>
    have hoff := h.setOff
    exact ⟨hoff.busy, hoff.requests, hoff.held, hoff.entering, hoff.legs⟩
  next => exact ⟨h.busy, h.requests, h.held, h.entering, h.legs⟩

theorem exit_off (h : b.Inv) : b.exit.on = false := by
  rw [Boost.exit]
  split
  next hlegs => exact (h.legs (by simpa using hlegs)).1
  next =>
    split
    next => rfl
    next hoff => simpa using hoff

theorem Inv.exit (h : b.Inv) (hnone : b.submit = .none) : b.exit.Inv := by
  have hbusy := h.not_busy hnone
  have hreq := h.requests
  rw [Boost.exit]
  split
  next => exact h
  next =>
    split
    next hon => constructor <;> simp_all [Boost.setOff]
    next hon => constructor <;> simp_all [h.held]

theorem Inv.step (h : b.Inv) {a : BoostAct} (hstep : b.step toJiffies a = some b') : b'.Inv := by
  cases a with
  | tick n =>
    cases hstep
    exact ⟨h.busy, h.requests, h.held, h.entering, h.legs⟩
  | setIdle ms =>
    cases hstep
    exact ⟨h.busy, h.requests, h.held, h.entering, h.legs⟩
  | enter =>
    obtain ⟨hnone, ⟨⟩⟩ := Option.ite_none_right_eq_some.mp hstep
    exact h.enter hnone
  | lock cpus =>
    obtain ⟨hentering, ⟨⟩⟩ := Option.ite_none_right_eq_some.mp hstep
    exact h.begin hentering cpus
  | finish lag =>
    obtain ⟨-, ⟨⟩⟩ := Option.ite_none_right_eq_some.mp hstep
    exact h.finish lag
  | fire =>
    rw [Boost.step] at hstep
    split at hstep
    next => cases hstep
    next =>
      obtain ⟨-, ⟨⟩⟩ := Option.ite_none_right_eq_some.mp hstep
      exact ⟨h.busy, h.requests, h.held, h.entering, h.legs⟩
  | work =>
    obtain ⟨-, ⟨⟩⟩ := Option.ite_none_right_eq_some.mp hstep
    exact h.offWork
  | exit =>
    obtain ⟨⟨hnone, -⟩, ⟨⟩⟩ := Option.ite_none_right_eq_some.mp hstep
    exact h.exit hnone

/-! ## Which steps leave the boost on for ever -/

/-- The body of the work. -/
theorem offWork_due_iff (h : b.Inv) : ({ b.offWork toJiffies with working := false } : Boost).Due ↔
      b.notEarly toJiffies .work = true := by
  cases hon : b.on with
  | false =>
    have hsame : b.offWork toJiffies = b := by simp [Boost.offWork, hon]
    refine iff_of_true (h.offWork.due_of_off ?_) (by simp [notEarly, hon])
    rw [hsame]
    exact hon
  | true =>
    by_cases hnone : b.submit = .none
    · have hbusy := h.not_busy hnone
      cases hel : b.elapsed toJiffies with
      | true =>
        have hoff : b.offWork toJiffies = b.setOff := by
          simp [Boost.offWork, hon, hbusy, hel]
        refine iff_of_true (h.offWork.due_of_off ?_) (by simp [notEarly, hel])
        rw [hoff]
        rfl
      | false =>
        have hsame : b.offWork toJiffies = b := by simp [Boost.offWork, hel]
        rw [hsame]
        simp [Due, notEarly, hon, hnone, hel]
    · have hsubmit : (b.offWork toJiffies).submit = b.submit := by
        rw [Boost.offWork]
        split <;> rfl
      refine iff_of_true (due_of_submit ?_) (by simp [notEarly, hnone])
      show (b.offWork toJiffies).submit ≠ .none
      rwa [hsubmit]

theorem due_step_iff (h : b.Inv) (hdue : b.Due) {a : BoostAct}
    (hstep : b.step toJiffies a = some b') :
    b'.Due ↔ b.notEarly toJiffies a = true := by
  have hinv := h.step hstep
  cases a with
  | tick n =>
    cases hstep
    exact iff_of_true hdue rfl
  | setIdle ms =>
    cases hstep
    exact iff_of_true hdue rfl
  | enter =>
    obtain ⟨-, ⟨⟩⟩ := Option.ite_none_right_eq_some.mp hstep
    refine iff_of_true (due_of_submit ?_) rfl
    rw [Boost.enter]
    split <;> simp
  | lock cpus =>
    obtain ⟨-, ⟨⟩⟩ := Option.ite_none_right_eq_some.mp hstep
    exact iff_of_true (due_of_submit (by simp [Boost.begin])) rfl
  | finish lag =>
    obtain ⟨-, ⟨⟩⟩ := Option.ite_none_right_eq_some.mp hstep
    refine iff_of_true ?_ rfl
    cases hon : b.on with
    | true =>
      have hlegs : b.legs = true := by
        cases hlegs : b.legs with
        | true => rfl
        | false => exact absurd hon (by simp [(h.legs hlegs).1])
      intro _ _
      simp [Boost.finish, hlegs, hon]
    | false =>
      apply hinv.due_of_off
      rw [Boost.finish]
      split <;> exact hon
  | fire =>
    rw [Boost.step] at hstep
    split at hstep
    next => cases hstep
    next =>
      obtain ⟨-, ⟨⟩⟩ := Option.ite_none_right_eq_some.mp hstep
      exact iff_of_true (fun _ _ => .inr rfl) rfl
  | work =>
    obtain ⟨-, ⟨⟩⟩ := Option.ite_none_right_eq_some.mp hstep
    exact offWork_due_iff h
  | exit =>
    obtain ⟨-, ⟨⟩⟩ := Option.ite_none_right_eq_some.mp hstep
    exact iff_of_true (hinv.due_of_off (exit_off h)) rfl

end Boost

/-- The boost is due to drop all along a run exactly when no body of the work
comes before the time that the parameter gives then. -/
theorem boost_due_iff (toJiffies : Nat → Nat) {b₀ b : Boost}
    {acts : List BoostAct} (hinit : (boostSystem toJiffies).init b₀)
    (hrun : (boostSystem toJiffies).run b₀ acts = some b) :
    (boostSystem toJiffies).Always Boost.Due b₀ acts ↔
      (boostSystem toJiffies).StepsMeet (Boost.notEarly toJiffies) b₀ acts :=
  System.always_iff_stepsMeet
    (fun _ _ _ hinv hstep => Boost.Inv.step hinv hstep)
    (fun _ _ _ hinv hdue hstep => Boost.due_step_iff hinv hdue hstep)
    (Boost.Init.inv hinit) (Boost.Init.due hinit) hrun

/-- Two CPUs of one policy, with the default parameter. -/
def boostProbed : Boost where
  legs := true
  nlegs := 2
  held := 0
  lastEnd := 0
  busy := false
  on := false
  idleMs := 100
  requests := 0
  submit := .none
  pending := none
  working := false
  now := 5000

def oneCluster : List Cpu := [⟨true, true, 1⟩, ⟨true, false, 1⟩]

/-- A submit, and the drop when its time has come. -/
def oneSubmit : List BoostAct :=
  [.enter, .lock oneCluster, .tick 7, .finish 0, .tick 100, .fire, .work]

/-- The parameter goes from 100 to 1000 between the end of the submit and the
expiry of the work. -/
def raisedIdle : List BoostAct :=
  [.enter, .lock oneCluster, .tick 7, .finish 0, .setIdle 1000, .tick 100, .fire, .work]

theorem boost_due_oneSubmit : (boostSystem id).Always Boost.Due boostProbed oneSubmit := by
  have hrun : ((boostSystem id).restrict (Boost.notEarly id)).run boostProbed
      oneSubmit = some { boostProbed with now := 5107, lastEnd := 5007 } := by
    decide +kernel
  obtain ⟨hrun, hmeet⟩ := System.run_restrict_iff.mp hrun
  exact (boost_due_iff id ⟨rfl, rfl, rfl, rfl, rfl, rfl, rfl⟩ hrun).mpr hmeet

theorem boost_left_on : ∃ b, (boostSystem id).run boostProbed raisedIdle = some b ∧
      b.on = true ∧ b.requests = 1 ∧ b.submit = .none ∧ b.pending = none ∧
      b.working = false ∧ ¬ b.Due := by
  refine ⟨{ boostProbed with
    now := 5107, lastEnd := 5007, idleMs := 1000, on := true, held := 1, requests := 1 },
    by decide +kernel, rfl, rfl, rfl, rfl, rfl, ?_⟩
  intro hdue
  simpa [boostProbed] using hdue (.inl rfl) rfl

end OmarchyAne.M1
