import OmarchyAne.M1.Ownership
import OmarchyAne.M1.WedgeInv

/-!
# Faults of the DART during a task (ane/src/ane_tm.c, ane/src/ane_dart.c)

`Wedge` has a task with the outcome of each of its polls.  Here is
`ane_tm_execute` with what the polls read: the error latch of the DART, the
events of the two finish lines and the status of the task manager.  A poll
stops at a latched fault before it reads the engine.  The faulting page is
then reserved and mapped to a scratch page, and the polling goes on, for at
most `scratchMax` pages.

* `Scratched` is what the fault loop keeps (`faultLoop_done`).
* `fault_contained` says what each exit leaves.
* `tmExecute_refines` says that a call is a task of the wedge machine.

A fault that could not be drained at all leaves no scratch page.  The call then
wedges the engine and attempts a recovery as after a timeout, and when this
succeeds the engine is not wedged any more (`undrained_recovers`).
-/

namespace OmarchyAne.M1

open Lib List

/-- The fields of `struct ane_request` that the completion compares. -/
structure Request where
  nid : UInt32
  tdCount : UInt32

/-- What one turn of a poll reads. -/
structure PollRead where
  /-- `ane_dart_faulted`. -/
  latched : Bool
  /-- The events of the two lines. -/
  events : List UInt32 × List UInt32
  /-- `TM_STATUS & TM_IS_IDLE`. -/
  idle : Bool

/-- A completion poll and the fault that is latched after it. -/
structure PollRound where
  reads : List PollRead
  fault : Option Fault

/-- The info word of the last task. -/
def Request.finishInfo (req : Request) : UInt32 :=
  (0x05000000 : UInt32) ||| req.nid <<< 16 ||| (req.tdCount - 1)

/-- `ane_tm_collect_events`.  A line with more than 64 events overflows; the
finish lines that were seen before stay seen. -/
def collectEvents (req : Option Request) (events : List UInt32 × List UInt32)
    (idle : Bool) (finished : Bool × Bool) :
    Except Errno Bool × (Bool × Bool) :=
  let seen := fun (infos : List UInt32) =>
    req.any fun r => infos.any (· == r.finishInfo)
  if 64 < events.1.length then (.error .Eio, finished)
  else
    let first := (finished.1 || seen events.1, finished.2)
    if 64 < events.2.length then (.error .Eio, first)
    else
      let both := (first.1, first.2 || seen events.2)
      (.ok (both.1 && both.2 && idle), both)

/-- `ane_tm_poll_step`. -/
def pollStep (req : Request) (r : PollRead) (finished : Bool × Bool) :
    Except Errno Bool × (Bool × Bool) :=
  if r.latched then (.error .Eio, finished)
  else collectEvents (some req) r.events r.idle finished

/-- What the loop of `ane_tm_execute` has so far.  `seen` says whether any read
of the latch found a fault. -/
structure FaultLoop where
  mem : Mem
  scratch : List Nat
  faulted : Bool
  finished : Bool × Bool
  err : Except Errno Unit
  seen : Bool
  /-- The fault interrupts are masked. -/
  masked : Bool

/-- Before the first poll, after `ane_dart_mask`. -/
def FaultLoop.start (m : Mem) : FaultLoop :=
  ⟨m, [], false, (false, false), .ok (), false, true⟩

/-- `ane_dart_unmask`. -/
def FaultLoop.unmask (l : FaultLoop) : FaultLoop := { l with masked := false }

/-- `read_poll_timeout`: the reads until the time is over. -/
def pollRun (req : Request) : List PollRead → FaultLoop → FaultLoop
  | [], l => { l with err := .error .ETIMEDOUT }
  | r :: reads, l =>
    let (status, finished) := pollStep req r l.finished
    let l' := { l with finished := finished, seen := l.seen || r.latched }
    match status with
    | .error e => { l' with err := .error e }
    | .ok true => { l' with err := .ok () }
    | .ok false => pollRun req reads l'

section Task

variable [PageShift] {m₀ : Mem} {l : FaultLoop}

/-- Why a fault cannot be drained. -/
def drainErr (m : Mem) (f : Fault) : Errno :=
  if !f.allocs then .ENOMEM
  else if m.Fits ⟨f.iova / pageSize * pageSize, pageSize⟩ then .EEXIST
  else .ENOSPC

/-- The loop of `ane_tm_execute`, with room for `left` more scratch pages. -/
def faultLoop (req : Request) (rounds : Nat → PollRound) :
    Nat → Nat → FaultLoop → FaultLoop
  | left, i, l =>
    let l' := pollRun req (rounds i).reads l
    match (rounds i).fault with
    | none => l'
    | some f =>
      let l' := { l' with faulted := true, seen := true }
      match left with
      | 0 => { l' with err := .error .Eio }
      | left + 1 =>
        match drainFault l'.mem f with
        | none => { l' with err := .error (drainErr l'.mem f) }
        | some (iova, m) =>
          faultLoop req rounds left (i + 1)
            { l' with mem := m, scratch := l'.scratch ++ [iova], err := .ok () }

/-- What the engine and the DART answer during one task. -/
structure TmEnv where
  /-- The events before the push. -/
  before : List UInt32 × List UInt32
  rounds : Nat → PollRound
  /-- A fault is latched after the last poll. -/
  latched : Bool
  /-- `TQ_NID1` of the queue. -/
  tqNid : UInt32
  recover : RecoverEnv

inductive TmExit where
  | done
  | contained
  | wedged
  deriving DecidableEq

structure TmOut where
  ret : Except Errno Unit
  dev : Dev
  /-- The loop when the call returns. -/
  loop : FaultLoop
  exit : TmExit

def TmOut.masked (r : TmOut) : Bool := r.loop.masked

/-- The task is pushed. -/
def Dev.push (s : Dev) : Dev :=
  { s with hist := { s.hist with pushes := s.hist.pushes ++ [s.wedged] } }

/-- The exit that wedges the engine. -/
def tmWedge (s : Dev) (l : FaultLoop) (e : Errno) (env : RecoverEnv) : TmOut :=
  ⟨.error e, { s with mem := l.mem }.wedge l.scratch env, l.unmask, .wedged⟩

/-- `ane_tm_execute`. -/
def tmExecute (s : Dev) (req : Request) (env : TmEnv) : TmOut :=
  match (collectEvents none env.before false (false, false)).1 with
  | .error e => tmWedge s (.start s.mem) e env.recover
  | .ok _ =>
    let l := faultLoop req env.rounds scratchMax 0 (.start s.mem)
    if l.faulted then
      match l.err with
      | .error e => tmWedge s.push l e env.recover
      | .ok _ =>
        if env.latched then tmWedge s.push l .Eio env.recover
        else
          ⟨.error .Eio,
            { s.push with mem := releaseScratch l.mem l.scratch }, l.unmask,
            .contained⟩
    else
      match l.err with
      | .error e => tmWedge s.push l e env.recover
      | .ok _ =>
        if env.tqNid >>> 8 &&& 0xff ≠ req.nid then
          tmWedge s.push l .Eio env.recover
        else ⟨.ok (), { s.push with mem := l.mem }, l.unmask, .done⟩

/-! ## The scratch pages -/

/-- The memory `m` is `m₀` with the scratch pages on top: each has a page that
no node of `m₀` owned and that was not mapped. -/
structure Scratched (m₀ m : Mem) (scratch : List Nat) : Prop where
  lo : m.lo = m₀.lo
  hi : m.hi = m₀.hi
  bos : m.bos = m₀.bos
  victims : m.victims = m₀.victims
  held : m.held = m₀.held ++ scratch.map fun x => ⟨x, pageSize⟩
  frame : ∀ y, y ∉ scratch → m.domain y = m₀.domain y
  mapped : ∀ x ∈ scratch, m₀.domain x = none ∧ (m.domain x).isSome = true
  free : ∀ x ∈ scratch, ∀ n ∈ m₀.nodes, Node.Disjoint ⟨x, pageSize⟩ n
  apart : scratch.Pairwise fun x y =>
    Node.Disjoint ⟨y, pageSize⟩ ⟨x, pageSize⟩

theorem scratched_nil (m : Mem) : Scratched m m [] := by
  constructor <;> simp

theorem not_disjoint_self (x : Nat) : ¬Node.Disjoint ⟨x, pageSize⟩ ⟨x, pageSize⟩ := by
  have hpos := pageSize_pos
  change ¬(x + pageSize ≤ x ∨ x + pageSize ≤ x)
  omega

/-- A drain adds one scratch page. -/
theorem Scratched.drain {m m' : Mem} {scratch : List Nat} {f : Fault} {x : Nat}
    (h : Scratched m₀ m scratch) (hdrain : drainFault m f = some (x, m')) :
    Scratched m₀ m' (scratch ++ [x]) := by
  rw [drainFault] at hdrain
  split at hdrain
  swap
  · cases hdrain
  next hfits =>
  obtain ⟨-, ⟨-, -, -, -, hnodes⟩, hnone⟩ := hfits
  cases hdrain
  generalize f.iova / pageSize * pageSize = x at hnodes hnone ⊢
  have hnew : ∀ y ∈ scratch, Node.Disjoint ⟨x, pageSize⟩ ⟨y, pageSize⟩ := by
    intro y hy
    refine hnodes _ (mem_append_right _ ?_)
    rw [h.held]
    exact mem_append_right _ (mem_map_of_mem hy)
  have hnot : x ∉ scratch := fun hmem =>
    not_disjoint_self x (hnew x hmem)
  refine ⟨h.lo, h.hi, h.bos, h.victims, ?_, fun y hy => ?_, fun y hy => ?_, fun y hy n hn => ?_, ?_⟩
  · simp [h.held]
  · rw [mem_append, mem_singleton, not_or] at hy
    exact (Domain.map_other hy.2).trans (h.frame y hy.1)
  · by_cases heq : y = x
    · subst heq
      exact ⟨(h.frame y hnot).symm.trans hnone, by simp [Domain.map]⟩
    · have hy' : y ∈ scratch := by simpa [heq] using hy
      change _ ∧ (m.domain.map x f.page y).isSome = true
      rw [Domain.map_other heq]
      exact h.mapped y hy'
  · obtain hy | hy := mem_append.mp hy
    · exact h.free y hy n hn
    · obtain rfl := mem_singleton.mp hy
      refine hnodes n ?_
      rw [Mem.nodes, h.bos, h.held]
      exact (mem_append.mp hn).elim (mem_append_left _) fun hheld =>
        mem_append_right _ (mem_append_left _ hheld)
  · rw [pairwise_append]
    refine ⟨h.apart, pairwise_singleton _ _, fun y hy z hz => ?_⟩
    obtain rfl := mem_singleton.mp hz
    exact hnew y hy

theorem foldl_erase_append (held : List Node) (scratch : List Nat)
    (h : ∀ x ∈ scratch, (⟨x, pageSize⟩ : Node) ∉ held) :
    scratch.foldl (fun held x => held.erase ⟨x, pageSize⟩)
      (held ++ scratch.map fun x => ⟨x, pageSize⟩) = held := by
  induction scratch with
  | nil => simp
  | cons x scratch ih =>
    rw [foldl_cons, map_cons,
      erase_append_right _ (h x mem_cons_self), erase_cons_head]
    exact ih fun y hy => h y (mem_cons_of_mem _ hy)

/-- The release takes the scratch pages back. -/
theorem Scratched.release {m : Mem} {scratch : List Nat}
    (h : Scratched m₀ m scratch) : releaseScratch m scratch = m₀ := by
  have hdomain : m.domain.unmap scratch = m₀.domain := by
    funext y
    by_cases hy : y ∈ scratch
    · rw [(h.mapped y hy).1]
      exact if_pos hy
    · rw [Domain.unmap_other hy, h.frame y hy]
  have hheld := foldl_erase_append m₀.held scratch fun x hx hmem =>
    not_disjoint_self x (h.free x hx _ (mem_append_right _ hmem))
  rw [releaseScratch, h.held, hheld, hdomain, h.lo, h.hi, h.bos, h.victims]

/-! ## The polls -/

omit [PageShift] in
theorem collectEvents_done {req : Option Request} {events : List UInt32 × List UInt32} {idle : Bool}
    {finished finished' : Bool × Bool}
    (h : collectEvents req events idle finished = (.ok true, finished')) :
    finished' = (true, true) := by
  rw [collectEvents] at h
  split at h
  · cases h
  dsimp only at h
  split at h
  · cases h
  · simp only [Prod.mk.injEq, Except.ok.injEq, Bool.and_eq_true] at h
    obtain ⟨⟨⟨hfirst, hsecond⟩, -⟩, rfl⟩ := h
    rw [hfirst, hsecond]

/-- What a poll leaves alone, and what a poll that completes has seen. -/
structure Polled (l l' : FaultLoop) : Prop where
  mem : l'.mem = l.mem
  scratch : l'.scratch = l.scratch
  faulted : l'.faulted = l.faulted
  ok : l'.err = .ok () → l'.finished = (true, true) ∧ l'.seen = l.seen

omit [PageShift] in
theorem pollRun_polled (req : Request) (reads : List PollRead)
    (l : FaultLoop) : Polled l (pollRun req reads l) := by
  induction reads generalizing l with
  | nil => exact ⟨rfl, rfl, rfl, nofun⟩
  | cons r reads ih =>
    rw [pollRun, pollStep]
    by_cases hlatched : r.latched = true
    · rw [if_pos hlatched]
      exact ⟨rfl, rfl, rfl, nofun⟩
    · rw [if_neg hlatched]
      have hseen : (l.seen || r.latched) = l.seen := by simp [hlatched]
      cases hcollect : collectEvents (some req) r.events r.idle l.finished with
      | mk status finished =>
      rw [hseen]
      cases status with
      | error e => exact ⟨rfl, rfl, rfl, nofun⟩
      | ok done =>
        cases done with
        | true =>
          exact ⟨rfl, rfl, rfl, fun _ => ⟨collectEvents_done hcollect, rfl⟩⟩
        | false =>
          obtain ⟨hmem, hscratch, hfaulted, hok⟩ := ih { l with finished := finished }
          exact ⟨hmem, hscratch, hfaulted, hok⟩

/-- What the loop has done when it ends. -/
structure LoopDone (m₀ : Mem) (l : FaultLoop) : Prop where
  scratched : Scratched m₀ l.mem l.scratch
  bounded : l.scratch.length ≤ scratchMax
  ok : l.err = .ok () →
    l.finished = (true, true) ∧ (l.seen = true → l.faulted = true)

/-- The last round keeps the memory and the scratch pages. -/
theorem LoopDone.of {l' : FaultLoop} (hmem : l'.mem = l.mem) (hscratch : l'.scratch = l.scratch)
    (h : Scratched m₀ l.mem l.scratch) (hroom : l.scratch.length ≤ scratchMax)
    (hok : l'.err = .ok () → l'.finished = (true, true) ∧ (l'.seen = true → l'.faulted = true)) :
    LoopDone m₀ l' :=
  ⟨by rw [hmem, hscratch]; exact h, by rw [hscratch]; exact hroom, hok⟩

omit [PageShift] in
/-- A drained fault takes one of the places that are left. -/
theorem Polled.room {l' : FaultLoop} {left : Nat} (hpoll : Polled l l')
    (hroom : l.scratch.length + (left + 1) = scratchMax) (x : Nat) :
    (l'.scratch ++ [x]).length + left = scratchMax := by
  rw [length_append, length_singleton, hpoll.scratch]
  omega

theorem faultLoop_done {req : Request} {rounds : Nat → PollRound} {left i : Nat}
    (h : Scratched m₀ l.mem l.scratch)
    (hroom : l.scratch.length + left = scratchMax)
    (hseen : l.seen = true → l.faulted = true) :
    LoopDone m₀ (faultLoop req rounds left i l) := by
  fun_induction faultLoop req rounds left i l with
  | case1 left i l =>
    have hpoll := pollRun_polled req (rounds i).reads l
    refine .of hpoll.mem hpoll.scratch h (by omega) fun hok => ?_
    obtain ⟨hfin, hsame⟩ := hpoll.ok hok
    exact ⟨hfin, fun hs => hpoll.faulted.trans (hseen (hsame ▸ hs))⟩
  | case2 i l =>
    have hpoll := pollRun_polled req (rounds i).reads l
    exact .of hpoll.mem hpoll.scratch h (by omega) nofun
  | case3 i l =>
    have hpoll := pollRun_polled req (rounds i).reads l
    exact .of hpoll.mem hpoll.scratch h (by omega) nofun
  | case4 i l l' f hfault l'' left x m hdrain ih =>
    have hpoll := pollRun_polled req (rounds i).reads l
    rw [← hpoll.mem, ← hpoll.scratch] at h
    exact ih (h.drain hdrain) (hpoll.room hroom x) fun _ => rfl

/-! ## The exits -/

theorem check_scratch (s : Dev) (env : RecoverEnv) :
    (s.check env).2.scratchRetained = s.scratchRetained := by
  unfold Dev.check
  split
  · dsimp only
    split
    · obtain ⟨mem, heq, -, -⟩ := Dev.foldl_reclaimOne
        { s with quiesced := false, wedged := false, pins := s.pins - 1 }
        s.preserved
      unfold Dev.reclaimPreserved
      rw [heq]
    · rfl
  · rfl

/-- A recovery does not touch the retained flag. -/
theorem recover_scratch (s : Dev) (env : RecoverEnv) :
    (s.recover env).2.scratchRetained = s.scratchRetained := by
  unfold Dev.recover
  split
  · rfl
  split
  · rfl
  split
  · dsimp only
    split
    · exact check_scratch _ env
    · rfl
  split
  · rfl
  obtain ⟨on, gates, heq, -⟩ := Dev.pdCycle_eq s env.cycle
  generalize s.pdCycle env.cycle = result at heq ⊢
  obtain ⟨ok, t⟩ := result
  dsimp only at heq ⊢
  subst heq
  split
  · split
    · exact check_scratch _ env
    · rfl
  · rfl

/-- What a caller of `ane_tm_execute` finds after the call. -/
structure Contained (s : Dev) (env : TmEnv) (r : TmOut) : Prop where
  /-- Scratch pages are at free pages only, and there are few of them. -/
  pages : r.loop.scratch.length ≤ scratchMax ∧
    Scratched s.mem r.loop.mem r.loop.scratch
  success : r.ret = .ok () →
    r.loop.seen = false ∧ r.loop.finished = (true, true)
  /-- A fault is contained when the task has completed and the latch is
  clear. -/
  drained : r.loop.faulted = true →
    (r.exit = .contained ↔ r.loop.err = .ok () ∧ env.latched = false)
  contained : r.exit = .contained →
    r.ret = .error .Eio ∧ r.dev.mem = s.mem ∧ r.masked = false
  other : r.loop.seen = true → r.exit ≠ .contained →
    r.exit = .wedged ∧ r.ret ≠ .ok ()
  /-- Scratch pages that stay are mapped and reserved, and nothing recovers
  the engine. -/
  retained : r.exit = .wedged → r.loop.scratch ≠ [] →
    r.dev.wedged = true ∧ r.dev.scratchRetained = true ∧
      r.dev.mem = r.loop.mem
  /-- Without a scratch page there is nothing to retain. -/
  undrained : r.exit = .wedged → r.loop.scratch = [] →
    r.dev.scratchRetained = s.scratchRetained

theorem tmWedge_contained {s t : Dev} {e : Errno} {env : TmEnv}
    (hscratch : t.scratchRetained = s.scratchRetained)
    (hbound : l.scratch.length ≤ scratchMax)
    (h : Scratched s.mem l.mem l.scratch)
    (hfails : l.faulted = true → ¬(l.err = .ok () ∧ env.latched = false)) :
    Contained s env (tmWedge t l e env.recover) where
  pages := ⟨hbound, h⟩
  success := nofun
  drained hfaulted := iff_of_false nofun (hfails hfaulted)
  contained := nofun
  other _ _ := ⟨rfl, nofun⟩
  retained _ hne := by
    change l.scratch ≠ [] at hne
    rw [tmWedge, Dev.wedge]
    simp only [if_neg hne]
    cases t.wedged <;> simp [FaultLoop.unmask]
  undrained _ heq := by
    change l.scratch = [] at heq
    rw [tmWedge, Dev.wedge]
    simp only [heq, if_true]
    rw [recover_scratch]
    cases t.wedged <;> simp [hscratch]

/-- Whatever the polls read and wherever the DART faults: scratch pages are
mapped at free pages only, success means two finish lines and no fault, a
contained fault leaves the memory as it was, and any other fault wedges the
engine and keeps its scratch pages. -/
theorem fault_contained (s : Dev) (req : Request) (env : TmEnv) :
    Contained s env (tmExecute s req env) := by
  have hdone : LoopDone s.mem (faultLoop req env.rounds scratchMax 0 (.start s.mem)) :=
    faultLoop_done (scratched_nil s.mem) rfl nofun
  rw [tmExecute]
  dsimp only
  split
  · exact tmWedge_contained rfl (Nat.zero_le _) (scratched_nil s.mem) nofun
  generalize faultLoop req env.rounds scratchMax 0 (.start s.mem) = l at hdone
  obtain ⟨hscratched, hbound, hok⟩ := hdone
  split
  · next hfaulted =>
    split
    · next e herr =>
      refine tmWedge_contained rfl hbound hscratched fun _ hand => ?_
      rw [herr] at hand
      exact nomatch hand.1
    · next herr =>
      split
      · next hlatched =>
        refine tmWedge_contained rfl hbound hscratched fun _ hand => ?_
        rw [hlatched] at hand
        exact nomatch hand.2
      · next hlatched =>
        exact {
          pages := ⟨hbound, hscratched⟩
          success := nofun
          drained := fun _ => iff_of_true rfl ⟨herr, by simpa using hlatched⟩
          contained := fun _ => ⟨rfl, hscratched.release, rfl⟩
          other := fun _ hne => absurd rfl hne
          retained := nofun
          undrained := nofun }
  · next hfaulted =>
    have hnot : l.faulted = true → ¬(l.err = .ok () ∧ env.latched = false) :=
      fun h => absurd h hfaulted
    split
    · exact tmWedge_contained rfl hbound hscratched hnot
    · next herr =>
      obtain ⟨hfinished, hseen⟩ := hok herr
      split
      · exact tmWedge_contained rfl hbound hscratched hnot
      · exact {
          pages := ⟨hbound, hscratched⟩
          success := fun _ =>
            ⟨Bool.eq_false_of_not_eq_true fun h => hfaulted (hseen h), hfinished⟩
          drained := fun h => absurd h hfaulted
          contained := nofun
          other := fun h => absurd (hseen h) hfaulted
          retained := nofun
          undrained := nofun }

/-! ## The task of the wedge machine -/

/-- The call does not return 0. -/
def failed : Except Errno Unit → Bool
  | .ok _ => false
  | .error _ => true

/-- The turns of the loop are rounds of the wedge machine. -/
theorem faultLoop_drainLoop {req : Request} {rounds : Nat → PollRound} {left i : Nat}
    (hroom : l.scratch.length + left = scratchMax) (fails : Bool) :
    let l' := faultLoop req rounds left i l
    ∃ rs, drainLoop rs ⟨l.mem, l.scratch, l.faulted, fails⟩ =
      some ⟨l'.mem, l'.scratch, l'.faulted, failed l'.err⟩ := by
  fun_induction faultLoop req rounds left i l generalizing fails with
  | case1 left i l l' =>
    have hpoll := pollRun_polled req (rounds i).reads l
    refine ⟨[⟨failed l'.err, none⟩], ?_⟩
    rw [drainLoop, ← hpoll.mem, ← hpoll.scratch, ← hpoll.faulted]
  | case2 i l l' f =>
    have hpoll := pollRun_polled req (rounds i).reads l
    refine ⟨[⟨true, some f⟩], ?_⟩
    simp only [drainLoop, if_pos (show scratchMax ≤ l.scratch.length by omega)]
    simp only [← hpoll.mem, ← hpoll.scratch]
    rfl
  | case3 i l l' f hfault l'' left hdrain =>
    have hpoll := pollRun_polled req (rounds i).reads l
    refine ⟨[⟨true, some f⟩], ?_⟩
    change drainFault l'.mem f = none at hdrain
    rw [show l'.mem = _ from hpoll.mem] at hdrain
    simp only [drainLoop, if_neg (show ¬scratchMax ≤ l.scratch.length by omega), hdrain]
    simp only [← hpoll.mem, ← hpoll.scratch]
    rfl
  | case4 i l l' f hfault l'' left x m hdrain ih =>
    have hpoll := pollRun_polled req (rounds i).reads l
    change drainFault l'.mem f = some (x, m) at hdrain
    rw [show l'.mem = _ from hpoll.mem] at hdrain
    obtain ⟨rs, hrs⟩ := ih (hpoll.room hroom x) false
    refine ⟨⟨true, some f⟩ :: rs, ?_⟩
    simp only [drainLoop, if_neg (show ¬scratchMax ≤ l.scratch.length by omega), hdrain]
    rw [← hpoll.scratch]
    exact hrs

/-- What the call does to the device is a task of the wedge machine. -/
theorem tmExecute_refines (s : Dev) (req : Request) (env : TmEnv) :
    ∃ task : TaskEnv, s.execute task = some (tmExecute s req env).dev := by
  obtain ⟨rs, hrs⟩ := @faultLoop_drainLoop _ (.start s.mem) req env.rounds scratchMax 0 rfl false
  rw [tmExecute]
  split
  · exact ⟨⟨true, [], false, false, env.recover⟩, by simp [Dev.execute, tmWedge, FaultLoop.start]⟩
  refine ⟨⟨false, rs, env.latched,
    decide (env.tqNid >>> 8 &&& 0xff = req.nid), env.recover⟩, ?_⟩
  rw [Dev.execute]
  change drainLoop rs ⟨s.mem, [], false, false⟩ = _ at hrs
  simp only [Bool.false_eq_true, if_false, hrs, Option.map_some]
  generalize faultLoop req env.rounds scratchMax 0 (.start s.mem) = l
  cases herr : l.err with
  | error e => cases hfaulted : l.faulted <;> simp [failed, tmWedge, Dev.push]
  | ok _ =>
    cases hfaulted : l.faulted with
    | true => cases hlatched : env.latched <;> simp [failed, tmWedge, Dev.push]
    | false =>
      by_cases hnid : env.tqNid >>> 8 &&& 0xff = req.nid <;>
        simp [failed, tmWedge, Dev.push, hnid]

end Task

/-! ## A fault in a page of a live object -/

section LivePage

local instance faultPages : PageShift := page16K

/-- The engine with one object. -/
def oneObject : Dev where
  mem := {
    lo := 0x4000
    hi := 2 ^ 32
    domain := fun x => if x = 0x4000 then some 0x800000000 else none
    bos := [⟨⟨0x4000, 0x4000⟩, [0x800000000], [0x4000]⟩]
    held := []
    victims := [] }
  preserved := []
  wedged := false
  pins := 0
  scratchRetained := false
  recovering := false
  quiesced := false
  porPending := false
  powered := true
  hist := ⟨0, [], fun _ => none, [], []⟩

/-- The page of the object faults, and the power cycle after it succeeds. -/
def livePageFault : TmEnv where
  before := ([], [])
  rounds _ := ⟨[⟨true, ([], []), false⟩], some ⟨0x4010, 0x900000000, true⟩⟩
  latched := true
  tqNid := 0
  recover := ⟨.done, true, true⟩

/-- The fault is not contained, but the engine is not wedged after the call,
and no flag is set. -/
theorem undrained_recovers : (tmExecute oneObject ⟨1, 1⟩ livePageFault).loop.faulted = true ∧
      (tmExecute oneObject ⟨1, 1⟩ livePageFault).exit = .wedged ∧
      (tmExecute oneObject ⟨1, 1⟩ livePageFault).dev.wedged = false ∧
      (tmExecute oneObject ⟨1, 1⟩ livePageFault).dev.scratchRetained = false := by
  decide +kernel

end LivePage

end OmarchyAne.M1
