import OmarchyAne.Lib.Run
import OmarchyAne.M1.Iommu

/-!
# Wedge and recovery of the M1 engine (ane/src/ane_tm.c, ane/src/ane_drv.c)

A task that does not complete wedges the engine.  The module is pinned then,
work is refused, and a buffer object that goes keeps its mapping on the
preserved list.  `ane_tm_recover` power-cycles the partitions, and when the
task manager is idle afterwards it clears the wedge and reclaims the preserved
ranges.  When it is not, the engine counts as quiesced, runtime suspend may
power it off, and the recovery after that only checks for idle.

* `recover` is `ane_tm_recover` with `pdCycle`, under the answers that the
  environment gives at each stage (`RecoverEnv`).
* `execute` is `ane_tm_execute`: the events before the push, the completion
  polls with the faults they find and the pages that drain them, and the exit
  that wedges (`wedge`).
* `gemFree` is `ane_gem_free_object`, `runtimeSuspend` the callback.

The calls run under `engine_lock`, so each one is a step.  `Hist` records what
happened, for the properties that speak of more than one state.
-/

namespace OmarchyAne.M1

open Lib

/-- `struct ane_preserved`: a range whose object is gone.  `id` counts the
ranges. -/
structure Kept where
  id : Nat
  mm : Node
  pages : List Phys

/-- The flags at a moment when the device is gated. -/
structure Gate where
  wedged : Bool
  quiesced : Bool
  recovering : Bool

structure Hist where
  /-- How many ranges have been put on the preserved list. -/
  kept : Nat
  /-- The ranges that were reclaimed, in order. -/
  reclaimed : List Nat
  /-- The page table when the engine wedged last. -/
  atWedge : Domain
  /-- For each task that was pushed: whether the engine was wedged. -/
  pushes : List Bool
  gates : List Gate

structure Dev where
  mem : Mem
  preserved : List Kept
  wedged : Bool
  /-- The references that wedges hold on the module. -/
  pins : Nat
  scratchRetained : Bool
  recovering : Bool
  quiesced : Bool
  porPending : Bool
  powered : Bool
  hist : Hist

/-! ## Power -/

namespace Dev

/-- The device is gated. -/
def gate (s : Dev) : Dev :=
  { s with
    powered := false
    hist := { s.hist with
      gates := s.hist.gates ++ [⟨s.wedged, s.quiesced, s.recovering⟩] } }

/-- `ane_runtime_suspend`.  A veto leaves the device powered. -/
def runtimeSuspend (s : Dev) : Dev :=
  if s.wedged && !s.recovering then
    if s.quiesced then gate { s with porPending := true } else s
  else s.gate

end Dev

/-- How far the power cycle of the partitions comes. -/
inductive Cycle where
  | suspendFails
  | resumeFails
  | done

structure RecoverEnv where
  cycle : Cycle
  /-- `ane_ps_verify_on` succeeds. -/
  islandsOn : Bool
  /-- `TM_STATUS` reads idle or fresh before the poll times out. -/
  idle : Bool

/-! ## Recovery -/

section Recovery

variable [PageShift]

namespace Dev

/-- One turn of the reclaim loop: the pages of the range are unmapped, with
the shift of a `u32`, and its node goes. -/
def reclaimOne (s : Dev) (p : Kept) : Dev :=
  { s with
    mem := { s.mem with
      domain := s.mem.domain.unmap (eachAddrs p.mm.start p.pages.length)
      held := s.mem.held.erase p.mm }
    hist := { s.hist with reclaimed := s.hist.reclaimed ++ [p.id] } }

/-- `ane_reclaim_preserved`. -/
def reclaimPreserved (s : Dev) : Dev :=
  { s.preserved.foldl reclaimOne s with preserved := [] }

/-- `ane_pd_cycle`, for one partition or several: they are suspended and then
resumed while the device counts as recovering. -/
def pdCycle (s : Dev) (c : Cycle) : Bool × Dev :=
  let s₁ := { s with recovering := true }
  match c with
  | .suspendFails => (false, { s₁ with recovering := false })
  | .resumeFails => (false, { s₁.runtimeSuspend with recovering := false })
  | .done =>
    (true, { s₁.runtimeSuspend with recovering := false, powered := true })

/-- The end of a recovery: the idle check, and on success the wedge, its pin
and the preserved ranges go. -/
def check (s : Dev) (env : RecoverEnv) : Bool × Dev :=
  if env.idle then
    let s₁ := { s with quiesced := false }
    if s₁.wedged then
      (true, reclaimPreserved { s₁ with wedged := false, pins := s₁.pins - 1 })
    else (true, s₁)
  else (false, s)

/-- `ane_tm_recover`, and whether it succeeds. -/
def recover (s : Dev) (env : RecoverEnv) : Bool × Dev :=
  if s.scratchRetained then (false, s)
  else if !s.wedged then (true, s)
  else if s.porPending then
    let s₁ := { s with porPending := false }
    if env.islandsOn then s₁.check env else (false, s₁)
  else if s.quiesced then (false, s)
  else
    let (ok, s₁) := s.pdCycle env.cycle
    if ok then
      let s₂ := { s₁ with quiesced := true }
      if env.islandsOn then s₂.check env else (false, s₂)
    else (false, s₁)

/-- Work may go on: the engine is not wedged, or it has been recovered. -/
def ready (s : Dev) (env : RecoverEnv) : Bool × Dev :=
  if s.wedged then s.recover env else (true, s)

end Dev

/-! ## A task -/

/-- A fault of the DART: the address, the page to drain it with, and whether
the allocations succeed. -/
structure Fault where
  iova : Nat
  page : Phys
  allocs : Bool

/-- A completion poll: whether it fails, and the fault that is latched. -/
structure Round where
  fails : Bool
  fault : Option Fault

def scratchMax : Nat := 16

/-- `ane_dart_drain_fault`: reserve the faulting page and map a scratch page
there. -/
def drainFault (m : Mem) (f : Fault) : Option (Nat × Mem) :=
  let iova := f.iova / pageSize * pageSize
  if f.allocs ∧ m.Fits ⟨iova, pageSize⟩ ∧ m.domain iova = none then
    some (iova, { m with
      domain := m.domain.map iova f.page
      held := m.held ++ [⟨iova, pageSize⟩] })
  else none

structure Drained where
  mem : Mem
  scratch : List Nat
  faulted : Bool
  fails : Bool

/-- The loop of `ane_tm_execute` over the polls.  It goes on after each fault
that could be drained. -/
def drainLoop : List Round → Drained → Option Drained
  | [], _ => none
  | r :: rounds, d =>
    match r.fault with
    | none => some { d with fails := r.fails }
    | some f =>
      if scratchMax ≤ d.scratch.length then
        some { d with faulted := true, fails := true }
      else
        match drainFault d.mem f with
        | none => some { d with faulted := true, fails := true }
        | some (iova, m) =>
          drainLoop rounds
            { mem := m, scratch := d.scratch ++ [iova], faulted := true,
              fails := false }

/-- `ane_dart_release_scratch`. -/
def releaseScratch (m : Mem) (scratch : List Nat) : Mem :=
  { m with
    domain := m.domain.unmap scratch
    held := scratch.foldl (fun held x => held.erase ⟨x, pageSize⟩) m.held }

structure TaskEnv where
  /-- The events before the push overflow. -/
  overflow : Bool
  rounds : List Round
  /-- A fault is latched after the last poll. -/
  latched : Bool
  /-- The queue still names the task. -/
  sameNid : Bool
  recover : RecoverEnv

namespace Dev

/-- The exit of `ane_tm_execute` that wedges the engine. -/
def wedge (s : Dev) (scratch : List Nat) (env : RecoverEnv) : Dev :=
  let s₁ :=
    if s.wedged then s
    else { s with
      wedged := true
      pins := s.pins + 1
      hist := { s.hist with atWedge := s.mem.domain } }
  if scratch = [] then (s₁.recover env).2
  else { s₁ with scratchRetained := true }

/-- `ane_tm_execute`, up to the polls that the environment has answers for. -/
def execute (s : Dev) (env : TaskEnv) : Option Dev :=
  if env.overflow then some (s.wedge [] env.recover)
  else
    let s₁ := { s with
      hist := { s.hist with pushes := s.hist.pushes ++ [s.wedged] } }
    (drainLoop env.rounds ⟨s.mem, [], false, false⟩).map fun d =>
      let s₂ := { s₁ with mem := d.mem }
      if d.faulted then
        if d.fails || env.latched then s₂.wedge d.scratch env.recover
        else { s₂ with mem := releaseScratch d.mem d.scratch }
      else if d.fails || !env.sameNid then s₂.wedge d.scratch env.recover
      else s₂

/-! ## The calls -/

/-- `ane_gem_free_object` of a mapped object.  `tracked` says whether the
registry entry could be allocated; without it the range stays reserved for
good. -/
def gemFree (s : Dev) (i : Nat) (tracked : Bool) : Dev :=
  match s.mem.bos[i]? with
  | none => s
  | some b =>
    if s.wedged then
      let mem := { s.mem with
        bos := s.mem.bos.eraseIdx i, held := s.mem.held ++ [b.mm] }
      if tracked then
        { s with
          mem := mem
          preserved := s.preserved ++ [⟨s.hist.kept, b.mm, b.pages⟩]
          hist := { s.hist with kept := s.hist.kept + 1 } }
      else { s with mem := mem }
    else { s with mem := s.mem.free i }

/-- The objects of a file that is closed, one after the other. -/
def gemFrees (s : Dev) (bos : List (Nat × Bool)) : Dev :=
  bos.foldl (fun s b => s.gemFree b.1 b.2) s

end Dev

inductive DevAct where
  | submit (ready : RecoverEnv) (env : TaskEnv)
  | boInit (ready : RecoverEnv) (size : Nat) (env : Mem.InitEnv)
  /-- `last`: the handle held the last reference. -/
  | boFree (ready : RecoverEnv) (i : Nat) (last tracked : Bool)
  /-- The last reference goes with a mapping of the object. -/
  | put (i : Nat) (tracked : Bool)
  /-- `resumed`: the device could be resumed for the recovery at the end. -/
  | close (bos : List (Nat × Bool)) (resumed : Bool) (env : RecoverEnv)
  | reset (env : RecoverEnv)
  | suspend
  | resume

namespace Dev

/-- A call on the device.  The ioctls and the reset hold it powered. -/
def step (s : Dev) : DevAct → Option Dev
  | .submit ready env =>
    if s.powered then
      match s.ready ready with
      | (false, s₁) => some s₁
      | (true, s₁) => s₁.execute env
    else none
  | .boInit ready size env =>
    if s.powered then
      match s.ready ready with
      | (false, s₁) => some s₁
      | (true, s₁) => some { s₁ with mem := s₁.mem.boInit size env }
    else none
  | .boFree ready i last tracked =>
    if s.powered then
      match s.ready ready with
      | (false, s₁) => some s₁
      | (true, s₁) => some (if last then s₁.gemFree i tracked else s₁)
    else none
  | .put i tracked => some (s.gemFree i tracked)
  | .close bos resumed env =>
    let s₁ := s.gemFrees bos
    if resumed then some ({ s₁ with powered := true }.recover env).2
    else some s₁
  | .reset env => if s.powered then some (s.recover env).2 else none
  | .suspend => if s.powered then some s.runtimeSuspend else none
  | .resume => if s.powered then none else some { s with powered := true }

end Dev

/-- The driver from probe on, over a page table with any entries. -/
def devSystem : System Dev DevAct where
  init s := s.mem.bos = [] ∧ s.preserved = [] ∧ s.wedged = false ∧
    s.pins = 0 ∧ s.scratchRetained = false ∧ s.recovering = false ∧
    s.quiesced = false ∧ s.porPending = false ∧ s.hist.kept = 0 ∧
    s.hist.reclaimed = [] ∧ s.hist.pushes = [] ∧ s.hist.gates = []
  step := Dev.step

end Recovery

end OmarchyAne.M1
