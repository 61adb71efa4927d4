import OmarchyAne.T6021.DriverInv

/-!
# The buffers of a call in flight

Between the send of a PROCEDURE_CALL and its finish event the firmware writes
the io buffers of the call.  EXEC marks these buffers and takes no reference
on them, so it relies on somebody else to keep them.

A buffer that loses its last reference in that time is parked, and the next
BO_INIT of its size takes it, zeroes it and gives it to another file
(`callFlight_reused`).  As long as no BO_FREE and no unmap drops the last
reference of such a buffer, nobody else gets its memory
(`callFlight_isolated`).  The close of a file is not in that condition: EXEC
holds its own file open, and a quarantined device keeps every firmware
buffer.
-/

namespace OmarchyAne.T6021

open Lib

variable {δ : Type}

/-- An EXEC is in progress. -/
def FwOp.running : FwOp δ → Bool
  | exec .. | call .. => true
  | _ => false

theorem FwOp.marked_of_not_running {op : FwOp δ} (h : op.running = false) : op.marked = [] := by
  cases op <;> first | rfl | exact absurd h (by simp [running])

/-- A buffer with references or kept for good has its memory, and it is in
the hands of nobody else. -/
theorem Place.of_kept {pl : Place} (h : pl.counted = true ∨ pl = .held) :
    pl.allocated = true ∧ pl ≠ .parked ∧ ∀ i, pl ≠ .hand i := by
  rcases h with h | rfl
  · cases pl <;> simp_all [counted, allocated]
  · simp [allocated]

namespace Drv

variable {s : Drv δ} {b : BoId} {f : FileId}

/-- The io buffers that the EXEC in progress relies on, up to the finish event
of its call. -/
def pinned (s : Drv δ) : List BoId :=
  match s.fw with
  | .exec _ _ marked => marked
  | .call _ marked => if s.inflight = [] then [] else marked
  | _ => []

/-- The buffer whose last reference a BO_FREE or an unmap drops. -/
def lastRef (s : Drv δ) : Act δ → Option BoId
  | .boFree f handle =>
    (s.buf.find f handle).filter (fun b => (s.buf.bo b).refs == 1)
  | .vmClose b => if (s.buf.bo b).refs = 1 then some b else none
  | _ => none

/-- No BO_FREE and no unmap drops the last reference of an io buffer of the
EXEC in progress. -/
def keepsMarked (s : Drv δ) (a : Act δ) : Bool :=
  match s.lastRef a with
  | some b => decide (b ∉ s.pinned)
  | none => true

/-- The buffer is on the list of the file, or something else holds it. -/
def InUse (s : Drv δ) (f : FileId) (b : BoId) : Prop :=
  s.buf.place b = .file f ∨ s.buf.place b = .loose

/-- How the buffers of a call in flight are kept. -/
structure Flight (s : Drv δ) : Prop where
  /-- There is one call in flight at a time, and a call that was given up is
  in flight on a quarantined device only. -/
  calls : s.inflight = [] ∨ s.quarantined = true ∨
    ∃ f, s.fw = .call f s.inflight
  clear : s.fw.running = true → s.quarantined = false
  inUse : ∀ f, s.fw.file = some f → ∀ b ∈ s.pinned, s.InUse f b
  kept : s.quarantined = true → ∀ b ∈ s.inflight,
    (s.buf.bo b).fwIo = true ∧
      ((s.buf.place b).counted = true ∨ s.buf.place b = .held)

theorem pinned_sub_marked (hb : b ∈ s.pinned) : b ∈ s.fw.marked := by
  rw [pinned] at hb
  split at hb
  · rename_i hfw
    rw [hfw]
    exact hb
  · rename_i hfw
    split_ifs at hb
    · simp at hb
    · rw [hfw]
      exact hb
  · simp at hb

theorem notMem_pinned (h : s.fw.running = false) (b : BoId) : b ∉ s.pinned := by
  intro hb
  have hmem := pinned_sub_marked hb
  rw [FwOp.marked_of_not_running h] at hmem
  simp at hmem

theorem InUse.counted (h : s.InUse f b) : (s.buf.place b).counted = true := by
  rcases h with h | h <;> rw [h] <;> rfl

/-- A buffer of a call in flight is an io buffer of the EXEC in progress, or
the device is quarantined. -/
theorem Flight.pinned_of_inflight (h : s.Flight) (hb : b ∈ s.inflight) :
    s.quarantined = true ∨ ∃ f, s.fw.file = some f ∧ b ∈ s.pinned := by
  rcases h.calls with hnil | hq | ⟨f, hfw⟩
  · rw [hnil] at hb
    simp at hb
  · exact .inl hq
  · refine .inr ⟨f, by rw [hfw]; rfl, ?_⟩
    rw [pinned, hfw]
    dsimp only
    rw [if_neg (List.ne_nil_of_mem hb)]
    exact hb

theorem flight_start (cfg : DrvCfg δ) (poolMaxMb : Nat) : (start cfg poolMaxMb).Flight where
  calls := .inl rfl
  clear := fun _ => rfl
  inUse f hf := by simp [start, FwOp.file] at hf
  kept hq := by simp [start] at hq

variable [PageShift] {cfg : DrvCfg δ}

/-- A buffer of a call in flight has references, or its memory is kept for
good. -/
theorem Flight.inflight_kept (h : s.Flight) (hinv : Inv cfg s) (hb : b ∈ s.inflight) :
    (s.buf.bo b).fwIo = true ∧ ((s.buf.place b).counted = true ∨ s.buf.place b = .held) := by
  rcases h.pinned_of_inflight hb with hq | ⟨f, hf, hpinned⟩
  · exact h.kept hq b hb
  · exact ⟨(hinv.io b (.inl (pinned_sub_marked hpinned))).2,
      .inl (h.inUse f hf b hpinned).counted⟩

variable [DecidableEq δ] [Inhabited δ] {s' : Drv δ} {a : Act δ} {evs : List Ev}

/-- The condition keeps the references that the EXEC in progress relies on. -/
theorem pinned_not_dropped (hinv : Inv cfg s) (hok : s.keepsMarked a = true)
    (hstep : s.step cfg a = some (s', evs)) (hf : s.fw.file = some f)
    (hb : b ∈ s.pinned) (huse : s.InUse f b) : ¬ s.drops a b := by
  intro hdrop
  cases a with
  | boFree g handle =>
    obtain ⟨hfind, hone⟩ := hdrop
    have hlast : s.lastRef (.boFree g handle) = some b := by
      simp [lastRef, hfind, hone]
    simp [keepsMarked, hlast, hb] at hok
  | vmClose c =>
    obtain ⟨rfl, hone⟩ := hdrop
    have hlast : s.lastRef (.vmClose b) = some b := by simp [lastRef, hone]
    simp [keepsMarked, hlast, hb] at hok
  | closeBos g =>
    -- the closing file has no firmware operation any more
    simp only [step] at hstep
    split_ifs at hstep with hg
    have hplace := ((hinv.owned.each b).file_iff g).mp hdrop
    rcases huse with hfile | hloose
    · rw [hplace, Place.file.injEq] at hfile
      exact hg.2 (hfile ▸ hinv.file f hf)
    · exact absurd (hplace.symm.trans hloose) (by simp)
  | closePut reply =>
    -- an EXEC holds the firmware lock
    have hmarked := pinned_sub_marked hb
    cases hfw : s.fw with
    | close g u => simp [hfw, FwOp.marked] at hmarked
    | _ => simp [step, closePut, hfw] at hstep
  | _ => exact hdrop

theorem InUse.step (hinv : Inv cfg s) (hok : s.keepsMarked a = true)
    (hstep : s.step cfg a = some (s', evs)) (hf : s.fw.file = some f)
    (hb : b ∈ s.pinned) (huse : s.InUse f b) : s'.InUse f b := by
  rcases ((step_cases hstep).shown hinv).counted b huse.counted with
    hsame | hloose | hdrop
  · rw [InUse, hsame]
    exact huse
  · exact .inr hloose
  · exact absurd hdrop (pinned_not_dropped hinv hok hstep hf hb huse)

/-- A buffer that a quarantined device keeps stays kept. -/
theorem kept_step (hinv : Inv cfg s) (hstep : Step cfg s a s' evs)
    (hq : s.quarantined = true) (hio : (s.buf.bo b).fwIo = true)
    (hkept : (s.buf.place b).counted = true ∨ s.buf.place b = .held) :
    (s'.buf.bo b).fwIo = true ∧ ((s'.buf.place b).counted = true ∨ s'.buf.place b = .held) := by
  have hshown := hstep.shown hinv
  have halloc := (Place.of_kept hkept).1
  refine ⟨hshown.io b (hinv.owned.alloc_lt halloc).1 hio, ?_⟩
  rcases hkept with hc | hh
  · exact hshown.safe hq b hio hc
  · exact .inr (hshown.held b hh)

/-- A buffer of a call in flight is kept over the next step. -/
theorem Flight.inflight_stays (h : s.Flight) (hinv : Inv cfg s)
    (hok : s.keepsMarked a = true) (hstep : s.step cfg a = some (s', evs))
    (hb : b ∈ s.inflight) :
    (s'.buf.place b).counted = true ∨ s'.buf.place b = .held := by
  rcases h.pinned_of_inflight hb with hq | ⟨f, hf, hpinned⟩
  · obtain ⟨hio, hkept⟩ := h.kept hq b hb
    exact (kept_step hinv (step_cases hstep) hq hio hkept).2
  · have huse := h.inUse f hf b hpinned
    exact .inl (huse.step hinv hok hstep hf hpinned).counted

/-- A step of the buffer half keeps the buffers of the call. -/
theorem Flight.same (h : s.Flight) (hinv : Inv cfg s)
    (hok : s.keepsMarked a = true) (hstep : s.step cfg a = some (s', evs))
    (hfw : s'.fw = s.fw) (hfly : s'.inflight = s.inflight)
    (hq : s'.quarantined = s.quarantined) : s'.Flight where
  calls := by
    rw [hfly, hq, hfw]
    exact h.calls
  clear := by
    rw [hfw, hq]
    exact h.clear
  inUse f hf b hb := by
    have hpinned : s'.pinned = s.pinned := by rw [pinned, pinned, hfw, hfly]
    rw [hfw] at hf
    rw [hpinned] at hb
    exact (h.inUse f hf b hb).step hinv hok hstep hf hb
  kept hq' b hb := by
    rw [hq] at hq'
    rw [hfly] at hb
    obtain ⟨hio, hkept⟩ := h.kept hq' b hb
    exact kept_step hinv (step_cases hstep) hq' hio hkept

/-- An operation other than a call begins or ends. -/
theorem Flight.leave (h : s.Flight) (hinv : Inv cfg s)
    (hstep : Step cfg s a s' evs) (hfw' : s'.fw.running = false)
    (hcall : s.inflight = [] ∨ ∀ f m, s.fw ≠ .call f m)
    (hfly : s'.inflight = s.inflight)
    (hq : s'.quarantined = s.quarantined ∨
      s.quarantined = true ∧ s'.quarantined = true ∨ s.inflight = []) :
    s'.Flight := by
  have hold : s.inflight = [] ∨ s.quarantined = true := by
    rcases h.calls with hnil | hq | ⟨f, hf⟩
    · exact .inl hnil
    · exact .inr hq
    · exact .inl (hcall.resolve_right (fun hno => hno f _ hf))
  refine ⟨?_, ?_, ?_, ?_⟩
  · rw [hfly]
    rcases hold with hnil | hqs
    · exact .inl hnil
    · rcases hq with hsame | ⟨-, hq'⟩ | hnil
      · exact .inr (.inl (hsame.trans hqs))
      · exact .inr (.inl hq')
      · exact .inl hnil
  · intro hrun
    exact absurd (hrun.symm.trans hfw') (by simp)
  · intro f _ b hb
    exact absurd hb (notMem_pinned hfw' b)
  · intro _ b hb
    rw [hfly] at hb
    rcases hold with hnil | hqs
    · rw [hnil] at hb
      simp at hb
    · obtain ⟨hio, hkept⟩ := h.kept hqs b hb
      exact kept_step hinv hstep hqs hio hkept

/-- Every step that meets the condition keeps the buffers of the call. -/
theorem Flight.step (h : s.Flight) (hinv : Inv cfg s)
    (hok : s.keepsMarked a = true) (hstep : s.step cfg a = some (s', evs)) :
    s'.Flight := by
  have hcases := step_cases hstep
  have hidle : s.fw = .idle → s.inflight = [] ∨ ∀ f m, s.fw ≠ .call f m :=
    fun hfw => .inr (by simp [hfw])
  have hclear : s.fw.running = true → s.inflight = [] ∨ ∃ f, s.fw = .call f s.inflight := by
    intro hrun
    rcases h.calls with hnil | hq | hcall
    · exact .inl hnil
    · exact absurd ((h.clear hrun).symm.trans hq) (by simp)
    · exact .inr hcall
  cases step_cases hstep with
  | openFile | boInit | initStep | boFree | noBuf | mmap | vmOpen | vmClose
  | setPoolMax | closeBos => exact h.same hinv hok hstep rfl rfl rfl
  | returns hfw =>
    refine h.leave hinv hcases rfl (.inr ?_) rfl (.inl rfl)
    intro f m hf
    simp [hf, FwOp.quiet] at hfw
  | fails hfw =>
    refine ⟨.inr (.inl rfl), ?_, ?_, ?_⟩
    · intro hrun
      simp [FwOp.running] at hrun
    · intro f hf
      simp [FwOp.file] at hf
    · intro _ b hb
      exact h.inflight_kept hinv hb
  | progLoad hfw | lookup hfw | procCreate hfw | close hfw =>
    exact h.leave hinv hcases rfl (hidle hfw) rfl (.inl rfl)
  | loadHash hfw | loadShare hfw | loadNew hfw | loadMark hfw | loadSend hfw
  | loadAdd hfw | closeEnd hfw =>
    exact h.leave hinv hcases rfl (.inr (by simp [hfw])) rfl (.inl rfl)
  | @exec f arg hfw hf hq =>
    refine ⟨?_, fun _ => hq, ?_, ?_⟩
    · rcases h.calls with hnil | hq' | ⟨g, hg⟩
      · exact .inl hnil
      · exact .inr (.inl hq')
      · exact absurd (hfw.symm.trans hg) (by simp)
    · intro g _ b hb
      simp [pinned] at hb
    · intro hq'
      exact absurd (hq.symm.trans hq') (by simp)
  | @execMark f a todo marked b hfw hb =>
    have hrun : s.fw.running = true := by rw [hfw]; rfl
    have hfile : s.fw.file = some f := by rw [hfw]; rfl
    refine ⟨?_, fun _ => h.clear hrun, ?_, ?_⟩
    · rcases hclear hrun with hnil | ⟨g, hg⟩
      · exact .inl hnil
      · exact absurd (hfw.symm.trans hg) (by simp)
    · intro g hg c hc
      obtain rfl : f = g := Option.some.inj hg
      simp only [pinned, List.mem_append, List.mem_singleton] at hc
      rcases hc with hc | rfl
      · have hc' : c ∈ s.pinned := by
          rw [pinned, hfw]
          exact hc
        exact (h.inUse f hfile c hc').step hinv hok hstep hfile hc'
      · exact .inl (((hinv.owned.each c).file_iff f).mp hb)
    · intro hq'
      exact absurd ((h.clear hrun).symm.trans hq') (by simp)
  | @execSend f marked hfw =>
    have hrun : s.fw.running = true := by rw [hfw]; rfl
    refine ⟨.inr (.inr ⟨f, rfl⟩), fun _ => h.clear hrun, ?_, ?_⟩
    · intro g hg c hc
      have hc' : c ∈ s.pinned := by
        rw [pinned, hfw]
        exact pinned_sub_marked hc
      exact h.inUse g (by rw [hfw]; exact hg) c hc'
    · intro hq'
      exact absurd ((h.clear hrun).symm.trans hq') (by simp)
  | fwFinish =>
    refine ⟨.inl rfl, h.clear, ?_, ?_⟩
    · intro g hg c hc
      refine h.inUse g hg c ?_
      simp only [pinned] at hc ⊢
      split at hc
      · exact hc
      · simp at hc
      · simp at hc
    · intro _ b hb
      simp at hb
  | execOk hfw hdone =>
    exact h.leave hinv hcases rfl (.inl hdone) rfl (.inl rfl)
  | closePut hfw hids hr =>
    refine h.leave hinv hcases (by rw [hfw]; rfl) (.inr (by simp [hfw])) rfl
      ?_
    rcases h.calls with hnil | hq | ⟨g, hg⟩
    · exact .inr (.inr hnil)
    · exact .inr (.inl ⟨hq, (put_cases hr).quarantined hq⟩)
    · exact absurd (hfw.symm.trans hg) (by simp)

/-- The state after a run whose steps meet the condition. -/
theorem flight_run {poolMaxMb : Nat} {as : List (Act δ)}
    (hrun : (driver cfg).run (start cfg poolMaxMb) as = some s)
    (hmeet : (driver cfg).StepsMeet keepsMarked (start cfg poolMaxMb) as) :
    Inv cfg s ∧ s.Flight := by
  refine System.run_invariant (S := (driver cfg).restrict keepsMarked)
    (I := fun s => Inv cfg s ∧ s.Flight) ?_
    ⟨inv_start cfg poolMaxMb, flight_start cfg poolMaxMb⟩
    (System.run_restrict_iff.mpr ⟨hrun, hmeet⟩)
  rintro s a s' ⟨hinv, hflight⟩ hstep
  obtain ⟨hok, hstep⟩ := System.restrict_step hstep
  obtain ⟨evs, hstep⟩ := step_of_driver hstep
  exact ⟨(step_cases hstep).inv hinv, hflight.step hinv hok hstep⟩

/-- The memory of a buffer in a call in flight is neither handed out, nor
zeroed, nor freed, in every run in which no BO_FREE and no unmap drops the
last reference of an io buffer of the EXEC in progress. -/
theorem callFlight_isolated {cfg : DrvCfg δ} {poolMaxMb : Nat}
    {as : List (Act δ)} {s s' : Drv δ} {a : Act δ} {evs : List Ev}
    (hrun : (driver cfg).run (start cfg poolMaxMb) as = some s)
    (hmeet : (driver cfg).StepsMeet keepsMarked (start cfg poolMaxMb) as)
    (hok : s.keepsMarked a = true)
    (hstep : s.step cfg a = some (s', evs)) {b : BoId}
    (hb : b ∈ s.inflight) :
    .taken b ∉ evs ∧ .zeroed b ∉ evs ∧ .published b ∉ evs ∧ .freed b ∉ evs ∧
      ∀ x, .allocated x ∈ evs → x ≠ b ∧
        Bufs.disjoint (s'.buf.bo x).dma (pageAlign (s'.buf.bo x).size)
          (s.buf.bo b).dma (pageAlign (s.buf.bo b).size) = true := by
  obtain ⟨hinv, hflight⟩ := flight_run hrun hmeet
  have hshown := (step_cases hstep).shown hinv
  obtain ⟨halloc, hparked, hhand⟩ :=
    Place.of_kept (hflight.inflight_kept hinv hb).2
  obtain ⟨hlt, hcpu⟩ := hinv.owned.alloc_lt halloc
  refine ⟨fun hev => ?_, fun hev => ?_, fun hev => ?_, fun hev => ?_, fun x hev => ?_⟩
  · exact hparked (hshown.taken_ev b hev)
  · obtain ⟨i, hi⟩ := hshown.zeroed_ev b hev
    exact hhand i hi
  · obtain ⟨i, hi⟩ := hshown.published_ev b hev
    exact hhand i hi
  · have hkept := Place.of_kept (hflight.inflight_stays hinv hok hstep hb)
    rw [hshown.freed_ev b hev] at hkept
    exact absurd hkept.1 (by simp [Place.allocated])
  · obtain ⟨rfl, hdisjoint⟩ := hshown.allocated_ev x hev
    exact ⟨(Nat.ne_of_lt hlt).symm, hdisjoint b hcpu⟩

end Drv

/-! ## Two runs -/

section Runs

local instance flightPages : PageShift := page16K

/-- One file allocates a section and an io buffer of 16 KiB, loads a program
and sends a call with the io buffer.  A second file is open. -/
def sendCall : List (Act (List Section)) :=
  [.openFile 0, .openFile 1] ++ Act.allocBo 0 0 0x4000 0x4000 ++
    Act.allocBo 1 0 0x4000 0x8000 ++ Act.loadOne 0 1 [1, 2, 3, 4] 7 ++
    [.exec 0 { progId := 7, priority := 4,
               ios := [{ handle := 2, size := 64 }] },
      .execMark, .execSend]

/-- The second file begins a BO_INIT of 16 KiB. -/
def initOther : List (Act (List Section)) :=
  [.boInit 1 0x4000, .initStep 2 .dmaFails]

/-- What the steps of a run show, with the io buffers of the call in flight
before each step. -/
def Drv.flightLog (cfg : DrvCfg (List Section)) :
    Drv (List Section) → List (Act (List Section)) →
      Option (List (List BoId × List Ev))
  | _, [] => some []
  | s, a :: as =>
    match s.step cfg a with
    | none => none
    | some (s', evs) =>
      (s'.flightLog cfg as).map (fun log => (s.inflight, evs) :: log)

/-- The first file frees the io buffer while its call is in flight.  The
BO_INIT of the second file takes that buffer, zeroes it and publishes it, and
the call is in flight before every one of these steps. -/
theorem callFlight_reused : ∃ s, (driver DrvCfg.ideal).run (Drv.start DrvCfg.ideal 64)
        (sendCall ++ [.boFree 0 2] ++ initOther) = some s ∧
      s.flightLog DrvCfg.ideal
          [.initStep 2 .dmaFails, .initStep 2 .dmaFails, .initStep 2 .dmaFails] =
        some [([1], [.taken 1]), ([1], [.zeroed 1]), ([1], [.published 1, .ret (.ok 3)])] := by
  have hrun : ((driver DrvCfg.ideal).run (Drv.start DrvCfg.ideal 64)
      (sendCall ++ [.boFree 0 2] ++ initOther)).isSome := by decide
  exact ⟨_, (Option.some_get hrun).symm, rfl⟩

/-- The same BO_INIT while the first file keeps the buffer: it allocates, and
the new memory is apart from that of the call. -/
theorem callFlight_isolated_alloc :
    ∃ s s' evs, (driver DrvCfg.ideal).run (Drv.start DrvCfg.ideal 64)
        (sendCall ++ initOther ++ [.initStep 2 .dmaFails, .initStep 2 .dmaFails]) = some s ∧
      s.step DrvCfg.ideal (.initStep 2 (.ok 0xc000)) = some (s', evs) ∧
      1 ∈ s.inflight ∧ .allocated 2 ∈ evs ∧ .taken 1 ∉ evs ∧
      Bufs.disjoint (s'.buf.bo 2).dma (pageAlign (s'.buf.bo 2).size)
        (s.buf.bo 1).dma (pageAlign (s.buf.bo 1).size) = true := by
  have hlog : (((driver DrvCfg.ideal).restrict Drv.keepsMarked).run
      (Drv.start DrvCfg.ideal 64) (sendCall ++ initOther ++
        [.initStep 2 .dmaFails, .initStep 2 .dmaFails])).bind (fun s =>
          s.flightLog DrvCfg.ideal [.initStep 2 (.ok 0xc000)]) =
      some [([1], [.allocated 2])] := by decide
  obtain ⟨s, hs, hlog⟩ := Option.bind_eq_some_iff.mp hlog
  obtain ⟨hrun, hmeet⟩ := System.run_restrict_iff.mp hs
  cases hstep : s.step DrvCfg.ideal (.initStep 2 (.ok 0xc000)) with
  | none => simp [Drv.flightLog, hstep] at hlog
  | some r =>
    obtain ⟨hfly, hevs⟩ : s.inflight = [1] ∧ r.2 = [.allocated 2] := by
      simpa [Drv.flightLog, hstep] using hlog
    have hmem : 1 ∈ s.inflight := by simp [hfly]
    have hnew : .allocated 2 ∈ r.2 := by simp [hevs]
    have h := Drv.callFlight_isolated hrun hmeet rfl hstep hmem
    exact ⟨s, r.1, r.2, hrun, hstep, hmem, hnew, h.1, (h.2.2.2.2 2 hnew).2⟩

end Runs

end OmarchyAne.T6021
