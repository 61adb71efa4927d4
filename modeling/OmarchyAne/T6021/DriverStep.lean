import OmarchyAne.T6021.Driver

/-!
# What a step of the driver can be

`Drv.Step` lists every outcome of `Drv.step` once, with the guards that led to
it.  Every invariant of the driver is a case analysis over it.
-/

namespace OmarchyAne.T6021

open Lib

variable {δ : Type}

/-- The operation returns without an effect from here: it is neither a call
that was sent nor a close. -/
def FwOp.quiet : FwOp δ → Bool
  | idle | hash .. | mark .. | load .. | exec .. => true
  | call .. | close .. => false

theorem Bufs.secBo_mem {B : Bufs} {f : FileId} {a : SecArg} {b : BoId}
    (h : B.secBo f a = some b) : b ∈ B.bos f := by
  rw [Bufs.secBo] at h
  split at h
  · cases h
  · rename_i c hc
    split_ifs at h
    exact Option.some.inj h ▸ List.mem_of_find?_eq_some hc

namespace Drv

/-! ## One turn of the close loop -/

variable {cfg : DrvCfg δ} {reply : UnloadReply} {ctx ctx' : CloseCtx} {p : Prog δ BoId}

/-- What an unload leaves behind when the firmware confirmed it. -/
theorem unloadOp_true (h : unloadOp cfg reply ctx p = (true, ctx')) :
    ctx.quarantined = false ∧ ctx' = { ctx with hist := ctx.hist ++ [.unloadOk p.serial] } := by
  simp only [unloadOp] at h
  split_ifs at h with hq hterm hdest
  all_goals simp only [Prod.mk.injEq, Bool.false_eq_true, false_and, true_and] at h
  refine ⟨?_, h.symm⟩
  simp only [Bool.or_eq_true, not_or, Bool.not_eq_true] at hq
  exact hq.2

/-- What an unload leaves behind when it failed.  Without a command buffer
nothing was sent, and the device is not quarantined by it. -/
theorem unloadOp_false (h : unloadOp cfg reply ctx p = (false, ctx')) :
    ∃ q, (q = true ∨ cfg.cmdBuf = false) ∧ (ctx.quarantined = true → q = true) ∧ ctx' = { ctx with
        quarantined := q
        hist := ctx.hist ++ [.unloadFailed p.serial] } := by
  simp only [unloadOp] at h
  split_ifs at h with hq hterm hdest
  · obtain ⟨-, rfl⟩ := h
    simp only [Bool.or_eq_true, Bool.not_eq_true'] at hq
    exact ⟨ctx.quarantined, hq.symm, fun h => h, rfl⟩
  · obtain ⟨-, rfl⟩ := h
    exact ⟨true, .inl rfl, fun _ => rfl, rfl⟩
  · obtain ⟨-, rfl⟩ := h
    exact ⟨true, .inl rfl, fun _ => rfl, rfl⟩
  · simp at h

variable [PageShift] [Inhabited δ] {s : Drv δ} {id : UInt32} {rest : FdProgs}

/-- The outcomes of one turn of the close loop. -/
inductive PutCase (cfg : DrvCfg δ) (s : Drv δ) (f : FileId) (id : UInt32)
    (rest : FdProgs) : Progs δ BoId × CloseCtx → Prop where
  | skip :
      PutCase cfg s f id rest
        ({ s.prg with progs := Function.update s.prg.progs f rest },
          s.closeCtx)
  | dropped {i p} (hp : s.prg.Live i p) (hid : p.progId = id) :
      PutCase cfg s f id rest
        ({ s.prg with
            tab := s.prg.tab.set i { p with users := p.users - 1 }
            progs := Function.update s.prg.progs f rest },
          s.closeCtx)
  | kept {i p q} (hp : s.prg.Live i p) (hid : p.progId = id)
      (husers : p.users = 1) (hq : q = true ∨ cfg.cmdBuf = false)
      (hq' : s.quarantined = true → q = true) :
      PutCase cfg s f id rest
        ({ s.prg with
            tab := s.prg.tab.set i { p with users := 0, state := .held }
            progs := Function.update s.prg.progs f rest },
          { buf := s.buf, quarantined := q,
            hist := s.hist ++ [.unloadFailed p.serial], evs := [] })
  | unloaded {i p} (hp : s.prg.Live i p) (hid : p.progId = id)
      (husers : p.users = 1) (hq : s.quarantined = false) :
      PutCase cfg s f id rest
        ({ s.prg with
            tab := s.prg.tab.set i Prog.cleared
            progs := Function.update s.prg.progs f rest },
          { buf := (s.buf.releaseSecs s.quarantined p.sec).1,
            quarantined := s.quarantined,
            hist := s.hist ++ [.unloadOk p.serial, .released p.serial],
            evs := (s.buf.releaseSecs s.quarantined p.sec).2 })

theorem put_cases {unloadOnClose : Bool} {f : FileId} {r : Progs δ BoId × CloseCtx}
    (hr : r = s.prg.put (progtabOps cfg reply) unloadOnClose s.closeCtx f id
      rest) : PutCase cfg s f id rest r := by
  subst hr
  have hout := progtabPut_outcome (progtabOps cfg reply) unloadOnClose s.prg.tab s.closeCtx id
  simp only [Progs.put]
  generalize progtabPut (progtabOps cfg reply) unloadOnClose s.prg.tab
    s.closeCtx id = r at hout
  cases hout with
  | skip => exact .skip
  | dropped hp hlive hid => exact .dropped ⟨hp, hlive⟩ hid
  | kept hp hlive hid husers hunload =>
    obtain ⟨q, hq, hq', rfl⟩ := unloadOp_false hunload
    exact .kept ⟨hp, hlive⟩ hid husers hq hq'
  | @unloaded i p ctx' hp hlive hid husers hunload =>
    obtain ⟨hq, rfl⟩ := unloadOp_true hunload
    have hrel := @PutCase.unloaded δ _ _ cfg s f id rest i p ⟨hp, hlive⟩ hid husers hq
    simpa [progtabOps, releaseOp, closeCtx] using hrel

/-- A turn of the close loop never lifts the quarantine. -/
theorem PutCase.quarantined {f : FileId} {r : Progs δ BoId × CloseCtx}
    (h : PutCase cfg s f id rest r) (hq : s.quarantined = true) :
    r.2.quarantined = true := by
  cases h with
  | kept _ _ _ _ hq' => exact hq' hq
  | _ => exact hq

/-! ## A step -/

variable [DecidableEq δ] {s' : Drv δ} {r : Except Errno UInt32} {evs : List Ev}

/-- The outcomes of one step. -/
inductive Step (cfg : DrvCfg δ) (s : Drv δ) :
    Act δ → Drv δ → List Ev → Prop where
  | openFile {f} (hf : f ∉ s.prg.files) (hf' : f ∉ s.closing) :
      Step cfg s (.openFile f) { s with prg := s.prg.openFile f } []
  | boInit {f size} :
      Step cfg s (.boInit f size)
        { s with
          buf := { s.buf with inits := s.buf.inits ++ [.start f size] } } []
  | initStep {i res B evs}
      (h : s.buf.initStep cfg.buf s.quarantined i res = some (B, evs)) :
      Step cfg s (.initStep i res) { s with buf := B } evs
  | boFree {f handle b} (hb : s.buf.find f handle = some b) :
      Step cfg s (.boFree f handle)
        { s with buf := (s.buf.boDrop s.quarantined f b).1 }
        ((s.buf.boDrop s.quarantined f b).2 ++ [.ret (.ok 0)])
  /-- An ioctl on buffers finds nothing. -/
  | noBuf {a r} : Step cfg s a s [.ret r]
  | mmap {f handle b} (hb : b ∈ s.buf.bos f) :
      Step cfg s (.mmap f handle) { s with buf := s.buf.vmOpen b } []
  | vmOpen {b} (hb : 0 < s.buf.maps b) :
      Step cfg s (.vmOpen b) { s with buf := s.buf.vmOpen b } []
  | vmClose {b} (hb : 0 < s.buf.maps b) :
      Step cfg s (.vmClose b)
        { s with buf := (s.buf.vmClose s.quarantined b).1 }
        (s.buf.vmClose s.quarantined b).2
  | setPoolMax {maxMb} :
      Step cfg s (.setPoolMax maxMb)
        { s with buf := (s.buf.setPoolMax maxMb).1 } (s.buf.setPoolMax maxMb).2
  /-- An operation returns without an effect. -/
  | returns {a r} (hfw : s.fw.quiet = true) :
      Step cfg s a { s with fw := .idle } [.ret r]
  /-- A command fails, and the device is quarantined. -/
  | fails {a r} (hfw : ∀ f u, s.fw ≠ .close f u) :
      Step cfg s a { s with fw := .idle, quarantined := true } [.ret r]
  | progLoad {f args genericCount} (hfw : s.fw = .idle)
      (hf : s.isOpen f = true) (hargs : loadArgsOk args genericCount = true) :
      Step cfg s (.progLoad f args genericCount)
        { s with fw := .hash f args args [] } []
  | loadHash {f args a todo read bytes}
      (hfw : s.fw = .hash f args (a :: todo) read)
      (hlen : bytes.length = a.size.toNat) :
      Step cfg s (.loadHash bytes)
        { s with fw := .hash f args todo (read ++ [a.read bytes hlen]) } []
  /-- The digest is loaded already. -/
  | loadShare {f args read i p prg} (hfw : s.fw = .hash f args [] read)
      (hfind : progtabFind s.prg.tab (cfg.digest read) = some i)
      (hp : s.prg.Live i p) (href : s.prg.ref f i p = some prg) :
      Step cfg s .loadDecide { s with prg := prg, fw := .idle }
        [.ret (.ok p.progId)]
  | loadNew {f args read} (hfw : s.fw = .hash f args [] read)
      (hfind : progtabFind s.prg.tab (cfg.digest read) = none)
      (hroom : progtabHasRoom s.prg.tab = true) (hcmd : cfg.cmdBuf = true) :
      Step cfg s .loadDecide
        { s with
          fw := .mark f args (List.replicate progSecs none) (cfg.digest read)
            read } []
  | loadMark {f a todo sec digest read b}
      (hfw : s.fw = .mark f (a :: todo) sec digest read)
      (hb : b ∈ s.buf.bos f) :
      Step cfg s .loadMark
        { s with
          buf := s.buf.markProgram b
          fw := .mark f todo (sec.set (a.id.toNat - 1) (some b)) digest
            read } []
  | loadSend {f sec digest read} (hfw : s.fw = .mark f [] sec digest read) :
      Step cfg s .loadSend { s with fw := .load f sec digest read } []
  /-- The firmware loaded the program, and it is in the table.  `prg'` is
  `prg` when the file could not take its reference. -/
  | loadAdd {f sec digest read progId prg i p prg' r}
      (hfw : s.fw = .load f sec digest read)
      (hadd : s.prg.add digest progId s.serial sec = some (prg, i, p))
      (href : prg.ref f i p = some prg' ∨ prg.ref f i p = none ∧ prg' = prg) :
      Step cfg s (.loadDone (.ok progId))
        { s with
          prg := prg'
          fw := .idle
          serial := s.serial + 1
          hist := s.hist ++ [ProgEv.loaded s.serial]
          loads := Function.update s.loads s.serial read } [.ret r]
  | lookup {f digest i p prg} (hfw : s.fw = .idle) (hf : s.isOpen f = true)
      (hp : s.prg.Live i p) (href : s.prg.ref f i p = some prg) :
      Step cfg s (.lookup f digest) { s with prg := prg, fw := .idle }
        [.ret (.ok p.progId)]
  | procCreate {f progId r i p procId} (hfw : s.fw = .idle)
      (hf : s.isOpen f = true) (hp : s.prg.Live i p) :
      Step cfg s (.procCreate f progId r)
        { s with prg := s.prg.setProc i p procId, fw := .idle }
        [.ret (.ok procId)]
  | exec {f arg} (hfw : s.fw = .idle) (hf : s.isOpen f = true)
      (hq : s.quarantined = false) :
      Step cfg s (.exec f arg) { s with fw := .exec f arg.ios [] } []
  | execMark {f a todo marked b} (hfw : s.fw = .exec f (a :: todo) marked)
      (hb : b ∈ s.buf.bos f) :
      Step cfg s .execMark
        { s with
          buf := s.buf.markIo b
          fw := .exec f todo (marked ++ [b]) } []
  | execSend {f marked} (hfw : s.fw = .exec f [] marked) :
      Step cfg s .execSend
        { s with
          fw := .call f marked
          inflight := marked
          sentIo := s.sentIo ++ marked } []
  | fwFinish : Step cfg s .fwFinish { s with inflight := [] } []
  | execOk {f marked r} (hfw : s.fw = .call f marked)
      (hdone : s.inflight = []) :
      Step cfg s (.execDone r) { s with fw := .idle } [.ret (.ok 0)]
  | close {f unloadOnClose} (hfw : s.fw = .idle) (hf : s.isOpen f = true) :
      Step cfg s (.close f unloadOnClose)
        { s with
          fw := .close f unloadOnClose
          closing := f :: s.closing } []
  | closePut {f unloadOnClose id rest reply}
      (hfw : s.fw = .close f unloadOnClose)
      (hids : (s.prg.progs f).ids = id :: rest.ids)
      {r : Progs δ BoId × CloseCtx}
      (hr : r = s.prg.put (progtabOps cfg reply) unloadOnClose s.closeCtx f id rest) :
      Step cfg s (.closePut reply)
        { s with
          prg := r.1
          buf := r.2.buf
          quarantined := r.2.quarantined
          hist := r.2.hist } r.2.evs
  | closeEnd {f unloadOnClose} (hfw : s.fw = .close f unloadOnClose)
      (hids : (s.prg.progs f).ids = []) :
      Step cfg s .closeEnd { s with prg := s.prg.closeFile f, fw := .idle } []
  | closeBos {f} (hf : f ∈ s.closing) (hf' : f ∉ s.prg.files) :
      Step cfg s (.closeBos f)
        { s with buf := (s.buf.closeBos s.quarantined f).1 }
        (s.buf.closeBos s.quarantined f).2

variable {a : Act δ}

/-- An answer without an effect. -/
theorem Step.of_done (h : s.done r = some (s', evs)) (hfw : s.fw.quiet = true) :
    Step cfg s a s' evs := by
  obtain ⟨rfl, rfl⟩ := h
  exact .returns hfw

variable {handle : UInt32}

theorem Step.of_boFree {f : FileId}
    (h : s.withBuf (s.buf.boFree s.quarantined f handle) = some (s', evs)) :
    Step cfg s (.boFree f handle) s' evs := by
  rw [Bufs.boFree] at h
  split at h
  · obtain ⟨rfl, rfl⟩ := h
    exact .noBuf
  · rename_i b hb
    obtain ⟨rfl, rfl⟩ := h
    exact .boFree hb

theorem Step.of_mmap {f : FileId} (h : s.withBuf (s.buf.mmap f handle) = some (s', evs)) :
    Step cfg s (.mmap f handle) s' evs := by
  rw [Bufs.mmap] at h
  split at h
  · obtain ⟨rfl, rfl⟩ := h
    exact .noBuf
  · rename_i b hb
    obtain ⟨rfl, rfl⟩ := h
    exact .mmap (List.mem_of_find?_eq_some hb)

theorem Step.of_progLoad {f : FileId} {args : List SecArg} {genericCount : Nat}
    (hfw : s.fw = .idle) (hf : s.isOpen f = true)
    (h : s.progLoad f args genericCount = some (s', evs)) :
    Step cfg s (.progLoad f args genericCount) s' evs := by
  have hquiet : s.fw.quiet = true := by rw [hfw]; rfl
  rw [Drv.progLoad] at h
  split_ifs at h with hq hargs
  · exact .of_done h hquiet
  · exact .of_done h hquiet
  · obtain ⟨rfl, rfl⟩ := h
    exact .progLoad hfw hf (by simpa using hargs)

theorem Step.of_loadHash {bytes : List UInt8} (h : s.loadHash bytes = some (s', evs)) :
    Step cfg s (.loadHash bytes) s' evs := by
  rw [Drv.loadHash] at h
  split at h
  · rename_i f args a todo read hfw
    split at h
    · exact .of_done h (by rw [hfw]; rfl)
    · split_ifs at h with hlen
      obtain ⟨rfl, rfl⟩ := h
      exact .loadHash hfw hlen
  · cases h

theorem Step.of_loadDecide (h : s.loadDecide cfg = some (s', evs)) :
    Step cfg s .loadDecide s' evs := by
  rw [Drv.loadDecide] at h
  split at h
  · rename_i f args read hfw
    have hquiet : s.fw.quiet = true := by rw [hfw]; rfl
    dsimp only at h
    split at h
    · rename_i i hfind
      obtain ⟨p, hp, hlive, -⟩ := progtabFind_some hfind
      rw [hp] at h
      dsimp only at h
      split at h
      · exact .of_done h hquiet
      · rename_i prg href
        obtain ⟨rfl, rfl⟩ := h
        exact .loadShare hfw hfind ⟨hp, hlive⟩ href
    · rename_i hfind
      split_ifs at h with hroom hcmd
      · exact .of_done h hquiet
      · exact .of_done h hquiet
      · obtain ⟨rfl, rfl⟩ := h
        exact .loadNew hfw hfind (by simpa using hroom) (by simpa using hcmd)
  · cases h

theorem Step.of_loadMark (h : s.loadMark = some (s', evs)) : Step cfg s .loadMark s' evs := by
  rw [Drv.loadMark] at h
  split at h
  · rename_i f a todo sec digest read hfw
    split at h
    · exact .of_done h (by rw [hfw]; rfl)
    · rename_i b hb
      obtain ⟨rfl, rfl⟩ := h
      exact .loadMark hfw (Bufs.secBo_mem hb)
  · cases h

theorem Step.of_loadDone (h : s.loadDone r = some (s', evs)) : Step cfg s (.loadDone r) s' evs := by
  rw [Drv.loadDone] at h
  split at h
  · rename_i f sec digest read hfw
    have hquiet : s.fw.quiet = true := by rw [hfw]; rfl
    split at h
    · obtain ⟨rfl, rfl⟩ := h
      exact .fails (by simp [hfw])
    · rename_i progId
      split_ifs at h with hid
      · exact .of_done h hquiet
      · split at h
        · exact .of_done h hquiet
        · rename_i prg i p hadd
          dsimp only at h
          split at h
          · rename_i hnone
            obtain ⟨rfl, rfl⟩ := h
            exact .loadAdd hfw hadd (.inr ⟨hnone, rfl⟩)
          · rename_i prg' href
            obtain ⟨rfl, rfl⟩ := h
            exact .loadAdd hfw hadd (.inl href)
  · cases h

theorem Step.of_lookup {f : FileId} {digest : δ} (hfw : s.fw = .idle)
    (hf : s.isOpen f = true) (h : s.lookup f digest = some (s', evs)) :
    Step cfg s (.lookup f digest) s' evs := by
  have hquiet : s.fw.quiet = true := by rw [hfw]; rfl
  rw [Drv.lookup] at h
  split_ifs at h with hq
  · exact .of_done h hquiet
  · split at h
    · exact .of_done h hquiet
    · rename_i i hfind
      obtain ⟨p, hp, hlive, -⟩ := progtabFind_some hfind
      rw [hp] at h
      dsimp only at h
      split at h
      · exact .of_done h hquiet
      · rename_i prg href
        obtain ⟨rfl, rfl⟩ := h
        exact .lookup hfw hf ⟨hp, hlive⟩ href

theorem Step.of_procCreate {f : FileId} {progId : UInt32} (hfw : s.fw = .idle)
    (hf : s.isOpen f = true) (h : s.procCreate cfg f progId r = some (s', evs)) :
    Step cfg s (.procCreate f progId r) s' evs := by
  have hquiet : s.fw.quiet = true := by rw [hfw]; rfl
  rw [Drv.procCreate] at h
  split at h
  · exact .of_done h hquiet
  · split at h
    · exact .of_done h hquiet
    · split at h
      · exact .of_done h hquiet
      · rename_i i hid
        obtain ⟨p, hp, hlive, -⟩ := progtabById_some hid
        rw [hp] at h
        dsimp only at h
        split at h
        · exact .of_done h hquiet
        · split at h
          · exact .of_done h hquiet
          · split at h
            · obtain ⟨rfl, rfl⟩ := h
              exact .fails (by simp [hfw])
            · split_ifs at h
              · exact .of_done h hquiet
              · obtain ⟨rfl, rfl⟩ := h
                exact .procCreate hfw hf ⟨hp, hlive⟩

theorem Step.of_exec {f : FileId} {arg : ExecArg} (hfw : s.fw = .idle)
    (hf : s.isOpen f = true) (h : s.exec cfg f arg = some (s', evs)) :
    Step cfg s (.exec f arg) s' evs := by
  have hquiet : s.fw.quiet = true := by rw [hfw]; rfl
  rw [Drv.exec] at h
  split at h
  · exact .of_done h hquiet
  · split_ifs at h with hq hcmd hhas
    · exact .of_done h hquiet
    · exact .of_done h hquiet
    · exact .of_done h hquiet
    · obtain ⟨rfl, rfl⟩ := h
      exact .exec hfw hf (by simpa using hq)

theorem Step.of_execMark (h : s.execMark = some (s', evs)) : Step cfg s .execMark s' evs := by
  rw [Drv.execMark] at h
  split at h
  · rename_i f a todo marked hfw
    have hquiet : s.fw.quiet = true := by rw [hfw]; rfl
    split at h
    · exact .of_done h hquiet
    · rename_i b hb
      split_ifs at h
      · exact .of_done h hquiet
      · obtain ⟨rfl, rfl⟩ := h
        exact .execMark hfw (List.mem_of_find?_eq_some hb)
  · cases h

theorem Step.of_execSend (h : s.execSend = some (s', evs)) : Step cfg s .execSend s' evs := by
  rw [Drv.execSend] at h
  split at h
  · rename_i f marked hfw
    obtain ⟨rfl, rfl⟩ := h
    exact .execSend hfw
  · cases h

theorem Step.of_execDone {r : Except Errno Unit} (h : s.execDone r = some (s', evs)) :
    Step cfg s (.execDone r) s' evs := by
  simp only [Drv.execDone] at h
  split at h
  · rename_i f marked hfw
    split at h
    · split_ifs at h with hdone
      obtain ⟨rfl, rfl⟩ := h
      exact .execOk hfw hdone
    · obtain ⟨rfl, rfl⟩ := h
      exact .fails (by simp [hfw])
  · cases h

theorem Step.of_closePut (h : s.closePut cfg reply = some (s', evs)) :
    Step cfg s (.closePut reply) s' evs := by
  rw [Drv.closePut] at h
  split at h
  · rename_i f unloadOnClose hfw
    split at h
    · cases h
    · rename_i id rest hids
      obtain ⟨rfl, rfl⟩ := h
      exact .closePut hfw hids rfl
  · cases h

theorem Step.of_closeEnd (h : s.closeEnd = some (s', evs)) : Step cfg s .closeEnd s' evs := by
  rw [Drv.closeEnd] at h
  split at h
  · rename_i f unloadOnClose hfw
    split_ifs at h with hids
    obtain ⟨rfl, rfl⟩ := h
    exact .closeEnd hfw hids
  · cases h

/-- Every step has one of the outcomes. -/
theorem step_cases (h : s.step cfg a = some (s', evs)) : Step cfg s a s' evs := by
  cases a with
  | openFile f =>
    simp only [step] at h
    split_ifs at h with hf
    obtain ⟨rfl, rfl⟩ := h
    exact .openFile (fun hm => hf (.inl hm)) (fun hm => hf (.inr hm))
  | boInit f size =>
    simp only [step] at h
    split_ifs at h with hf
    obtain ⟨rfl, rfl⟩ := h
    exact .boInit
  | initStep i res =>
    simp only [step] at h
    split at h
    · cases h
    · rename_i r hr
      obtain ⟨rfl, rfl⟩ := h
      exact .initStep hr
  | boFree f handle =>
    simp only [step] at h
    split_ifs at h
    exact .of_boFree h
  | mmap f handle =>
    simp only [step] at h
    split_ifs at h
    exact .of_mmap h
  | vmOpen b =>
    simp only [step] at h
    split_ifs at h with hb
    obtain ⟨rfl, rfl⟩ := h
    exact .vmOpen hb
  | vmClose b =>
    simp only [step] at h
    split_ifs at h with hb
    obtain ⟨rfl, rfl⟩ := h
    exact .vmClose hb
  | setPoolMax maxMb =>
    obtain ⟨rfl, rfl⟩ := h
    exact .setPoolMax
  | progLoad f args genericCount =>
    simp only [step] at h
    split_ifs at h with hf
    exact .of_progLoad hf.1 hf.2 h
  | loadAbort err =>
    simp only [step] at h
    split at h
    · rename_i f args todo hfw
      exact .of_done h (by rw [hfw]; rfl)
    · cases h
  | loadHash bytes => exact .of_loadHash h
  | loadDecide => exact .of_loadDecide h
  | loadMark => exact .of_loadMark h
  | loadSend =>
    simp only [step] at h
    split at h
    · rename_i f sec digest read hfw
      obtain ⟨rfl, rfl⟩ := h
      exact .loadSend hfw
    · cases h
  | loadDone r => exact .of_loadDone h
  | lookup f digest =>
    simp only [step] at h
    split_ifs at h with hf
    exact .of_lookup hf.1 hf.2 h
  | procCreate f progId r =>
    simp only [step] at h
    split_ifs at h with hf
    exact .of_procCreate hf.1 hf.2 h
  | exec f arg =>
    simp only [step] at h
    split_ifs at h with hf
    exact .of_exec hf.1 hf.2 h
  | execMark => exact .of_execMark h
  | execSend => exact .of_execSend h
  | fwFinish =>
    obtain ⟨rfl, rfl⟩ := h
    exact .fwFinish
  | execDone r => exact .of_execDone h
  | command r =>
    simp only [step] at h
    split_ifs at h with hfw
    split at h
    · exact .of_done h (by rw [hfw.1]; rfl)
    · obtain ⟨rfl, rfl⟩ := h
      exact .fails (by simp [hfw.1])
  | close f unloadOnClose =>
    simp only [step] at h
    split_ifs at h with hf
    obtain ⟨rfl, rfl⟩ := h
    exact .close hf.1 hf.2.1
  | closePut reply => exact .of_closePut h
  | closeEnd => exact .of_closeEnd h
  | closeBos f =>
    simp only [step] at h
    split_ifs at h with hf
    obtain ⟨rfl, rfl⟩ := h
    exact .closeBos hf.1 hf.2

end Drv

end OmarchyAne.T6021
