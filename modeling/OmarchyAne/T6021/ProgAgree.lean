import OmarchyAne.T6021.DriverInv

/-!
# The table and the lists agree in every run

`Progs.Agree` says that the reference counts of the program table agree with
the lists of the files.  Every step of the driver keeps it, as long as the
firmware never answers a LOAD_PROGRAM with the id of a LIVE program: the
driver keys its lists by that id and does not check it.

The table does not change between the room check of a PROG_LOAD and the
answer of the firmware, because the firmware lock is held over both.  So the
new program finds a slot, and the file finds room for its reference.
-/

namespace OmarchyAne.T6021

open Lib

variable {δ : Type}

/-- PROG_LOAD passed its room check. -/
def FwOp.roomChecked : FwOp δ → Bool
  | mark .. | load .. => true
  | _ => false

namespace Drv

variable {s s' : Drv δ}

/-- The firmware answers a LOAD_PROGRAM with an id that no LIVE program
has. -/
def freshId (s : Drv δ) : Act δ → Bool
  | .loadDone (.ok progId) => (progtabById s.prg.tab progId).isNone
  | _ => true

theorem not_liveId {progId : UInt32} (h : s.freshId (.loadDone (.ok progId)) = true) :
    ¬ s.prg.LiveId progId := by
  rintro ⟨i, p, hp, hid⟩
  exact progtabById_none (Option.isNone_iff_eq_none.mp h) hp.1 hp.2 hid

/-- The program side of the driver. -/
structure Refs (s : Drv δ) : Prop where
  agree : s.prg.Agree
  room : s.fw.roomChecked = true → progtabHasRoom s.prg.tab = true
  /-- A file that closes keeps the lock until its references are gone. -/
  closing : ∀ f ∈ s.prg.files, f ∈ s.closing → ∃ u, s.fw = .close f u

theorem refs_start (cfg : DrvCfg δ) (poolMaxMb : Nat) : (start cfg poolMaxMb).Refs := by
  refine ⟨⟨List.nodup_nil, ?_, ?_, ?_, ?_⟩, ?_, ?_⟩ <;>
    simp [start, Progs.Live, ProgTab.empty, FwOp.roomChecked]

/-- The lists of the other files are not touched. -/
theorem ref_files {s s' : Progs δ BoId} {f : FileId} {i : Nat}
    {p : Prog δ BoId} (h : s.ref f i p = some s') : s'.files = s.files := by
  simp only [Progs.ref] at h
  split at h
  · cases h
  · cases h
    rfl

/-- An operation that leaves the set of files alone and ends. -/
theorem Refs.ends (h : s.Refs) (hagree : s'.prg.Agree)
    (hfiles : s'.prg.files = s.prg.files) (hclosing : s'.closing = s.closing)
    (hidle : s'.fw.roomChecked = false) (hfw : ∀ f u, s.fw ≠ .close f u) :
    s'.Refs where
  agree := hagree
  room hroom := absurd (hroom.symm.trans hidle) (by simp)
  closing f hf hc := by
    rw [hfiles] at hf
    rw [hclosing] at hc
    obtain ⟨u, hu⟩ := h.closing f hf hc
    exact absurd hu (hfw f u)

/-- A step that does not touch the program side. -/
theorem Refs.same (h : s.Refs) (hprg : s'.prg = s.prg) (hclosing : s'.closing = s.closing)
    (hroom : s'.fw.roomChecked = true → s.fw.roomChecked = true)
    (hfw : s'.fw = s.fw ∨ ∀ f u, s.fw ≠ .close f u) : s'.Refs where
  agree := hprg ▸ h.agree
  room hr := by
    rw [hprg]
    exact h.room (hroom hr)
  closing f hf hc := by
    rw [hprg] at hf
    rw [hclosing] at hc
    obtain ⟨u, hu⟩ := h.closing f hf hc
    rcases hfw with hsame | hno
    · exact ⟨u, hsame.trans hu⟩
    · exact absurd hu (hno f u)

variable [PageShift] [DecidableEq δ] [Inhabited δ] {cfg : DrvCfg δ}

/-- Every step with a fresh id keeps the agreement. -/
theorem Refs.step {a : Act δ} {evs : List Ev} (h : s.Refs) (hinv : Inv cfg s)
    (hok : s.freshId a = true) (hstep : Step cfg s a s' evs) : s'.Refs := by
  cases hstep with
  | @openFile f hf hf' =>
    refine ⟨h.agree.openFile hf, h.room, ?_⟩
    intro g hg hc
    rcases List.mem_cons.mp hg with rfl | hg
    · exact absurd hc hf'
    · exact h.closing g hg hc
  | boInit | initStep | boFree | noBuf | mmap | vmOpen | vmClose | setPoolMax
  | fwFinish | closeBos => exact h.same rfl rfl (fun hr => hr) (.inl rfl)
  | returns hfw =>
    refine h.same rfl rfl (fun hr => by simp [FwOp.roomChecked] at hr) (.inr ?_)
    intro f u hf
    simp [hf, FwOp.quiet] at hfw
  | fails hfw =>
    exact h.same rfl rfl (fun hr => by simp [FwOp.roomChecked] at hr) (.inr hfw)
  | progLoad hfw | loadHash hfw | exec hfw | execMark hfw | execSend hfw
  | execOk hfw =>
    exact h.same rfl rfl (fun hr => by simp [FwOp.roomChecked] at hr) (.inr (by simp [hfw]))
  | loadMark hfw | loadSend hfw =>
    exact h.same rfl rfl (fun _ => by rw [hfw]; rfl) (.inr (by simp [hfw]))
  | @loadNew f args read hfw hfind hroom hcmd =>
    refine ⟨h.agree, fun _ => hroom, ?_⟩
    intro g hg hc
    obtain ⟨u, hu⟩ := h.closing g hg hc
    exact absurd (hfw.symm.trans hu) (by simp)
  | @loadShare f args read i p prg hfw hfind hp href =>
    have hf := hinv.file f (by rw [hfw]; rfl)
    exact h.ends (h.agree.ref hf hp href) (ref_files href) rfl rfl (by simp [hfw])
  | lookup hfw hf hp href =>
    exact h.ends (h.agree.ref (isOpen_mem hf) hp href) (ref_files href) rfl rfl (by simp [hfw])
  | procCreate hfw hf hp =>
    exact h.ends (h.agree.setProc (isOpen_mem hf) hp _) rfl rfl rfl (by simp [hfw])
  | @loadAdd f sec digest read progId prg i p prg' r hfw hadd href =>
    have hf := hinv.file f (by rw [hfw]; rfl)
    obtain ⟨hagree, hlive⟩ := h.agree.add (not_liveId hok) hadd
    obtain ⟨-, -, -, hfiles, -⟩ := Progs.add_some hadd
    rw [← hfiles] at hf
    rcases href with href | ⟨-, rfl⟩
    · exact h.ends (hagree.ref hf hlive href)
        ((ref_files href).trans hfiles) rfl rfl (by simp [hfw])
    · exact h.ends hagree hfiles rfl rfl (by simp [hfw])
  | @close f u hfw hf =>
    refine ⟨h.agree, fun hr => by simp [FwOp.roomChecked] at hr, ?_⟩
    intro g hg hc
    rcases List.mem_cons.mp hc with rfl | hc
    · exact ⟨u, rfl⟩
    · obtain ⟨v, hv⟩ := h.closing g hg hc
      exact absurd (hfw.symm.trans hv) (by simp)
  | @closePut f u id rest reply hfw hids r hr =>
    have hf := hinv.file f (by rw [hfw]; rfl)
    have hfiles : r.1.files = s.prg.files := by rw [hr]; rfl
    refine ⟨?_, fun hroom => by simp [hfw, FwOp.roomChecked] at hroom, ?_⟩
    · rw [hr]
      exact h.agree.put hf hids _ _ _
    · intro g hg hc
      dsimp only at hg
      rw [hfiles] at hg
      exact h.closing g hg hc
  | @closeEnd f u hfw hids =>
    refine ⟨h.agree.closeFile hids, fun hr => by simp [FwOp.roomChecked] at hr, ?_⟩
    intro g hg hc
    -- only the file that closed was closing
    obtain ⟨hne, hg⟩ := (h.agree.files_nodup.mem_erase_iff).mp hg
    obtain ⟨v, hv⟩ := h.closing g hg hc
    rw [hfw, FwOp.close.injEq] at hv
    exact absurd hv.1.symm hne

theorem refs_run {poolMaxMb : Nat} {as : List (Act δ)}
    (hrun : (driver cfg).run (start cfg poolMaxMb) as = some s)
    (hmeet : (driver cfg).StepsMeet freshId (start cfg poolMaxMb) as) :
    Inv cfg s ∧ s.Refs := by
  refine System.run_invariant (S := (driver cfg).restrict freshId)
    (I := fun s => Inv cfg s ∧ s.Refs) ?_
    ⟨inv_start cfg poolMaxMb, refs_start cfg poolMaxMb⟩
    (System.run_restrict_iff.mpr ⟨hrun, hmeet⟩)
  rintro s a s' ⟨hinv, hrefs⟩ hstep
  obtain ⟨hok, hstep⟩ := System.restrict_step hstep
  obtain ⟨evs, hstep⟩ := step_of_driver hstep
  exact ⟨(step_cases hstep).inv hinv, hrefs.step hinv hok (step_cases hstep)⟩

/-- A program that the firmware loaded finds a slot, and its file finds room
for the reference. -/
theorem Refs.loadDone_ok (h : s.Refs) (hinv : Inv cfg s) {f : FileId}
    {sec : List (Option BoId)} {digest : δ} {read : List Section}
    (hfw : s.fw = .load f sec digest read) {progId : UInt32}
    (hid : progId ≠ 0xffffffff) (hfresh : ¬ s.prg.LiveId progId) :
    ∃ s', s.step cfg (.loadDone (.ok progId)) = some (s', [.ret (.ok progId)]) := by
  have hroom := h.room (by rw [hfw]; rfl)
  have hadd : (s.prg.add digest progId s.serial sec).isSome := by
    obtain ⟨r, hr⟩ := Option.isSome_iff_exists.mp (progtabAdd_isSome hroom digest progId s.serial)
    simp [Progs.add, hr]
  obtain ⟨⟨prg, i, p⟩, hadd⟩ := Option.isSome_iff_exists.mp hadd
  obtain ⟨hagree, hlive⟩ := h.agree.add hfresh hadd
  obtain ⟨-, -, -, hfiles, -⟩ := Progs.add_some hadd
  have hf : f ∈ prg.files := hfiles ▸ hinv.file f (by rw [hfw]; rfl)
  obtain ⟨prg', href⟩ := Option.isSome_iff_exists.mp (hagree.ref_isSome hf hlive)
  simp [Drv.step, Drv.loadDone, hfw, hid, hadd, href, Drv.done]

/-- The reference counts of the LIVE programs agree with the lists of the open
files in every run in which the firmware hands out ids that no LIVE program
has.  So neither a reference nor, after the room check, a new slot can
fail. -/
theorem progRefs_agree {cfg : DrvCfg δ} {poolMaxMb : Nat} {as : List (Act δ)}
    {s : Drv δ} (hrun : (driver cfg).run (start cfg poolMaxMb) as = some s)
    (hmeet : (driver cfg).StepsMeet freshId (start cfg poolMaxMb) as) :
    (∀ i p, s.prg.Live i p → p.users = s.prg.holders p.progId) ∧
      (∀ f ∈ s.prg.files, ∀ id ∈ (s.prg.progs f).ids, s.prg.LiveId id) ∧
      (∀ f ∈ s.prg.files, (s.prg.progs f).ids.Nodup) ∧
      s.prg.files.Nodup ∧
      (∀ f ∈ s.prg.files, s.isOpen f = true ∨ ∃ u, s.fw = .close f u) ∧
      (∀ f ∈ s.prg.files, ∀ i p, s.prg.Live i p → (s.prg.ref f i p).isSome = true) ∧
      ∀ f sec digest read, s.fw = .load f sec digest read →
        ∀ progId, progId ≠ 0xffffffff → ¬ s.prg.LiveId progId →
          ∃ s', s.step cfg (.loadDone (.ok progId)) = some (s', [.ret (.ok progId)]) := by
  obtain ⟨hinv, hrefs⟩ := refs_run hrun hmeet
  refine ⟨hrefs.agree.users, hrefs.agree.named, hrefs.agree.ids_nodup,
    hrefs.agree.files_nodup, ?_, ?_, ?_⟩
  · intro f hf
    by_cases hc : f ∈ s.closing
    · exact .inr (hrefs.closing f hf hc)
    · exact .inl (by simp [isOpen, hf, hc])
  · intro f hf i p hp
    exact hrefs.agree.ref_isSome hf hp
  · intro f sec digest read hfw progId hid hfresh
    exact hrefs.loadDone_ok hinv hfw hid hfresh

end Drv

section Runs

local instance agreePages : PageShift := page16K

/-- Two files load the same section; the second one shares the program of the
first. -/
def loadShared : List (Act (List Section)) :=
  [.openFile 0, .openFile 1] ++ Act.allocBo 0 0 0x4000 0x4000 ++
    Act.allocBo 1 1 0x4000 0x8000 ++ Act.loadOne 0 1 [1, 2, 3, 4] 7 ++
    Act.hashOne 1 2 [1, 2, 3, 4]

theorem progRefs_agree_shared :
    ∃ s, (driver DrvCfg.ideal).run (Drv.start DrvCfg.ideal 64) loadShared = some s ∧
      s.prg.tab.slots.map (fun p => (p.progId, p.state, p.users)) =
        [(7, .live, 2)] ∧ s.prg.holders 7 = 2 := by
  have hmap : ((((driver DrvCfg.ideal).restrict Drv.freshId).run
      (Drv.start DrvCfg.ideal 64) loadShared).map (fun s =>
        s.prg.tab.slots.map (fun p => (p.progId, p.state, p.users)))) =
      some [(7, .live, 2)] := by decide
  obtain ⟨s, hs, hslots⟩ := Option.map_eq_some_iff.mp hmap
  obtain ⟨hrun, hmeet⟩ := System.run_restrict_iff.mp hs
  refine ⟨s, hrun, hslots, ?_⟩
  obtain ⟨p, hp, hpe⟩ := List.map_eq_singleton_iff.mp hslots
  have hlive : s.prg.Live 0 p := ⟨by simp [hp], congrArg (·.2.1) hpe⟩
  have husers := (Drv.progRefs_agree hrun hmeet).1 0 p hlive
  simp only [Prod.mk.injEq] at hpe
  rw [hpe.1, hpe.2.2] at husers
  exact husers.symm

end Runs

end OmarchyAne.T6021
