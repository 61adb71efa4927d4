import OmarchyAne.T6021.ProgLife

/-!
# The lifetime of buffer memory

Two results about `dma_free_coherent` and the byte counter, over any
interleaving of the ioctls, the mappings, the closes and the changes of the
pool budget.

A buffer is freed only when no program has it as a section and no call ever
passed it (`dmaFree_unshared`).  A release of the sections and the `memset`
of the slot are one section under the firmware lock, so the program whose
unload the firmware just confirmed does not count.

The byte counter is the sum of the page-aligned sizes of the allocated
buffers and of the charges of the BO_INIT calls in progress
(`boTotal_exact`).
-/

namespace OmarchyAne.T6021

open Lib

variable {δ : Type}

namespace Drv

variable {cfg : DrvCfg δ} {s : Drv δ} {b : BoId}

/-- A slot that loses a section belongs to a program that the firmware
unloaded in this step. -/
theorem TabStep.unloaded_of_sec {s' : Drv δ} (hstep : TabStep cfg s s')
    {i : Nat} {p : Prog δ BoId} (hp : s.Used i p) (hb : some b ∈ p.sec)
    (hgone : ∀ (j : Nat) (q : Prog δ BoId), s'.prg.tab.slots[j]? = some q → some b ∉ q.sec) :
    s'.hist = s.hist ++ [.unloadOk p.serial, .released p.serial] := by
  have hsame : ∀ {j q}, SlotSet s s' j q → j ≠ i → False := by
    intro j q hset hj
    refine hgone i p ?_ hb
    rw [hset i, if_neg (Ne.symm hj)]
    exact hp.1
  have hkept : ∀ {j r q}, s.prg.Live j r → SlotSet s s' j q →
      q.sec = r.sec → False := by
    intro j r q hr hset hsec
    by_cases hj : j = i
    · subst hj
      obtain rfl : p = r := Option.some.inj (hp.1.symm.trans hr.1)
      refine hgone j q ?_ (hsec ▸ hb)
      rw [hset j, if_pos rfl]
    · exact hsame hset hj
  cases hstep with
  | same htab => exact absurd hb (hgone i p (by rw [htab]; exact hp.1))
  | update hr hset _ hsec => exact (hkept hr hset hsec).elim
  | load hfw hfree hset =>
    refine (hsame hset ?_).elim
    rintro rfl
    exact hp.2 (hfree p hp.1)
  | keep hr hset => exact (hkept hr hset rfl).elim
  | @drop j r q hr husers hset hfree hhist =>
    by_cases hj : j = i
    · subst hj
      obtain rfl : p = r := Option.some.inj (hp.1.symm.trans hr.1)
      exact hhist
    · exact (hsame hset hj).elim

variable [PageShift]

/-- What is known of a buffer whose memory is gone. -/
theorem Inv.freed (h : Inv cfg s) (hb : s.buf.place b = .freed) :
    (∀ (i : Nat) (p : Prog δ BoId), s.prg.tab.slots[i]? = some p →
      some b ∉ p.sec) ∧ some b ∉ s.fw.sec ∧ b ∉ s.sentIo := by
  have hat := h.owned.each b
  have huses : s.uses b = 0 := (hat.unused (by rw [hb]; rfl)).2
  rw [uses] at huses
  refine ⟨?_, ?_, ?_⟩
  · intro i p hp hmem
    have := secUses_pos hp hmem
    omega
  · intro hmem
    have := List.count_pos_iff.mpr hmem
    omega
  · intro hsent
    have hio := hat.io_ref (h.io b (Or.inr hsent)).2
    rw [hat.freed_ref hb] at hio
    cases hio

variable [DecidableEq δ] [Inhabited δ]

/-- `dma_free_coherent` is applied only to a buffer that is in no LIVE and no
HELD program's sections and that was never an io buffer of a call.  A charged
pool entry is never a firmware buffer. -/
theorem dmaFree_unshared {cfg : DrvCfg δ} {s s' : Drv δ} {a : Act δ}
    {evs : List Ev} (h : (driver cfg).Reachable s)
    (hstep : s.step cfg a = some (s', evs)) :
    (∀ b, .freed b ∈ evs → (∀ (i : Nat) (p : Prog δ BoId), s'.prg.tab.slots[i]? = some p →
        some b ∉ p.sec) ∧
      (∀ i p, s.Used i p → some b ∈ p.sec →
        s'.hist = s.hist ++ [.unloadOk p.serial, .released p.serial]) ∧
      some b ∉ s'.fw.sec ∧ b ∉ s'.sentIo) ∧
    ∀ e ∈ s'.buf.pool.list, e.pooledSec = true → (s'.buf.bo e.bo).fwRef = false := by
  have hcases := step_cases hstep
  have hinv := inv_reachable h
  have hinv' := hcases.inv hinv
  refine ⟨fun b hb => ?_, fun e he hsec => ?_⟩
  · obtain ⟨hslots, hload, hsent⟩ :=
      hinv'.freed ((hcases.shown hinv).freed_ev b hb)
    exact ⟨hslots, fun i p hp hmem => hcases.tab.unloaded_of_sec hp hmem hslots, hload, hsent⟩
  · exact (hinv'.owned.each e.bo).uncharged e he rfl hsec

/-- The byte counter is exact, it is never negative, and the allocated memory
is within the cap.  Between the BO_INIT calls the counter is the allocated
memory. -/
theorem boTotal_exact {cfg : DrvCfg δ} {s : Drv δ} (h : (driver cfg).Reachable s) :
    (∀ b, (s.buf.bo b).cpu = (s.buf.place b).allocated) ∧
      s.buf.total = s.buf.allocBytes + s.buf.pendingBytes ∧
      0 ≤ s.buf.total ∧
      s.buf.allocBytes + s.buf.admittedBytes ≤ cfg.buf.cap ∧
      (s.buf.pendingBytes = 0 → s.buf.total = s.buf.allocBytes ∧ s.buf.total ≤ cfg.buf.cap) := by
  have hinv := inv_reachable h
  obtain ⟨htotal, hfits⟩ := hinv.account
  have halloc : 0 ≤ s.buf.allocBytes := bytesBelow_nonneg _ _
  have hadm := s.buf.admittedBytes_nonneg
  have hpend := s.buf.admittedBytes_le_pendingBytes
  refine ⟨fun b => (hinv.owned.each b).cpu, htotal, by omega, hfits, ?_⟩
  intro hzero
  exact ⟨by omega, by omega⟩

end Drv

section Runs

local instance lifetimePages : PageShift := page16K

/-- A buffer is allocated and parked. -/
def allocAndPark : List (Act (List Section)) :=
  [.openFile 0] ++ Act.allocBo 0 0 0x4000 0x4000 ++ [.boFree 0 1]

/-- A program is loaded from one of two buffers, and both handles are given
up. -/
def loadAndPark : List (Act (List Section)) :=
  [.openFile 0] ++ Act.allocBo 0 0 0x4000 0x4000 ++ Act.allocBo 1 0 0x4000 0x8000 ++
    Act.loadOne 0 1 [1, 2, 3, 4] 7 ++ [.boFree 0 1, .boFree 0 2]

/-- The drain of the pool frees the parked buffer, and the program keeps the
other one. -/
theorem dmaFree_unshared_drain : ∃ s s' evs p, (driver DrvCfg.ideal).Reachable s ∧
      s.step DrvCfg.ideal (.setPoolMax 0) = some (s', evs) ∧ s'.prg.tab.slots = [p] ∧
      some 0 ∈ p.sec ∧ .freed 1 ∈ evs ∧ some 1 ∉ p.sec ∧ some 1 ∉ s'.fw.sec ∧ 1 ∉ s'.sentIo := by
  have hmap : ((driver DrvCfg.ideal).run (Drv.start DrvCfg.ideal 64)
      loadAndPark).bind (fun s => (s.step DrvCfg.ideal (.setPoolMax 0)).map
        fun r => (r.2, r.1.prg.tab.slots.map fun p => decide (some 0 ∈ p.sec))) =
      some ([Ev.freed 1], [true]) := by
    decide
  obtain ⟨s, hrun, hmap⟩ := Option.bind_eq_some_iff.mp hmap
  obtain ⟨⟨s', evs⟩, hstep, heq⟩ := Option.map_eq_some_iff.mp hmap
  obtain ⟨rfl, hslots⟩ := Prod.mk.inj heq
  obtain ⟨p, hp, hsec⟩ := List.map_eq_singleton_iff.mp hslots
  have hreach : (driver DrvCfg.ideal).Reachable s := ⟨_, _, ⟨64, rfl⟩, hrun⟩
  have hfreed : Ev.freed 1 ∈ [Ev.freed 1] := List.mem_singleton_self _
  obtain ⟨hnone, -, hload, hsent⟩ := (Drv.dmaFree_unshared hreach hstep).1 1 hfreed
  exact ⟨s, s', _, p, hreach, hstep, hp, of_decide_eq_true hsec, hfreed,
    hnone 0 p (by rw [hp]; rfl), hload, hsent⟩

/-- The parked buffer is still counted. -/
theorem boTotal_exact_parked : ∃ s, (driver DrvCfg.ideal).Reachable s ∧ s.buf.place 0 = .parked ∧
      s.buf.total = 0x4000 ∧ s.buf.total = s.buf.allocBytes := by
  have hmap : ((driver DrvCfg.ideal).run (Drv.start DrvCfg.ideal 64)
      allocAndPark).map (fun s => (s.buf.place 0, s.buf.total,
        s.buf.pendingBytes)) = some (.parked, 0x4000, 0) := by decide
  obtain ⟨s, hrun, heq⟩ := Option.map_eq_some_iff.mp hmap
  simp only [Prod.mk.injEq] at heq
  obtain ⟨hplace, htotal, hpend⟩ := heq
  have hreach : (driver DrvCfg.ideal).Reachable s := ⟨_, _, ⟨64, rfl⟩, hrun⟩
  obtain ⟨-, -, -, -, hquiet⟩ := Drv.boTotal_exact hreach
  exact ⟨s, hreach, hplace, htotal, (hquiet hpend).1⟩

end Runs

end OmarchyAne.T6021
