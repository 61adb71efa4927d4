import OmarchyAne.T6021.ProgAgree

/-!
# The life of a program

A slot of the table is reused, so a program is told apart by the number of
its load.  `Drv.life n` is what happened to the program of load `n`, and the
state of its slot says which of three lives it had so far
(`ProgState.life`): it is loaded; or its unload failed and it stays HELD; or
the firmware confirmed the unload and its sections were released once.

`TabStep` says what a step does to the table and to the history, whatever the
step is.

The firmware may answer a LOAD_PROGRAM with the id of a LIVE program.  Then
two programs share an id, a close may drop the reference of the wrong one,
and a program is unloaded under a file that has it open
(`unload_underFile`).
-/

namespace OmarchyAne.T6021

open Lib

variable {δ : Type}

/-- The load that an event is about. -/
def ProgEv.serial : ProgEv → Nat
  | loaded n | unloadOk n | unloadFailed n | released n => n

/-- The life of the program of load `n`, by the state of its slot.  The slot
of a program that is gone is free. -/
def ProgState.life : ProgState → Nat → List ProgEv
  | live, n => [.loaded n]
  | held, n => [.loaded n, .unloadFailed n]
  | free, n => [.loaded n, .unloadOk n, .released n]

namespace Drv

variable {s : Drv δ} {i : Nat} {p : Prog δ BoId} {f : FileId} {s' : Drv δ} {q : Prog δ BoId}
  {es : List ProgEv} {cfg : DrvCfg δ} {n : Nat}

/-- What happened to the program of load `n`. -/
def life (s : Drv δ) (n : Nat) : List ProgEv :=
  s.hist.filter (fun e => e.serial == n)

/-- Slot `i` holds the LIVE or HELD program `p`. -/
def Used (s : Drv δ) (i : Nat) (p : Prog δ BoId) : Prop :=
  s.prg.tab.slots[i]? = some p ∧ p.state ≠ .free

theorem Used.of_live (h : s.prg.Live i p) : s.Used i p := ⟨h.1, by rw [h.2]; simp⟩

/-! ## What a step does to the table -/

/-- Slot `i` is `p` now and the others are as before. -/
def SlotSet (s s' : Drv δ) (i : Nat) (p : Prog δ BoId) : Prop :=
  ∀ j, s'.prg.tab.slots[j]? =
    if j = i then some p else s.prg.tab.slots[j]?

/-- The step added nothing to the history. -/
structure SameLog (s s' : Drv δ) : Prop where
  hist : s'.hist = s.hist
  serial : s'.serial = s.serial
  loads : s'.loads = s.loads

/-- What a step does to the table and to the history. -/
inductive TabStep (cfg : DrvCfg δ) (s s' : Drv δ) : Prop where
  | same (htab : s'.prg.tab = s.prg.tab) (hlog : SameLog s s')
  /-- A LIVE program gets or loses a user, or gets its process. -/
  | update {i : Nat} {p r : Prog δ BoId} (hp : s.prg.Live i p)
      (hset : SlotSet s s' i r) (hstate : r.state = .live)
      (hsec : r.sec = p.sec) (hserial : r.serial = p.serial)
      (hdigest : r.digest = p.digest) (hlog : SameLog s s')
  /-- The firmware loaded a program. -/
  | load {i : Nat} {r : Prog δ BoId} {f : FileId}
      {sec : List (Option BoId)} {digest : δ} {read : List Section}
      (hfw : s.fw = .load f sec digest read)
      (hfree : ∀ q, s.prg.tab.slots[i]? = some q → q.state = .free)
      (hset : SlotSet s s' i r) (hstate : r.state = .live)
      (hsec : r.sec = sec) (hserial : r.serial = s.serial)
      (hdigest : r.digest = digest)
      (hhist : s'.hist = s.hist ++ [ProgEv.loaded s.serial])
      (hnext : s'.serial = s.serial + 1)
      (hloads : s'.loads = Function.update s.loads s.serial read)
  /-- The last user went and the unload failed. -/
  | keep {i : Nat} {p : Prog δ BoId} (hp : s.prg.Live i p)
      (hset : SlotSet s s' i { p with users := 0, state := .held })
      (hq : s'.quarantined = true ∨ cfg.cmdBuf = false)
      (hhist : s'.hist = s.hist ++ [ProgEv.unloadFailed p.serial])
      (hserial : s'.serial = s.serial) (hloads : s'.loads = s.loads)
  /-- The last user went and the firmware confirmed the unload. -/
  | drop {i : Nat} {p q : Prog δ BoId} (hp : s.prg.Live i p)
      (husers : p.users = 1) (hset : SlotSet s s' i q)
      (hfree : q.state = .free)
      (hhist : s'.hist = s.hist ++ [ProgEv.unloadOk p.serial, ProgEv.released p.serial])
      (hserial : s'.serial = s.serial) (hloads : s'.loads = s.loads)

/-- A reference leaves everything but the users of the program. -/
theorem ref_slots {s s' : Progs δ BoId} (hp : s.tab.slots[i]? = some p)
    (h : s.ref f i p = some s') :
    ∃ n, ∀ j, s'.tab.slots[j]? = if j = i then some { p with users := n } else s.tab.slots[j]? := by
  simp only [Progs.ref, fdprogsRef] at h
  split_ifs at h
  · cases h
    refine ⟨p.users, fun j => ?_⟩
    split_ifs with hj
    · rw [hj, hp]
    · rfl
  · cases h
    exact ⟨p.users + 1, ProgTab.getElem_set hp _⟩

/-! ## The lives of the programs -/

/-- Every program had the life that its slot says. -/
structure Lives (s : Drv δ) : Prop where
  below : ∀ i p, s.Used i p → p.serial < s.serial
  once : ∀ i j p q, s.Used i p → s.Used j q → p.serial = q.serial → i = j
  fresh : ∀ n, s.serial ≤ n → s.life n = []
  used : ∀ i p, s.Used i p → s.life p.serial = p.state.life p.serial
  gone : ∀ n < s.serial, (∀ i p, s.Used i p → p.serial ≠ n) →
    s.life n = ProgState.free.life n

/-- The used slots after slot `i` was overwritten. -/
theorem SlotSet.used_iff (h : SlotSet s s' i p) {j : Nat} :
    s'.Used j q ↔ if j = i then q = p ∧ p.state ≠ .free else s.Used j q := by
  simp only [Used, h j]
  split_ifs with hj
  · constructor
    · rintro ⟨heq, hq⟩
      cases heq
      exact ⟨rfl, hq⟩
    · rintro ⟨rfl, hq⟩
      exact ⟨rfl, hq⟩
  · rfl

theorem life_append (h : s'.hist = s.hist ++ es) (n : Nat) :
    s'.life n = s.life n ++ es.filter (fun e => e.serial == n) := by
  rw [life, h, List.filter_append, life]

/-- A program with its number moves from state to state in its own slot. -/
theorem Lives.move (h : s.Lives) (hp : s.Used i p) (hset : SlotSet s s' i q)
    (hq : q.state = .free ∨ q.serial = p.serial)
    (hhist : s'.hist = s.hist ++ es) (hserial : s'.serial = s.serial)
    (hes : ∀ e ∈ es, e.serial = p.serial)
    (hlife : p.state.life p.serial ++ es = q.state.life p.serial) :
    s'.Lives := by
  have hall : es.filter (fun e => e.serial == p.serial) = es :=
    List.filter_eq_self.mpr (fun e he => by simp [hes e he])
  have hnone : ∀ n, n ≠ p.serial →
      es.filter (fun e => e.serial == n) = [] := by
    intro n hn
    refine List.filter_eq_nil_iff.mpr (fun e he => ?_)
    simpa [hes e he] using Ne.symm hn
  have hself : s'.life p.serial = q.state.life p.serial := by
    rw [life_append hhist, hall, h.used i p hp, hlife]
  have hother : ∀ n, n ≠ p.serial → s'.life n = s.life n := by
    intro n hn
    rw [life_append hhist, hnone n hn, List.append_nil]
  -- a used slot after the step has a number that was in use before it
  have hold : ∀ j r, s'.Used j r → (j = i ∧ r = q ∧ r.serial = p.serial) ∨
      (j ≠ i ∧ s.Used j r ∧ r.serial ≠ p.serial) := by
    intro j r hr
    rw [hset.used_iff] at hr
    split_ifs at hr with hj
    · obtain ⟨rfl, hused⟩ := hr
      exact .inl ⟨hj, rfl, hq.resolve_left hused⟩
    · exact .inr ⟨hj, hr, fun heq => hj (h.once j i r p hr hp heq)⟩
  refine ⟨?_, ?_, ?_, ?_, ?_⟩
  · intro j r hr
    rw [hserial]
    rcases hold j r hr with ⟨-, -, heq⟩ | ⟨-, hr, -⟩
    · rw [heq]
      exact h.below i p hp
    · exact h.below j r hr
  · intro j k r t hr ht heq
    rcases hold j r hr with ⟨rfl, -, hrp⟩ | ⟨-, hr, hrp⟩ <;>
      rcases hold k t ht with ⟨rfl, -, htp⟩ | ⟨-, ht, htp⟩
    · rfl
    · exact absurd (heq.symm.trans hrp) htp
    · exact absurd (heq.trans htp) hrp
    · exact h.once j k r t hr ht heq
  · intro n hn
    rw [hserial] at hn
    have hlt := h.below i p hp
    rw [hother n (by omega)]
    exact h.fresh n hn
  · intro j r hr
    rcases hold j r hr with ⟨-, rfl, heq⟩ | ⟨-, hr, hne⟩
    · rw [heq]
      exact hself
    · rw [hother _ hne]
      exact h.used j r hr
  · intro n hn hno
    rw [hserial] at hn
    by_cases hnp : n = p.serial
    · subst hnp
      rw [hself]
      rcases hq with hfree | hsame
      · rw [hfree]
      · by_cases hfree : q.state = .free
        · rw [hfree]
        · exact absurd hsame (hno i q (hset.used_iff.mpr (by simp [hfree])))
    · rw [hother n hnp]
      refine h.gone n hn (fun j r hr => ?_)
      by_cases hj : j = i
      · subst hj
        obtain rfl : p = r := Option.some.inj (hp.1.symm.trans hr.1)
        exact Ne.symm hnp
      · exact hno j r (hset.used_iff.mpr (by simpa [hj] using hr))

/-- A new program begins its life in a slot that was free. -/
theorem Lives.load (h : s.Lives) (hfree : ∀ q, s.prg.tab.slots[i]? = some q → q.state = .free)
    (hset : SlotSet s s' i p) (hstate : p.state = .live)
    (hserial : p.serial = s.serial)
    (hhist : s'.hist = s.hist ++ [ProgEv.loaded s.serial])
    (hnext : s'.serial = s.serial + 1) : s'.Lives := by
  have hself : s'.life s.serial = [.loaded s.serial] := by
    rw [life_append hhist, h.fresh _ le_rfl]
    simp [ProgEv.serial]
  have hother : ∀ n, n ≠ s.serial → s'.life n = s.life n := by
    intro n hn
    rw [life_append hhist]
    simp [ProgEv.serial, Ne.symm hn]
  have hold : ∀ j r, s'.Used j r → (j = i ∧ r = p) ∨ (j ≠ i ∧ s.Used j r) := by
    intro j r hr
    rw [hset.used_iff] at hr
    split_ifs at hr with hj
    · exact .inl ⟨hj, hr.1⟩
    · exact .inr ⟨hj, hr⟩
  refine ⟨?_, ?_, ?_, ?_, ?_⟩
  · intro j r hr
    rw [hnext]
    rcases hold j r hr with ⟨-, rfl⟩ | ⟨-, hr⟩
    · omega
    · have := h.below j r hr
      omega
  · intro j k r t hr ht heq
    rcases hold j r hr with ⟨rfl, rfl⟩ | ⟨-, hr⟩ <;>
      rcases hold k t ht with ⟨rfl, rfl⟩ | ⟨-, ht⟩
    · rfl
    · have := h.below k t ht
      omega
    · have := h.below j r hr
      omega
    · exact h.once j k r t hr ht heq
  · intro n hn
    rw [hother n (by omega)]
    exact h.fresh n (by omega)
  · intro j r hr
    rcases hold j r hr with ⟨-, rfl⟩ | ⟨-, hr⟩
    · rw [hserial, hstate]
      exact hself
    · have := h.below j r hr
      rw [hother _ (by omega)]
      exact h.used j r hr
  · intro n hn hno
    have hne : n ≠ s.serial := by
      rintro rfl
      exact hno i p (hset.used_iff.mpr (by simp [hstate])) hserial
    rw [hother n hne]
    refine h.gone n (by omega) (fun j r hr => hno j r ?_)
    have hj : j ≠ i := by
      rintro rfl
      exact hr.2 (hfree r hr.1)
    exact hset.used_iff.mpr (by simpa [hj] using hr)

theorem TabStep.lives (hstep : TabStep cfg s s') (h : s.Lives) : s'.Lives := by
  cases hstep with
  | same htab hlog =>
    have hused : ∀ i p, s'.Used i p ↔ s.Used i p := by
      intro i p
      rw [Used, htab, Used]
    have hlife : ∀ n, s'.life n = s.life n := by
      intro n
      rw [life, hlog.hist, life]
    refine ⟨?_, ?_, ?_, ?_, ?_⟩ <;>
      simp only [hused, hlife, hlog.serial]
    · exact h.below
    · exact h.once
    · exact h.fresh
    · exact h.used
    · exact h.gone
  | update hp hset hstate hsec hserial hdigest hlog =>
    have hhist : s'.hist = s.hist ++ [] := by rw [hlog.hist, List.append_nil]
    refine h.move (.of_live hp) hset (.inr hserial) hhist hlog.serial (by simp) ?_
    rw [hstate, hp.2, List.append_nil]
  | load hfw hfree hset hstate hsec hserial hdigest hhist hnext hloads =>
    exact h.load hfree hset hstate hserial hhist hnext
  | keep hp hset hq hhist hserial hloads =>
    refine h.move (.of_live hp) hset (.inr rfl) hhist hserial (by simp [ProgEv.serial]) ?_
    rw [hp.2]
    rfl
  | drop hp husers hset hfree hhist hserial hloads =>
    refine h.move (.of_live hp) hset (.inl hfree) hhist hserial (by simp [ProgEv.serial]) ?_
    rw [hp.2, hfree]
    rfl

/-- A HELD slot stays as it is. -/
theorem TabStep.held (hstep : TabStep cfg s s')
    (hp : s.prg.tab.slots[i]? = some p) (hheld : p.state = .held) :
    s'.prg.tab.slots[i]? = some p := by
  have hset : ∀ {j q}, SlotSet s s' j q → (j ≠ i) →
      s'.prg.tab.slots[i]? = some p := by
    intro j q hset hj
    rw [hset i, if_neg (Ne.symm hj), hp]
  have hlive : ∀ {j q}, s.prg.Live j q → j ≠ i := by
    rintro j q hq rfl
    obtain rfl : p = q := Option.some.inj (hp.symm.trans hq.1)
    exact absurd (hheld.symm.trans hq.2) (by simp)
  cases hstep with
  | same htab => rw [htab, hp]
  | update hq hs => exact hset hs (hlive hq)
  | load hfw hfree hs =>
    refine hset hs ?_
    rintro rfl
    exact absurd (hheld.symm.trans (hfree p hp)) (by simp)
  | keep hq hs => exact hset hs (hlive hq)
  | drop hq husers hs => exact hset hs (hlive hq)

/-- An unload that failed left its program HELD. -/
theorem Lives.held_of_failed (h : s.Lives) (hn : .unloadFailed n ∈ s.hist) :
    ∃ i p, s.Used i p ∧ p.state = .held ∧ p.serial = n := by
  have hmem : .unloadFailed n ∈ s.life n := by
    simpa [life, ProgEv.serial] using hn
  have hlt : n < s.serial := by
    by_contra hge
    rw [h.fresh n (Nat.not_lt.mp hge)] at hmem
    simp at hmem
  by_cases hused : ∃ i p, s.Used i p ∧ p.serial = n
  · obtain ⟨i, p, hp, rfl⟩ := hused
    rw [h.used i p hp] at hmem
    refine ⟨i, p, hp, ?_, rfl⟩
    cases hstate : p.state with
    | held => rfl
    | live => simp [hstate, ProgState.life] at hmem
    | free => exact absurd hstate hp.2
  · rw [h.gone n hlt (fun i p hp hs => hused ⟨i, p, hp, hs⟩)] at hmem
    simp [ProgState.life] at hmem

/-- Every life is empty or one of the three. -/
theorem Lives.life_cases (h : s.Lives) (n : Nat) :
    s.life n = [] ∨ ∃ state : ProgState, s.life n = state.life n := by
  by_cases hlt : n < s.serial
  · right
    by_cases hused : ∃ i p, s.Used i p ∧ p.serial = n
    · obtain ⟨i, p, hp, rfl⟩ := hused
      exact ⟨p.state, h.used i p hp⟩
    · exact ⟨.free, h.gone n hlt (fun i p hp hs => hused ⟨i, p, hp, hs⟩)⟩
  · exact .inl (h.fresh n (Nat.not_lt.mp hlt))

/-- A step that releases the sections of a program drops its last user after
the firmware confirmed the unload. -/
theorem TabStep.released (hstep : TabStep cfg s s') (hn : .released n ∈ s'.hist)
    (hnew : .released n ∉ s.hist) :
    ∃ i p q, s.prg.Live i p ∧ p.serial = n ∧ p.users = 1 ∧ SlotSet s s' i q ∧ q.state = .free ∧
      s'.hist = s.hist ++ [.unloadOk n, .released n] := by
  cases hstep with
  | same htab hlog => exact absurd (hlog.hist ▸ hn) hnew
  | update hp hset _ _ _ _ hlog => exact absurd (hlog.hist ▸ hn) hnew
  | load hfw hfree hset _ _ _ _ hhist =>
    rw [hhist] at hn
    simp [hnew] at hn
  | keep hp hset hq hhist =>
    rw [hhist] at hn
    simp [hnew] at hn
  | @drop i p q hp husers hset hfree hhist =>
    rw [hhist] at hn
    have hserial : p.serial = n := by simpa [hnew, eq_comm] using hn
    subst hserial
    exact ⟨i, p, q, hp, rfl, husers, hset, hfree, hhist⟩

/-- No file references a program whose slot was freed. -/
theorem Refs.unreferenced (h : s.Refs) (h' : s'.Refs) (hp : s.prg.Live i p)
    (hset : SlotSet s s' i q) (hfree : q.state = .free) :
    ∀ f ∈ s'.prg.files, p.progId ∉ (s'.prg.progs f).ids := by
  intro f hf hid
  obtain ⟨j, r, hr, hrid⟩ := h'.agree.named f hf _ hid
  have hslot := hset j
  split_ifs at hslot with hj
  · obtain rfl : q = r := Option.some.inj (hslot.symm.trans hr.1)
    exact absurd (hfree.symm.trans hr.2) (by simp)
  · have hold : s.prg.Live j r := ⟨hslot ▸ hr.1, hr.2⟩
    exact hj (h.agree.distinct j i r p hold hp hrid)

/-! ## Every step is one of these -/

variable [PageShift] [Inhabited δ]

theorem PutCase.tab {id : UInt32} {rest : FdProgs} {r : Progs δ BoId × CloseCtx}
    (h : PutCase cfg s f id rest r) (hprg : s'.prg = r.1)
    (hq : s'.quarantined = r.2.quarantined) (hhist : s'.hist = r.2.hist)
    (hserial : s'.serial = s.serial) (hloads : s'.loads = s.loads) :
    TabStep cfg s s' := by
  cases h with
  | skip => exact .same (by rw [hprg]) ⟨hhist, hserial, hloads⟩
  | @dropped i p hp hid =>
    refine .update hp (r := { p with users := p.users - 1 }) (fun j => ?_)
      hp.2 rfl rfl rfl ⟨hhist, hserial, hloads⟩
    rw [hprg]
    exact ProgTab.getElem_set hp.1 _ j
  | kept hp hid husers hq' _ =>
    refine .keep hp (fun j => ?_) (by rw [hq]; exact hq') hhist hserial hloads
    rw [hprg]
    exact ProgTab.getElem_set hp.1 _ j
  | unloaded hp hid husers hq' =>
    refine .drop hp husers (q := Prog.cleared) (fun j => ?_) rfl hhist hserial hloads
    rw [hprg]
    exact ProgTab.getElem_set hp.1 _ j

variable [DecidableEq δ] {a : Act δ} {evs : List Ev}

theorem Step.tab (hstep : Step cfg s a s' evs) : TabStep cfg s s' := by
  cases hstep with
  | loadShare hfw hfind hp href | lookup hfw hf hp href =>
    obtain ⟨n, hslots⟩ := ref_slots hp.1 href
    exact .update hp hslots hp.2 rfl rfl rfl ⟨rfl, rfl, rfl⟩
  | @procCreate f progId r i p procId hfw hf hp =>
    exact .update hp (r := { p with procId := procId })
      (fun j => ProgTab.getElem_set hp.1 _ j) hp.2 rfl rfl rfl ⟨rfl, rfl, rfl⟩
  | @loadAdd f sec digest read progId prg i p prg' r hfw hadd href =>
    obtain ⟨hfree, hp, hslots, -, -⟩ := Progs.add_some hadd
    have hi : prg.tab.slots[i]? = some p := (live_of_add hadd).1
    obtain ⟨n, hslots'⟩ : ∃ n, ∀ j, prg'.tab.slots[j]? =
        if j = i then some { p with users := n } else s.prg.tab.slots[j]? := by
      rcases href with href | ⟨-, rfl⟩
      · obtain ⟨n, hn⟩ := ref_slots hi href
        refine ⟨n, fun j => ?_⟩
        rw [hn, hslots]
        split_ifs <;> rfl
      · exact ⟨p.users, hslots⟩
    subst hp
    exact .load hfw hfree hslots' rfl rfl rfl rfl rfl rfl rfl
  | closePut hfw hids hr =>
    exact (put_cases hr).tab rfl rfl rfl rfl rfl
  | _ => exact .same rfl ⟨rfl, rfl, rfl⟩

/-- Nothing lifts the quarantine. -/
theorem Step.quarantined_mono (hstep : Step cfg s a s' evs)
    (hq : s.quarantined = true) : s'.quarantined = true := by
  cases hstep with
  | fails => rfl
  | closePut hfw hids hr => exact (put_cases hr).quarantined hq
  | _ => exact hq

/-- A device with a HELD program is quarantined.  A program is loaded with the
command buffer only, so an unload that fails has it as well. -/
structure Guarded (cfg : DrvCfg δ) (s : Drv δ) : Prop where
  loading : s.fw.roomChecked = true → cfg.cmdBuf = true
  used : ∀ i p, s.Used i p → cfg.cmdBuf = true
  held : ∀ (i : Nat) (p : Prog δ BoId), s.prg.tab.slots[i]? = some p →
    p.state = .held → s.quarantined = true

theorem Step.loading (hstep : Step cfg s a s' evs) (h : s.fw.roomChecked = true → cfg.cmdBuf = true)
    (hroom : s'.fw.roomChecked = true) : cfg.cmdBuf = true := by
  cases hstep with
  | loadNew hfw hfind hroom hcmd => exact hcmd
  | loadMark hfw | loadSend hfw => exact h (by rw [hfw]; rfl)
  | openFile | boInit | initStep | boFree | noBuf | mmap | vmOpen | vmClose
  | setPoolMax | fwFinish | closePut | closeBos => exact h hroom
  | _ => exact absurd hroom (by simp [FwOp.roomChecked])

theorem Guarded.step (h : Guarded cfg s) (hstep : Step cfg s a s' evs) : Guarded cfg s' := by
  have hmono := hstep.quarantined_mono
  refine ⟨hstep.loading h.loading, ?_, ?_⟩
  · intro j q hq
    cases hstep.tab with
    | same htab => exact h.used j q (by rwa [Used, htab] at hq)
    | update hp => exact h.used _ _ (.of_live hp)
    | load hfw => exact h.loading (by rw [hfw]; rfl)
    | keep hp => exact h.used _ _ (.of_live hp)
    | drop hp => exact h.used _ _ (.of_live hp)
  · intro j q hq hheld
    cases hstep.tab with
    | same htab => exact hmono (h.held j q (by rwa [htab] at hq) hheld)
    | update hp hset hstate =>
      rw [hset j] at hq
      split_ifs at hq
      · cases hq
        exact absurd (hheld.symm.trans hstate) (by simp)
      · exact hmono (h.held j q hq hheld)
    | load hfw hfree hset hstate =>
      rw [hset j] at hq
      split_ifs at hq
      · cases hq
        exact absurd (hheld.symm.trans hstate) (by simp)
      · exact hmono (h.held j q hq hheld)
    | keep hp hset hq' =>
      refine hq'.resolve_right (fun hno => ?_)
      exact absurd ((h.used _ _ (.of_live hp)).symm.trans hno) (by simp)
    | drop hp husers hset hfree =>
      rw [hset j] at hq
      split_ifs at hq
      · cases hq
        exact absurd (hheld.symm.trans hfree) (by simp)
      · exact hmono (h.held j q hq hheld)

/-- The state after any run. -/
theorem lives_run {poolMaxMb : Nat} {as : List (Act δ)}
    (hrun : (driver cfg).run (start cfg poolMaxMb) as = some s) :
    Inv cfg s ∧ s.Lives ∧ Guarded cfg s := by
  refine System.run_invariant (I := fun s => Inv cfg s ∧ s.Lives ∧ Guarded cfg s) ?_
    ⟨inv_start cfg poolMaxMb, ?_, ?_⟩ hrun
  · rintro s a s' ⟨hinv, hlives, hguard⟩ hstep
    obtain ⟨evs, hstep⟩ := step_of_driver hstep
    have hcases := step_cases hstep
    exact ⟨hcases.inv hinv, hcases.tab.lives hlives, hguard.step hcases⟩
  · constructor <;> simp [start, Used, ProgTab.empty, life]
  · constructor <;> simp [start, Used, ProgTab.empty, FwOp.roomChecked]

/-- The unload discipline in every run: the three lives, what HELD means, and
when sections are released.  That no open file references the program then
needs ids that no LIVE program has. -/
theorem unload_discipline {cfg : DrvCfg δ} {poolMaxMb : Nat} {as : List (Act δ)} {s : Drv δ}
    (hrun : (driver cfg).run (start cfg poolMaxMb) as = some s) :
    (∀ n, s.life n = [] ∨ ∃ state : ProgState, s.life n = state.life n) ∧
      (∀ i p, s.Used i p → s.life p.serial = p.state.life p.serial) ∧
      (∀ n, .unloadFailed n ∈ s.hist → ∃ i p, s.Used i p ∧ p.state = .held ∧ p.serial = n) ∧
      (∀ (i : Nat) (p : Prog δ BoId), s.prg.tab.slots[i]? = some p →
        p.state = .held → s.quarantined = true ∧ (∀ digest, progtabFind s.prg.tab digest ≠ some i) ∧
          (∀ id, progtabById s.prg.tab id ≠ some i) ∧
          ∀ b, some b ∈ p.sec → (s.buf.place b).counted = true) ∧
      ∀ a s' evs, s.step cfg a = some (s', evs) →
        (∀ (i : Nat) (p : Prog δ BoId), s.prg.tab.slots[i]? = some p →
          p.state = .held → s'.prg.tab.slots[i]? = some p) ∧
        ∀ n, .released n ∈ s'.hist → .released n ∉ s.hist →
          ∃ i p, s.prg.Live i p ∧ p.serial = n ∧ p.users = 1 ∧
            s'.hist = s.hist ++ [.unloadOk n, .released n] ∧
            ((driver cfg).StepsMeet freshId (start cfg poolMaxMb) as → s.freshId a = true →
              ∀ f ∈ s'.prg.files, p.progId ∉ (s'.prg.progs f).ids) := by
  obtain ⟨hinv, hlives, hguard⟩ := lives_run hrun
  refine ⟨hlives.life_cases, hlives.used, fun n => hlives.held_of_failed, ?_, ?_⟩
  · intro i p hp hheld
    refine ⟨hguard.held i p hp hheld, ?_, ?_, ?_⟩
    · intro digest hfind
      obtain ⟨q, hq, hlive, -⟩ := progtabFind_some hfind
      obtain rfl : p = q := Option.some.inj (hp.symm.trans hq)
      exact absurd (hheld.symm.trans hlive) (by simp)
    · intro id hfind
      obtain ⟨q, hq, hlive, -⟩ := progtabById_some hfind
      obtain rfl : p = q := Option.some.inj (hp.symm.trans hq)
      exact absurd (hheld.symm.trans hlive) (by simp)
    · intro b hb
      have hpos := secUses_pos hp hb
      exact hinv.owned.counted_of_use (Nat.lt_of_lt_of_le hpos (Nat.le_add_right _ _))
  · intro a s' evs hstep
    have hcases := step_cases hstep
    refine ⟨fun i p hp hheld => hcases.tab.held hp hheld, ?_⟩
    intro n hn hnew
    obtain ⟨i, p, q, hp, hserial, husers, hset, hfree, hhist⟩ :=
      hcases.tab.released hn hnew
    refine ⟨i, p, hp, hserial, husers, hhist, fun hmeet hok => ?_⟩
    obtain ⟨-, hrefs⟩ := refs_run hrun hmeet
    exact hrefs.unreferenced (hrefs.step hinv hok hcases) hp hset hfree

end Drv

section Runs

local instance lifePages : PageShift := page16K

/-- A program is loaded, and its file closes. -/
def loadAndClose : List (Act (List Section)) :=
  [.openFile 0] ++ Act.allocBo 0 0 0x4000 0x4000 ++
    Act.loadOne 0 1 [1, 2, 3, 4] 7 ++ [.close 0 true]

/-- The firmware does not acknowledge the unload. -/
theorem unload_discipline_fails : ∃ s, (driver DrvCfg.ideal).run (Drv.start DrvCfg.ideal 64)
        (loadAndClose ++ [.closePut ⟨true, true, false, true⟩]) = some s ∧
      s.prg.tab.slots.map (fun p => (p.serial, p.state)) = [(0, .held)] ∧
      s.quarantined = true ∧ s.life 0 = [.loaded 0, .unloadFailed 0] := by
  have hmap : ((driver DrvCfg.ideal).run (Drv.start DrvCfg.ideal 64)
      (loadAndClose ++ [.closePut ⟨true, true, false, true⟩])).map (fun s =>
        s.prg.tab.slots.map (fun p => (p.serial, p.state))) =
      some [(0, .held)] := by decide
  obtain ⟨s, hrun, hslots⟩ := Option.map_eq_some_iff.mp hmap
  obtain ⟨p, hp, hpe⟩ := List.map_eq_singleton_iff.mp hslots
  simp only [Prod.mk.injEq] at hpe
  have hslot : s.prg.tab.slots[0]? = some p := by simp [hp]
  obtain ⟨-, hused, -, hheld, -⟩ := Drv.unload_discipline hrun
  have hlife := hused 0 p ⟨hslot, by simp [hpe.2]⟩
  rw [hpe.1, hpe.2] at hlife
  exact ⟨s, hrun, hslots, (hheld 0 p hslot hpe.2).1, hlife⟩

/-- The firmware answers two loads of file 0 with the same id, and file 1
shares the second program.  The lists are keyed by id, so file 0 is counted at
the first program only. -/
def loadSameId : List (Act (List Section)) :=
  [.openFile 0, .openFile 1] ++ Act.allocBo 0 0 0x4000 0x4000 ++
    Act.allocBo 1 0 0x4000 0x8000 ++ Act.allocBo 2 1 0x4000 0xc000 ++
    Act.loadOne 0 1 [1, 2, 3, 4] 7 ++ Act.loadOne 0 2 [5, 6, 7, 8] 7 ++
    Act.hashOne 1 3 [5, 6, 7, 8] ++ [.close 1 true]

/-- The close of file 1 drops the only user of the first program.  It is
unloaded and its sections are released while file 0 is open with its id. -/
theorem unload_underFile : ∃ s s' evs, (driver DrvCfg.ideal).run (Drv.start DrvCfg.ideal 64)
        loadSameId = some s ∧
      s.step DrvCfg.ideal (.closePut ⟨true, true, true, true⟩) = some (s', evs) ∧
      s.prg.tab.slots.map (fun p => (p.serial, p.progId, p.state)) =
        [(0, 7, .live), (1, 7, .live)] ∧
      .released 0 ∉ s.hist ∧ .released 0 ∈ s'.hist ∧
      s'.isOpen 0 = true ∧ 7 ∈ (s'.prg.progs 0).ids := by
  have hmap : ((driver DrvCfg.ideal).run (Drv.start DrvCfg.ideal 64)
      loadSameId).bind (fun s =>
        (s.step DrvCfg.ideal (.closePut ⟨true, true, true, true⟩)).map (fun r =>
          (s.prg.tab.slots.map (fun p => (p.serial, p.progId, p.state)),
            decide (.released 0 ∈ s.hist), decide (.released 0 ∈ r.1.hist),
            r.1.isOpen 0, (r.1.prg.progs 0).ids))) =
      some ([(0, 7, .live), (1, 7, .live)], false, true, true, [7]) := by
    decide
  obtain ⟨s, hrun, hmap⟩ := Option.bind_eq_some_iff.mp hmap
  obtain ⟨⟨s', evs⟩, hstep, heq⟩ := Option.map_eq_some_iff.mp hmap
  simp only [Prod.mk.injEq, decide_eq_false_iff_not, decide_eq_true_eq] at heq
  obtain ⟨hslots, hold, hnew, hopen, hids⟩ := heq
  exact ⟨s, s', evs, hrun, hstep, hslots, hold, hnew, hopen, by simp [hids]⟩

end Runs

end OmarchyAne.T6021
