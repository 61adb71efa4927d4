import OmarchyAne.T6021.DriverStep

/-!
# What the driver keeps

`Drv.uses` counts the references that programs hold on a buffer: the sections
of the slots, and the sections that a PROG_LOAD in progress marked.  A load
that fails leaves its references behind, so the count is a lower bound of
what the buffer was given, and every step may forget some of it.

`Drv.Inv` ties the two halves of the driver together.  `Step.shown` says what
a step may do to the buffers of others, whatever the step is.
-/

namespace OmarchyAne.T6021

open Lib List

variable {δ : Type} {t : ProgTab δ BoId} {i : Nat} {p : Prog δ BoId} {digest : δ} {progId : UInt32}
  {serial : Nat} {s s' : Progs δ BoId}

/-! ## The references of the programs -/

/-- How many sections in the table are buffer `b`. -/
def secUses (t : ProgTab δ BoId) (b : BoId) : Nat :=
  (t.slots.map (fun p => p.sec.count (some b))).sum

theorem secUses_set (hp : t.slots[i]? = some p) (q : Prog δ BoId) (b : BoId) :
    secUses (t.set i q) b + p.sec.count (some b) = secUses t b + q.sec.count (some b) :=
  sum_map_set (fun p => p.sec.count (some b)) hp q

theorem secUses_set_same (hp : t.slots[i]? = some p) {q : Prog δ BoId}
    (hsec : q.sec = p.sec) (b : BoId) :
    secUses (t.set i q) b = secUses t b := by
  have h := secUses_set hp q b
  rw [hsec] at h
  omega

theorem count_replicate_none (n : Nat) (b : BoId) :
    (List.replicate n (none : Option BoId)).count (some b) = 0 := by
  simp [count_replicate]

theorem secUses_progtabAdd {t' : ProgTab δ BoId}
    (h : progtabAdd t digest progId serial = some (t', i)) (b : BoId) :
    secUses t' b ≤ secUses t b := by
  have hzero : (Prog.loaded digest progId serial : Prog δ BoId).sec.count
      (some b) = 0 := count_replicate_none _ b
  rw [progtabAdd] at h
  split at h
  · rename_i k hfind
    obtain ⟨p, hp, -⟩ := slot_of_findIdx hfind
    cases h
    have hset := secUses_set hp (Prog.loaded digest progId serial) b
    omega
  · split at h
    · cases h
      simp [secUses, hzero]
    · cases h

/-- A new program has its own sections and no others. -/
theorem secUses_add {sec : List (Option BoId)}
    (h : s.add digest progId serial sec = some (s', i, p)) (b : BoId) :
    secUses s'.tab b ≤ secUses s.tab b + sec.count (some b) := by
  rw [Progs.add] at h
  split at h
  · cases h
  · rename_i t k hadd
    simp only [Option.some.injEq, Prod.mk.injEq] at h
    obtain ⟨rfl, rfl, rfl⟩ := h
    have hk : t.slots[k]? = some (Prog.loaded digest progId serial) := by
      simp [(progtabAdd_some hadd).2]
    have hset := secUses_set hk
      { (Prog.loaded digest progId serial : Prog δ BoId) with sec := sec } b
    have hle := secUses_progtabAdd hadd b
    have hnew : (Prog.loaded digest progId serial : Prog δ BoId).sec.count
        (some b) = 0 := count_replicate_none _ b
    dsimp only at hset ⊢
    omega

theorem live_of_add {sec : List (Option BoId)}
    (h : s.add digest progId serial sec = some (s', i, p)) : s'.Live i p := by
  obtain ⟨-, hp, hslots, -⟩ := Progs.add_some h
  exact ⟨by simp [hslots], by rw [hp]; rfl⟩

theorem secUses_ref {f : FileId} (hp : s.Live i p) (h : s.ref f i p = some s')
    (b : BoId) : secUses s'.tab b = secUses s.tab b := by
  simp only [Progs.ref, fdprogsRef] at h
  split_ifs at h
  · cases h
    rfl
  · cases h
    exact secUses_set_same hp.1 (q := { p with users := p.users + 1 }) rfl b

/-- A slot of the table uses its sections. -/
theorem secUses_pos (hp : t.slots[i]? = some p) {b : BoId} (hb : some b ∈ p.sec) :
    0 < secUses t b := by
  have hcount : 0 < p.sec.count (some b) := count_pos_iff.mpr hb
  have hle : p.sec.count (some b) ≤ secUses t b :=
    single_le_sum (fun _ _ => Nat.zero_le _) _ (mem_map_of_mem (mem_of_getElem? hp))
  omega

/-- The sections that a PROG_LOAD in progress marked. -/
def FwOp.sec : FwOp δ → List (Option BoId)
  | mark _ _ sec _ _ | load _ sec _ _ => sec
  | _ => []

/-- The io buffers that an EXEC in progress marked. -/
def FwOp.marked : FwOp δ → List BoId
  | exec _ _ marked | call _ marked => marked
  | _ => []

/-- The file whose ioctl or close holds the firmware lock. -/
def FwOp.file : FwOp δ → Option FileId
  | idle => none
  | hash f .. | mark f .. | load f .. | exec f .. | call f _ | close f _ =>
    some f

/-- The references that programs hold on buffer `b`. -/
def Drv.uses (s : Drv δ) (b : BoId) : Nat :=
  secUses s.prg.tab b + s.fw.sec.count (some b)

/-- Setting one section adds at most one reference. -/
theorem count_set_le (sec : List (Option BoId)) (k : Nat) (b x : BoId) :
    (sec.set k (some b)).count (some x) ≤ sec.count (some x) + if x = b then 1 else 0 := by
  by_cases hk : k < sec.length
  · have h := count_set (a := some b) (b := some x) hk
    by_cases hx : x = b
    · subst hx
      simp only [h, if_true, beq_self_eq_true]
      omega
    · have hne : (some b == some x) = false := by
        simpa using fun h : b = x => hx h.symm
      simp only [h, hne, hx, Bool.false_eq_true, if_false]
      omega
  · rw [set_eq_of_length_le (by omega)]
    omega

theorem Drv.isOpen_mem {s : Drv δ} {f : FileId} (h : s.isOpen f = true) : f ∈ s.prg.files := by
  simp only [Drv.isOpen, Bool.and_eq_true, decide_eq_true_eq] at h
  exact h.1

/-! ## What a step shows -/

variable [PageShift]

namespace Bufs

variable {q : Bool} {drops : BoId → Prop} {B B' : Bufs} {evs : List Ev}

/-- What a step may do to the buffers of others.  `drops` are the buffers
whose last reference it drops. -/
structure Shown (q : Bool) (drops : BoId → Prop) (B B' : Bufs)
    (evs : List Ev) : Prop where
  next_le : B.next ≤ B'.next
  io : ∀ x, x < B.next → (B.bo x).fwIo = true → (B'.bo x).fwIo = true
  held : ∀ x, B.place x = .held → B'.place x = .held
  counted : ∀ x, (B.place x).counted = true →
    B'.place x = B.place x ∨ B'.place x = .loose ∨ drops x
  safe : q = true → ∀ x, (B.bo x).fwIo = true →
    (B.place x).counted = true →
      (B'.place x).counted = true ∨ B'.place x = .held
  taken_ev : ∀ x, .taken x ∈ evs → B.place x = .parked
  zeroed_ev : ∀ x, .zeroed x ∈ evs → ∃ i, B.place x = .hand i
  published_ev : ∀ x, .published x ∈ evs → ∃ i, B.place x = .hand i
  freed_ev : ∀ x, .freed x ∈ evs → B'.place x = .freed
  allocated_ev : ∀ x, .allocated x ∈ evs → x = B.next ∧
    ∀ y, (B.bo y).cpu = true → disjoint (B'.bo x).dma
      (pageAlign (B'.bo x).size) (B.bo y).dma (pageAlign (B.bo y).size) = true

theorem Shown.of_inited (h : Inited B B' evs) : Shown q drops B B' evs where
  next_le := h.next_le
  io x hx hio := (h.io x hx).trans hio
  held := h.held
  counted x hx := by
    rcases h.counted x hx with heq | hloose
    · exact .inl heq
    · exact .inr (.inl hloose)
  safe _ x _ hx := by
    rcases h.counted x hx with heq | hloose
    · exact .inl (heq ▸ hx)
    · exact .inl (by rw [hloose]; rfl)
  taken_ev := h.taken_ev
  zeroed_ev := h.zeroed_ev
  published_ev := h.published_ev
  freed_ev := h.freed_ev
  allocated_ev := h.allocated_ev

/-- An ioctl that returns afterwards shows nothing more. -/
theorem Shown.of_moved {rets : List Ev} (h : Moved q drops B B' evs)
    (hrets : ∀ ev ∈ rets, ∃ r, ev = .ret r) :
    Shown q drops B B' (evs ++ rets) := by
  have hfreed : ∀ ev ∈ evs ++ rets, (∀ r, ev ≠ .ret r) →
      ∃ x, ev = .freed x ∧ B'.place x = .freed := by
    intro ev hev hne
    rcases mem_append.mp hev with hev | hev
    · exact h.evs_freed ev hev
    · obtain ⟨r, rfl⟩ := hrets ev hev
      exact absurd rfl (hne r)
  refine ⟨h.next.ge, fun x _ hio => (h.io x).trans hio, h.held, h.counted,
    h.safe, fun x hx => ?_, fun x hx => ?_, fun x hx => ?_, fun x hx => ?_,
    fun x hx => ?_⟩ <;> obtain ⟨y, hy, hpl⟩ := hfreed _ hx (by simp)
  · cases hy
  · cases hy
  · cases hy
  · rw [Ev.freed.inj hy]
    exact hpl
  · cases hy

theorem Shown.refl (hevs : ∀ ev ∈ evs, ∃ r, ev = .ret r) : Shown q drops B B evs :=
  .of_inited (inited_quiet rfl rfl rfl hevs)

/-- A change of one object that keeps an io mark. -/
theorem Shown.modify {b : BoId} {o : Bo}
    (hbo : B'.bo = Function.update B.bo b o) (hplace : B'.place = B.place)
    (hnext : B'.next = B.next) (hio : (B.bo b).fwIo = true → o.fwIo = true) :
    Shown q drops B B' [] := by
  refine ⟨hnext.ge, fun x _ hx => ?_, fun x hx => by rw [hplace, hx],
    fun x _ => .inl (by rw [hplace]), fun _ x _ hx => .inl (by
      rw [hplace, hx]), ?_, ?_, ?_, ?_, ?_⟩
  · rw [hbo]
    by_cases hxb : x = b
    · subst hxb
      rw [Function.update_self]
      exact hio hx
    · rw [Function.update_of_ne hxb]
      exact hx
  all_goals exact fun x hx => absurd hx (by simp)

/-- A change of one object that keeps its memory. -/
theorem Account.modify {cap : Nat} (h : B.Account cap) {b : BoId} {o : Bo}
    (hbo : B'.bo = Function.update B.bo b o) (hbytes : o.bytes = (B.bo b).bytes)
    (hnext : B'.next = B.next) (hinits : B'.inits = B.inits)
    (htotal : B'.total = B.total) :
    B'.Account cap := by
  have hsame : ∀ x, (B'.bo x).bytes = (B.bo x).bytes := by
    intro x
    rw [hbo]
    by_cases hx : x = b
    · rw [hx, Function.update_self, hbytes]
    · rw [Function.update_of_ne hx]
  have halloc : B'.allocBytes = B.allocBytes := by
    rw [allocBytes, hnext]
    exact Finset.sum_congr rfl (fun x _ => hsame x)
  obtain ⟨htot, hfits⟩ := h
  refine ⟨?_, ?_⟩
  · rw [htotal, halloc, pendingBytes, hinits]
    exact htot
  · rw [halloc, admittedBytes, hinits]
    exact hfits

end Bufs

/-! ## The invariant -/

namespace Drv

/-- What every reachable state of the driver satisfies. -/
structure Inv (cfg : DrvCfg δ) (s : Drv δ) : Prop where
  owned : s.buf.Owned s.uses
  account : s.buf.Account cfg.buf.cap
  /-- A buffer that a call passed or will pass has the io mark. -/
  io : ∀ b, b ∈ s.fw.marked ∨ b ∈ s.sentIo →
    b < s.buf.next ∧ (s.buf.bo b).fwIo = true
  file : ∀ f, s.fw.file = some f → f ∈ s.prg.files

/-- The driver starts without buffers and programs. -/
theorem inv_start (cfg : DrvCfg δ) (poolMaxMb : Nat) : Inv cfg (start cfg poolMaxMb) where
  owned := by
    refine ⟨fun b => ?_, fun f => nodup_nil, nodup_nil, ?_⟩
    · constructor <;>
        simp [start, Bufs.init, Bo.zero, poolInit, Place.counted,
          Place.allocated, uses, secUses, ProgTab.empty, FwOp.sec]
    · intro b c _ hb
      exact absurd hb (by simp [start, Bufs.init, Bo.zero])
  account := by
    refine ⟨?_, ?_⟩
    · simp [start, Bufs.init, Bufs.allocBytes, Bufs.pendingBytes, bytesBelow]
    · simp [start, Bufs.init, Bufs.allocBytes, Bufs.admittedBytes, bytesBelow]
  io b hb := by simp [start, FwOp.marked] at hb
  file f hf := by simp [start, FwOp.file] at hf

/-- The buffers whose last reference a step may drop. -/
def drops (s : Drv δ) : Act δ → BoId → Prop
  | .boFree f handle => fun x =>
    s.buf.find f handle = some x ∧ (s.buf.bo x).refs = 1
  | .vmClose b => fun x => x = b ∧ (s.buf.bo x).refs = 1
  | .closeBos f => fun x => x ∈ s.buf.bos f
  | .closePut _ => fun _ => True
  | _ => fun _ => False

variable [Inhabited δ] {cfg : DrvCfg δ} {s : Drv δ}

/-- The references after a turn of the close loop, which releases the
sections of the program that was unloaded. -/
theorem Inv.put (h : Inv cfg s) {f : FileId} {unloadOnClose : Bool}
    (hfw : s.fw = .close f unloadOnClose) {id : UInt32} {rest : FdProgs}
    {r : Progs δ BoId × CloseCtx} (hr : PutCase cfg s f id rest r) :
    r.2.buf.Owned (secUses r.1.tab) ∧ r.2.buf.Account cfg.buf.cap ∧
      Bufs.Shown s.quarantined (fun _ => True) s.buf r.2.buf r.2.evs := by
  have huses : s.uses = secUses s.prg.tab := by
    funext b
    simp [uses, hfw, FwOp.sec]
  have howned := h.owned
  rw [huses] at howned
  cases hr with
  | skip => exact ⟨howned, h.account, .refl (by simp [closeCtx])⟩
  | dropped hp hid =>
    refine ⟨howned.mono (fun x => ?_), h.account, .refl (by simp [closeCtx])⟩
    rw [secUses_set_same hp.1]
    rfl
  | kept hp hid husers hq hq' =>
    refine ⟨howned.mono (fun x => ?_), h.account, .refl (by simp)⟩
    rw [secUses_set_same hp.1]
    rfl
  | @unloaded i p hp hid husers hq =>
    have hsecs : s.buf.Owned (fun x =>
        secUses (s.prg.tab.set i Prog.cleared) x + p.sec.count (some x)) := by
      refine howned.mono (fun x => ?_)
      have hset := secUses_set hp.1 Prog.cleared x
      have hzero : (Prog.cleared : Prog δ BoId).sec.count (some x) = 0 := count_replicate_none _ x
      omega
    have hmoved := hsecs.releaseSecs_moved s.quarantined
    refine ⟨hsecs.releaseSecs _, h.account.moved hmoved, ?_⟩
    have hnil : ∀ ev ∈ ([] : List Ev), ∃ r, ev = .ret r := by simp
    have hshown := Bufs.Shown.of_moved hmoved hnil
    rw [append_nil] at hshown
    exact hshown

variable [DecidableEq δ] {s' : Drv δ} {a : Act δ} {evs : List Ev}

/-- What a step may do to the buffers of others. -/
theorem Step.shown (h : Inv cfg s) (hstep : Step cfg s a s' evs) :
    Bufs.Shown s.quarantined (s.drops a) s.buf s'.buf evs := by
  have hnil : ∀ ev ∈ ([] : List Ev), ∃ r, ev = .ret r := by simp
  have hret : ∀ r', ∀ ev ∈ [Ev.ret r'], ∃ r, ev = .ret r := by simp
  cases hstep with
  | openFile => exact .refl hnil
  | boInit => exact .of_inited (Bufs.inited_quiet rfl rfl rfl hnil)
  | initStep hinit => exact .of_inited (h.owned.initStep_inited hinit)
  | @boFree f handle b hb =>
    have hmem : b ∈ s.buf.bos f := mem_of_find?_eq_some hb
    refine .of_moved ((h.owned.boDrop_moved hmem _).mono ?_) (hret _)
    rintro x ⟨rfl, hone⟩
    exact ⟨hb, hone⟩
  | noBuf => exact .refl (hret _)
  | mmap => exact .modify rfl rfl rfl (fun hio => hio)
  | vmOpen => exact .modify rfl rfl rfl (fun hio => hio)
  | vmClose hb =>
    have hmoved := (h.owned.vmClose_moved hb s.quarantined).mono
      (d := s.drops (.vmClose _)) (by
        rintro x ⟨rfl, hone⟩
        exact ⟨rfl, hone⟩)
    simpa using Bufs.Shown.of_moved hmoved hnil
  | @setPoolMax maxMb =>
    have hmoved := h.owned.setPoolMax_moved maxMb s.quarantined (s.drops (.setPoolMax maxMb))
    simpa using Bufs.Shown.of_moved hmoved hnil
  | returns => exact .refl (hret _)
  | fails => exact .refl (hret _)
  | progLoad => exact .refl hnil
  | loadHash => exact .refl hnil
  | loadShare => exact .refl (hret _)
  | loadNew => exact .refl hnil
  | loadMark => exact .modify rfl rfl rfl (fun hio => hio)
  | loadSend => exact .refl hnil
  | loadAdd => exact .refl (hret _)
  | lookup => exact .refl (hret _)
  | procCreate => exact .refl (hret _)
  | exec => exact .refl hnil
  | execMark => exact .modify rfl rfl rfl (fun _ => rfl)
  | execSend => exact .refl hnil
  | fwFinish => exact .refl hnil
  | execOk => exact .refl (hret _)
  | close => exact .refl hnil
  | closePut hfw hids hr => exact (h.put hfw (put_cases hr)).2.2
  | closeEnd => exact .refl hnil
  | @closeBos f hf hf' =>
    have hmoved := h.owned.dropAll_moved (h.owned.bos_nodup f) (fun b hb => hb) s.quarantined
    have hshown := Bufs.Shown.of_moved hmoved hnil
    rw [append_nil] at hshown
    exact hshown

/-- The references of the programs after a step. -/
theorem Step.owned (h : Inv cfg s) (hstep : Step cfg s a s' evs) : s'.buf.Owned s'.uses := by
  have hidle : ∀ x, secUses s.prg.tab x ≤ s.uses x := fun x =>
    Nat.le_add_right _ _
  cases hstep with
  | openFile => exact h.owned
  | boInit => exact h.owned.addInit rfl
  | initStep hinit => exact h.owned.initStep hinit
  | boFree hb => exact h.owned.boDrop (mem_of_find?_eq_some hb) _
  | noBuf => exact h.owned
  | mmap hb => exact h.owned.vmOpen (h.owned.counted_of_mem hb)
  | vmOpen hb => exact h.owned.vmOpen (h.owned.unmap hb).2
  | vmClose hb => exact h.owned.vmClose hb _
  | setPoolMax => exact h.owned.setPoolMax _
  | returns => exact h.owned.mono hidle
  | fails => exact h.owned.mono hidle
  | progLoad => exact h.owned.mono hidle
  | loadHash => exact h.owned.mono hidle
  | loadShare hfw hfind hp href =>
    exact h.owned.mono (fun x => (secUses_ref hp href x).le.trans (hidle x))
  | loadNew =>
    refine h.owned.mono (fun x => ?_)
    rw [uses]
    simp only [FwOp.sec, count_replicate_none]
    exact hidle x
  | @loadMark f a todo sec digest read b hfw hb =>
    refine (h.owned.markProgram (h.owned.counted_of_mem hb)).mono (fun x => ?_)
    have hset := count_set_le sec (a.id.toNat - 1) b x
    simp only [uses, hfw, FwOp.sec, Bufs.bump]
    omega
  | loadSend hfw =>
    refine h.owned.mono (fun x => ?_)
    simp [uses, hfw, FwOp.sec]
  | @loadAdd f sec digest read progId prg i p prg' r hfw hadd href =>
    -- the sections move from the load to the slot
    refine h.owned.mono (fun x => ?_)
    have hle := secUses_add hadd x
    have hprg : secUses prg'.tab x = secUses prg.tab x := by
      rcases href with href | ⟨-, rfl⟩
      · exact secUses_ref (live_of_add hadd) href x
      · rfl
    simp only [uses, hfw, FwOp.sec, count_nil]
    omega
  | lookup hfw hf hp href =>
    exact h.owned.mono (fun x => (secUses_ref hp href x).le.trans (hidle x))
  | @procCreate f progId r i p procId hfw hf hp =>
    refine h.owned.mono (fun x => ?_)
    have hsame := secUses_set_same hp.1 (q := { p with procId := procId }) rfl
    exact (hsame x).le.trans (hidle x)
  | exec => exact h.owned.mono hidle
  | execMark hfw hb =>
    exact (h.owned.markIo (h.owned.counted_of_mem hb)).mono hidle
  | execSend => exact h.owned.mono hidle
  | fwFinish => exact h.owned
  | execOk => exact h.owned.mono hidle
  | close => exact h.owned.mono hidle
  | closePut hfw hids hr =>
    refine (h.put hfw (put_cases hr)).1.mono (fun x => ?_)
    simp [uses, hfw, FwOp.sec]
  | closeEnd => exact h.owned.mono hidle
  | closeBos => exact h.owned.closeBos _ _

/-- The byte counter after a step. -/
theorem Step.account (h : Inv cfg s) (hstep : Step cfg s a s' evs) :
    s'.buf.Account cfg.buf.cap := by
  cases hstep with
  | boInit => exact h.account.addInit rfl rfl
  | initStep hinit => exact h.owned.initStep_account h.account hinit
  | boFree hb =>
    exact h.account.moved (h.owned.boDrop_moved (mem_of_find?_eq_some hb) _)
  | mmap => exact h.account.modify rfl rfl rfl rfl rfl
  | vmOpen => exact h.account.modify rfl rfl rfl rfl rfl
  | vmClose hb => exact h.account.moved (h.owned.vmClose_moved hb _)
  | setPoolMax =>
    exact h.account.moved (h.owned.setPoolMax_moved _ s.quarantined (fun _ => False))
  | loadMark => exact h.account.modify rfl rfl rfl rfl rfl
  | execMark => exact h.account.modify rfl rfl rfl rfl rfl
  | closePut hfw hids hr => exact (h.put hfw (put_cases hr)).2.1
  | closeBos =>
    exact h.account.moved (h.owned.dropAll_moved (h.owned.bos_nodup _) (fun b hb => hb) _)
  | _ => exact h.account

/-- Only EXEC marks io buffers. -/
theorem Step.marks (h : Inv cfg s) (hstep : Step cfg s a s' evs) {b : BoId}
    (hb : b ∈ s'.fw.marked ∨ b ∈ s'.sentIo) :
    (b ∈ s.fw.marked ∨ b ∈ s.sentIo) ∨ b < s.buf.next ∧ (s'.buf.bo b).fwIo = true := by
  cases hstep with
  | @execMark f a todo marked c hfw hc =>
    simp only [FwOp.marked, mem_append, mem_singleton] at hb
    rcases hb with (hb | rfl) | hb
    · exact .inl (.inl (by simpa [hfw, FwOp.marked] using hb))
    · have hself : (s.buf.markIo b).bo b =
          { s.buf.bo b with fwRef := true, fwIo := true } :=
        Function.update_self _ _ _
      refine .inr ⟨?_, by rw [hself]⟩
      have hpl := ((h.owned.each b).file_iff f).mp hc
      exact (h.owned.alloc_lt (by rw [hpl]; rfl)).1
    · exact .inl (.inr hb)
  | execSend hfw =>
    left
    simpa [hfw, FwOp.marked, or_comm] using hb
  | openFile | boInit | initStep | boFree | noBuf | mmap | vmOpen | vmClose
  | setPoolMax | fwFinish | closePut | closeBos => exact .inl hb
  | _ => exact .inl (.inr (by simpa [FwOp.marked] using hb))

/-- The file whose operation holds the lock stays open. -/
theorem Step.file (h : Inv cfg s) (hstep : Step cfg s a s' evs) {f : FileId}
    (hf : s'.fw.file = some f) : f ∈ s'.prg.files := by
  cases hstep with
  | openFile => exact mem_cons_of_mem _ (h.file f hf)
  | progLoad hfw hopen | exec hfw hopen | close hfw hopen =>
    cases hf
    have hmem := isOpen_mem hopen
    exact hmem
  | loadHash hfw | loadNew hfw | loadMark hfw | loadSend hfw | execMark hfw
  | execSend hfw =>
    exact h.file f (by rw [hfw]; exact hf)
  | closePut hfw hids hr =>
    have hmem := h.file f hf
    cases put_cases hr <;> exact hmem
  | boInit | initStep | boFree | noBuf | mmap | vmOpen | vmClose
  | setPoolMax | fwFinish | closeBos => exact h.file f hf
  | _ => exact absurd hf (by simp [FwOp.file])

/-- Every step keeps the invariant. -/
theorem Step.inv (h : Inv cfg s) (hstep : Step cfg s a s' evs) : Inv cfg s' where
  owned := hstep.owned h
  account := hstep.account h
  io b hb := by
    have hshown := hstep.shown h
    rcases hstep.marks h hb with hold | ⟨hlt, hio⟩
    · obtain ⟨hlt, hio⟩ := h.io b hold
      exact ⟨Nat.lt_of_lt_of_le hlt hshown.next_le, hshown.io b hlt hio⟩
    · exact ⟨Nat.lt_of_lt_of_le hlt hshown.next_le, hio⟩
  file f hf := hstep.file h hf

theorem step_of_driver (h : (driver cfg).step s a = some s') :
    ∃ evs, s.step cfg a = some (s', evs) := by
  simp only [driver, Option.map_eq_some_iff] at h
  obtain ⟨⟨t, evs⟩, hstep, rfl⟩ := h
  exact ⟨evs, hstep⟩

/-- Every reachable state satisfies the invariant. -/
theorem inv_reachable (h : (driver cfg).Reachable s) : Inv cfg s := by
  refine System.reachable_invariant ?_ ?_ h
  · rintro s ⟨poolMaxMb, rfl⟩
    exact inv_start cfg poolMaxMb
  · intro s a s' hs hstep
    obtain ⟨evs, hstep⟩ := step_of_driver hstep
    exact (step_cases hstep).inv hs

end Drv

end OmarchyAne.T6021
