import OmarchyAne.Libane.Open
import OmarchyAne.Libane.Sha256Correct
import OmarchyAne.T6021.ProgLife

/-!
# The key of a program

The driver shares a program between loads with the same digest.  `Keyed` says
what the digests in the table are: each LIVE program has the digest of the
sections that were read for it, and no two have the same.  So a load takes the
program of a slot exactly when it read the same sections, unless two streams
that were hashed collide (`programKey_exact`).

The library computes the same digest in user space, by code of its own
(`openLoad_sha256`).  It has none for a program with an empty section, and such
programs are built: an ANEC without constants gives an empty KERNEL section
(`programKey_emptyKernel`).  The driver hashes and loads it.
-/

namespace OmarchyAne.T6021

open Lib OmarchyAne.Libane

variable {χ δ : Type}

/-- The digest and the sections of a load that found no program. -/
def FwOp.key : FwOp δ → Option (δ × List Section)
  | .mark _ _ _ digest read | .load _ _ digest read => some (digest, read)
  | _ => none

namespace Drv

/-! ## What a step does to the LIVE programs -/

variable {cfg : DrvCfg δ} {s s' : Drv δ}

/-- A LIVE program was there before, with its number and its digest, or it is
the one just loaded. -/
theorem TabStep.live_cases (hstep : TabStep cfg s s') {j : Nat}
    {q : Prog δ BoId} (hq : s'.prg.Live j q) :
    (∃ p, s.prg.Live j p ∧ q.serial = p.serial ∧ q.digest = p.digest) ∨
      ∃ f sec digest read, s.fw = .load f sec digest read ∧
        q.serial = s.serial ∧ q.digest = digest ∧
        s'.loads = Function.update s.loads s.serial read ∧
        ∀ k r, s'.prg.Live k r → k ≠ j → s.prg.Live k r := by
  -- Of the slot that was written, only a LIVE one is left to look at.
  have hother : ∀ {i r}, SlotSet s s' i r → j ≠ i → s.prg.Live j q := by
    intro i r hset hj
    have hslot := hset j
    rw [if_neg hj] at hslot
    exact ⟨hslot ▸ hq.1, hq.2⟩
  have hself : ∀ {i r}, SlotSet s s' i r → j = i → q = r := by
    intro i r hset hj
    have hslot := hset j
    rw [if_pos hj, hq.1] at hslot
    exact Option.some.inj hslot
  have hold : s.prg.Live j q → ∃ p, s.prg.Live j p ∧ q.serial = p.serial ∧ q.digest = p.digest :=
    fun h => ⟨q, h, rfl, rfl⟩
  cases hstep with
  | same htab hlog => exact .inl (hold ⟨htab ▸ hq.1, hq.2⟩)
  | @update i p r hp hset hstate hsec hserial hdigest hlog =>
    by_cases hj : j = i
    · obtain rfl := hself hset hj
      subst hj
      exact .inl ⟨p, hp, hserial, hdigest⟩
    · exact .inl (hold (hother hset hj))
  | @load i r f sec digest read hfw hfree hset hstate hsec hserial hdigest
      hhist hnext hloads =>
    by_cases hj : j = i
    · obtain rfl := hself hset hj
      refine .inr ⟨f, sec, digest, read, hfw, hserial, hdigest, hloads, ?_⟩
      intro k r hr hk
      have hslot := hset k
      rw [if_neg (hj ▸ hk)] at hslot
      exact ⟨hslot ▸ hr.1, hr.2⟩
    · exact .inl (hold (hother hset hj))
  | @keep i p hp hset =>
    refine .inl (hold (hother hset (fun hj => ?_)))
    obtain rfl := hself hset hj
    exact absurd hq.2 (by simp)
  | @drop i p r hp husers hset hfree =>
    refine .inl (hold (hother hset (fun hj => ?_)))
    obtain rfl := hself hset hj
    exact absurd (hfree.symm.trans hq.2) (by simp)

/-- The sections of a load never change. -/
theorem TabStep.loads_eq (hstep : TabStep cfg s s') {n : Nat} (hn : n < s.serial) :
    s'.loads n = s.loads n := by
  cases hstep with
  | same _ hlog => rw [hlog.loads]
  | update _ _ _ _ _ _ hlog => rw [hlog.loads]
  | load _ _ _ _ _ _ _ _ _ hloads =>
    rw [hloads, Function.update_of_ne (Nat.ne_of_lt hn)]
  | keep _ _ _ _ _ hloads => rw [hloads]
  | drop _ _ _ _ _ _ hloads => rw [hloads]

/-! ## The digests in the table -/

variable [DecidableEq δ] {read : List Section}

/-- The digests in the table, and of a load that is on its way there. -/
structure Keyed (cfg : DrvCfg δ) (s : Drv δ) : Prop where
  live : ∀ i p, s.prg.Live i p → p.digest = cfg.digest (s.loads p.serial)
  distinct : ∀ i j p q, s.prg.Live i p → s.prg.Live j q →
    p.digest = q.digest → i = j
  loading : ∀ digest read, s.fw.key = some (digest, read) →
    digest = cfg.digest read ∧ progtabFind s.prg.tab digest = none

/-- A search by the digest of some sections finds the LIVE program of a slot
exactly when they are the sections of that program, unless the two streams
collide. -/
theorem Keyed.find_iff (h : Keyed cfg s) {H : Hasher χ δ} (hH : H.Streams)
    (hcfg : cfg.digest = loadDigest H) {i : Nat} {p : Prog δ BoId}
    (hp : s.prg.Live i p)
    (hcoll : H.hash (sectionStream (s.loads p.serial)) = H.hash (sectionStream read) →
      sectionStream (s.loads p.serial) = sectionStream read) :
    progtabFind s.prg.tab (cfg.digest read) = some i ↔ s.loads p.serial = read := by
  constructor
  · intro hfind
    obtain ⟨q, hq, -, hdigest⟩ := progtabFind_some hfind
    obtain rfl : p = q := Option.some.inj (hp.1.symm.trans hq)
    rw [h.live i p hp, hcfg, loadDigest_eq hH, loadDigest_eq hH] at hdigest
    exact sectionStream_injective (hcoll hdigest)
  · intro hread
    cases hfind : progtabFind s.prg.tab (cfg.digest read) with
    | none =>
      refine absurd (h.live i p hp) ?_
      rw [hread]
      exact progtabFind_none hfind hp.1 hp.2
    | some j =>
      obtain ⟨q, hq, hlive, hdigest⟩ := progtabFind_some hfind
      rw [h.distinct j i q p ⟨hq, hlive⟩ hp (hdigest.trans (hread ▸ (h.live i p hp).symm))]

variable [PageShift] [Inhabited δ] {a : Act δ} {evs : List Ev}

/-- Between the search and the answer of the firmware nothing touches the
table. -/
theorem Step.key (hstep : Step cfg s a s' evs) {digest : δ} (h : s'.fw.key = some (digest, read)) :
    s'.prg.tab = s.prg.tab ∧ (s.fw.key = some (digest, read) ∨
      digest = cfg.digest read ∧ progtabFind s.prg.tab digest = none) := by
  cases hstep with
  | loadNew hfw hfind =>
    cases h
    exact ⟨rfl, .inr ⟨rfl, hfind⟩⟩
  | loadMark hfw | loadSend hfw => exact ⟨rfl, .inl (by rw [hfw]; exact h)⟩
  | closePut hfw =>
    rw [show FwOp.key _ = FwOp.key s.fw from rfl, hfw] at h
    exact absurd h (by simp [FwOp.key])
  | openFile | boInit | initStep | boFree | noBuf | mmap | vmOpen | vmClose
  | setPoolMax | fwFinish | closeBos => exact ⟨rfl, .inl h⟩
  | _ => exact absurd h (by simp [FwOp.key])

theorem Keyed.step (h : Keyed cfg s) (hlives : s.Lives)
    (hstep : Step cfg s a s' evs) : Keyed cfg s' := by
  have hbelow : ∀ i p, s.prg.Live i p → p.serial < s.serial :=
    fun i p hp => hlives.below i p (.of_live hp)
  have hnew : ∀ {f sec digest read}, s.fw = .load f sec digest read →
      digest = cfg.digest read ∧ ∀ i p, s.prg.Live i p →
        p.digest ≠ digest := by
    intro f sec digest read hfw
    obtain ⟨hdigest, hfind⟩ := h.loading digest read (by rw [hfw]; rfl)
    exact ⟨hdigest, fun i p hp => progtabFind_none hfind hp.1 hp.2⟩
  refine ⟨?_, ?_, ?_⟩
  · intro j q hq
    rcases hstep.tab.live_cases hq with ⟨p, hp, hserial, hdigest⟩ |
      ⟨f, sec, digest, read, hfw, hserial, hdigest, hloads, -⟩
    · rw [hserial, hdigest, hstep.tab.loads_eq (hbelow j p hp)]
      exact h.live j p hp
    · rw [hserial, hdigest, hloads, Function.update_self]
      exact (hnew hfw).1
  · intro j k q r hq hr heq
    rcases hstep.tab.live_cases hq with ⟨p, hp, -, hdigest⟩ |
      ⟨f, sec, digest, read, hfw, -, hdigest, -, hothers⟩
    · rcases hstep.tab.live_cases hr with ⟨p', hp', -, hdigest'⟩ |
        ⟨f, sec, digest, read, hfw, -, hdigest', -, hothers⟩
      · exact h.distinct j k p p' hp hp' (hdigest.symm.trans (heq.trans hdigest'))
      · by_contra hne
        exact (hnew hfw).2 j q (hothers j q hq hne) (heq.trans hdigest')
    · by_contra hne
      exact (hnew hfw).2 k r (hothers k r hr (Ne.symm hne)) (heq.symm.trans hdigest)
  · intro digest read hkey
    obtain ⟨htab, hold | hfresh⟩ := hstep.key hkey
    · rw [htab]
      exact h.loading digest read hold
    · rw [htab]
      exact hfresh

theorem keyed_run {poolMaxMb : Nat} {as : List (Act δ)}
    (hrun : (driver cfg).run (start cfg poolMaxMb) as = some s) :
    s.Lives ∧ Keyed cfg s := by
  refine System.run_invariant (I := fun s => s.Lives ∧ Keyed cfg s) ?_ ?_ hrun
  · intro s a s' ⟨hlives, hkeyed⟩ hstep
    obtain ⟨evs, hstep⟩ := step_of_driver hstep
    have hcases := step_cases hstep
    exact ⟨hcases.tab.lives hlives, hkeyed.step hlives hcases⟩
  · constructor
    · constructor <;> simp [start, Used, ProgTab.empty, life]
    · constructor <;> simp [start, Progs.Live, ProgTab.empty, FwOp.key]

/-- The key of a program: the stream determines the sections, slices do not
matter, the library hashes what the kernel hashes when no section is empty,
and a load shares the program of a slot exactly when the section lists are
equal, for every program whose stream does not collide with its own. -/
theorem programKey_exact {H : Hasher χ δ} (hH : H.Streams) : Function.Injective sectionStream ∧
      (∀ secs : List Section, loadDigest H secs = H.hash (sectionStream secs)) ∧
      (∀ secs : Sections, (∀ i, (secs i).val ≠ []) →
        ∀ boAlloc handle read, openLoad boAlloc handle secs = some read →
          programDigest Hasher.record secs = .ok (loadDigest Hasher.record read) ∧
            programDigest H secs = .ok (loadDigest H read)) ∧
      ∀ (cfg : DrvCfg δ) (poolMaxMb : Nat) (as : List (Act δ)) (s : Drv δ),
        cfg.digest = loadDigest H →
        (driver cfg).run (start cfg poolMaxMb) as = some s →
        ∀ f args read, s.fw = .hash f args [] read →
        ∀ i p, s.prg.Live i p →
          (H.hash (sectionStream (s.loads p.serial)) = H.hash (sectionStream read) →
            sectionStream (s.loads p.serial) = sectionStream read) →
          (progtabFind s.prg.tab (cfg.digest read) = some i ↔ s.loads p.serial = read) := by
  refine ⟨sectionStream_injective, loadDigest_eq hH, ?_, ?_⟩
  · intro secs hsome boAlloc handle read hload
    rw [openLoad_eq] at hload
    split at hload
    · cases hload
      have hno : ¬ ∃ i, (secs i).val = [] := by simpa using hsome
      rw [programDigest_eq Hasher.record_streams, programDigest_eq hH,
        if_neg hno, if_neg hno, loadDigest_eq Hasher.record_streams,
        loadDigest_eq hH]
      exact ⟨rfl, rfl⟩
    · cases hload
  · intro cfg poolMaxMb as s hcfg hrun f args read hfw i p hp hcoll
    exact (keyed_run hrun).2.find_iff hH hcfg hp hcoll

end Drv

section Runs

local instance keyPages : PageShift := page16K

/-- A driver that keys programs by their stream. -/
def streamKeys : DrvCfg (List UInt8) where
  buf := DrvCfg.ideal.buf
  poolMinKb := 0
  cmdBuf := true
  digest := loadDigest Hasher.record

/-- One file loads a section, and another one has hashed the same bytes. -/
def loadAgain : List (Act (List UInt8)) :=
  [.openFile 0, .openFile 1] ++ Act.allocBo 0 0 0x4000 0x4000 ++
    Act.allocBo 1 1 0x4000 0x8000 ++ Act.loadOne 0 1 [1, 2, 3, 4] 7 ++
    (Act.hashOne 1 2 [1, 2, 3, 4]).take 2

/-- The section that it has hashed, as argument and as read. -/
def againArg : SecArg := { id := 1, handle := 2, size := 4, offset := 0 }

def againSection : Section := againArg.read [1, 2, 3, 4] rfl

/-- Sections of one byte each. -/
def byteSections : Sections := fun i => ⟨[i.val.toUInt8], by simp⟩

/-- New buffers hold zeros. -/
def zeroBos : Fin 6 → Nat → Option (List UInt8) := fun _ n => some (zeros n)

def slotHandle : Fin 6 → UInt32 := fun i => (i.val + 1).toUInt32

theorem programKey_exact_again :
    (openLoad zeroBos slotHandle byteSections = some byteSections.list ∧
      programDigest Hasher.record byteSections = .ok (loadDigest Hasher.record byteSections.list)) ∧
      ∃ s read p, (driver streamKeys).run (Drv.start streamKeys 64) loadAgain =
          some s ∧ s.prg.Live 0 p ∧ s.loads p.serial = read ∧
        s.fw.file = some 1 ∧
        progtabFind s.prg.tab (streamKeys.digest read) = some 0 := by
  obtain ⟨-, -, hlib, hshare⟩ := Drv.programKey_exact Hasher.record_streams
  have hload : openLoad zeroBos slotHandle byteSections = some byteSections.list := by
    rw [openLoad_eq, if_pos]
    intro slot
    rfl
  refine ⟨⟨hload, (hlib byteSections ?_ zeroBos slotHandle _ hload).1⟩, ?_⟩
  · intro i
    simp [byteSections]
  · have hmap : ((driver streamKeys).run (Drv.start streamKeys 64)
        loadAgain).map (fun s => (s.fw, s.prg.tab.slots.map (fun p =>
          (p.state, p.serial)), s.loads 0)) =
        some (.hash 1 [againArg] [] [againSection], [(.live, 0)],
          [againSection]) := by decide
    obtain ⟨s, hrun, heq⟩ := Option.map_eq_some_iff.mp hmap
    simp only [Prod.mk.injEq] at heq
    obtain ⟨hfw, hslots, hloads⟩ := heq
    obtain ⟨p, hp, hpe⟩ := List.map_eq_singleton_iff.mp hslots
    obtain ⟨hstate, hserial⟩ := Prod.mk.inj hpe
    have hlive : s.prg.Live 0 p := ⟨by simp [hp], hstate⟩
    have hread : s.loads p.serial = [againSection] := by rw [hserial, hloads]
    refine ⟨s, [againSection], p, hrun, hlive, hread, by rw [hfw]; rfl, ?_⟩
    exact (hshare streamKeys 64 loadAgain s rfl hrun _ _ _ hfw 0 p hlive
      (by simp)).mpr hread

/-! ## The key with SHA-256 -/

/-- The SHA-256 of libane, in a context that held `c` before. -/
def aneSha256 (c : ShaCtx) : Hasher ShaCtx Bytes :=
  ⟨sha256Init c, sha256Update, sha256Final⟩

/-- The key that `ane_m2_open` computes with the SHA-256 of libane is the one
that the kernel computes for its PROG_LOAD, with a SHA-256 `H` of its own. -/
theorem openLoad_sha256 {H : Hasher χ Bytes} (hH : H.Streams)
    (hsha : ∀ msg, H.hash msg = Fips.sha256 msg) {c : ShaCtx} (hbuf : c.buf.length = 64)
    {secs : Sections} (hsome : ∀ i, (secs i).val ≠ [])
    (hlen : (sectionStream secs.list).length < 2 ^ 61) {boAlloc handle read}
    (hload : openLoad boAlloc handle secs = some read) :
    programDigest (aneSha256 c) secs = .ok (loadDigest H read) := by
  have hrun := digest_run (l := List.finRange 6) Hasher.record_streams (fun i _ => hsome i) []
  -- The context holds what the run beside it records.
  obtain ⟨c', hc', hholds⟩ := foldlM_simulates (g := digestSection (aneSha256 c) secs)
    (R := fun msg c => Holds c msg) hrun (Holds.init hbuf) (by
      intro msg i msg' c hmsg h
      rw [digestSection] at hmsg ⊢
      split at hmsg
      · cases hmsg
      · next hfull =>
        cases hmsg
        exact ⟨_, if_neg hfull, (h.update _).update _⟩)
  rw [openLoad_eq] at hload
  split at hload
  · cases hload
    rw [programDigest, loadDigest_eq hH, hsha]
    exact (congrArg _ hc').trans (congrArg Except.ok (hholds.final hlen))
  · cases hload

theorem openLoad_sha256_bytes : programDigest (aneSha256 freshCtx) byteSections =
    .ok (loadDigest ⟨[], (· ++ ·), Fips.sha256⟩ byteSections.list) :=
  openLoad_sha256 ⟨List.append_nil, List.append_assoc⟩ (fun _ => rfl) (by decide)
    (by simp [byteSections]) (by decide) (openLoad_eq zeroBos slotHandle _)

/-! ## An empty section -/

/-- The header of an ANEC with one task and no constants. -/
def bareHeader : List UInt8 :=
  let d := putLe32 (putLe64 (zeros anecHeaderSize) 0 64) 0x08 32
  let d := putLe64 (putLe32 d 0x0c 1) 0x10 48
  putLe32 (putLe32 d 0x20 1) 0x24 1

/-- A frame, a task of eight words, and the padding. -/
def bareAnec : List UInt8 := bareHeader ++ putLe32 (zeros 64) 16 0x80000

def barePorts : List PortSpec :=
  [{ dir := 0, bufferId := 5, barSlot := 4, tileBytes := 0x4000 },
    { dir := 1, bufferId := 4, barSlot := 5, tileBytes := 0x4000 }]

/-- The library builds a program with an empty KERNEL section and has no key
for it, while the driver takes its PROG_LOAD and hashes it. -/
theorem programKey_emptyKernel :
    ∃ m secs, programBuildPorts (fun _ => true) bareAnec barePorts = .ok (m, secs) ∧
      openLoad zeroBos slotHandle secs = some secs.list ∧
      loadArgsOk ((List.finRange 6).map (secArg secs slotHandle)) m.io.length = true ∧
      programDigest Hasher.record secs = .error .EINVAL ∧
      loadDigest Hasher.record secs.list = sectionStream secs.list := by
  have hbuild : (programBuildPorts (fun _ => true) bareAnec barePorts).map
      (fun r => (r.1.io.length, (r.2 secKernel).val)) = .ok (2, []) := by
    decide +kernel
  cases hres : programBuildPorts (fun _ => true) bareAnec barePorts with
  | error e => simp [hres, Except.map] at hbuild
  | ok r =>
    obtain ⟨m, secs⟩ := r
    rw [hres] at hbuild
    obtain ⟨hio, hkernel⟩ := Prod.mk.inj (Except.ok.inj hbuild)
    refine ⟨m, secs, rfl, ?_, ?_, ?_, ?_⟩
    · rw [openLoad_eq, if_pos]
      intro slot
      rfl
    · rw [show m.io.length = 2 from hio]
      rfl
    · rw [programDigest_eq Hasher.record_streams]
      exact if_pos ⟨secKernel, hkernel⟩
    · rw [loadDigest_eq Hasher.record_streams, Hasher.record_hash]

end Runs

end OmarchyAne.T6021
