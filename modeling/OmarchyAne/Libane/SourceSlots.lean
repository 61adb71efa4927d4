import OmarchyAne.Lib.Ranks
import OmarchyAne.Libane.DeriveRefs

/-!
# The slots that the first pass takes for inputs

A slot that a TileDMA destination register writes is an output or a scratch, and
never an input.  The first pass decides this while it scans, from the
destination references so far.  So it takes a slot for an input if the slot is
read before it is written (`EarlyRead`), and it does so for every such read
through source B.

`ScanSpec` says what the tables of the pass hold, and `written_not_input_iff`
which programs keep the written slots out of the two lists.
-/

namespace OmarchyAne.Libane

open Lib List

variable {slot : Nat} {s : Scan}

/-! ## The references of a stream -/

/-- The BAR references of all tasks, in the order of the scan. -/
def streamRefs (stream : List UInt8) (tasks : List Task) : List BarRef :=
  tasks.flatMap (barRefs stream)

/-- A destination reference writes the slot. -/
def Written (refs : List BarRef) (slot : Nat) : Prop :=
  ∃ r ∈ refs, r.addr = tdDst ∧ r.slot = slot

/-- A reference through the register `addr` reads the slot. -/
def Reads (refs : List BarRef) (addr slot : Nat) : Prop :=
  ∃ r ∈ refs, r.addr = addr ∧ r.slot = slot

/-- A reference through the register `addr` reads the slot, and no destination
reference before it writes it. -/
def EarlyRead (refs : List BarRef) (addr slot : Nat) : Prop :=
  ∃ before r after, refs = before ++ r :: after ∧ r.addr = addr ∧
    r.slot = slot ∧ ¬ Written before slot

/-- The references through source B to a slot. -/
def readsB (refs : List BarRef) (slot : Nat) : List BarRef :=
  refs.filter fun r => r.addr == tdSrcB && r.slot == slot

section Concat

variable {done : List BarRef} {r : BarRef} {addr slot : Nat}

theorem reads_concat : Reads (done ++ [r]) addr slot ↔
      Reads done addr slot ∨ r.addr = addr ∧ r.slot = slot := by
  simp only [Reads, mem_append, mem_singleton, or_and_right, exists_or, exists_eq_left]

theorem written_concat : Written (done ++ [r]) slot ↔
      Written done slot ∨ r.addr = tdDst ∧ r.slot = slot :=
  reads_concat

theorem earlyRead_concat : EarlyRead (done ++ [r]) addr slot ↔ EarlyRead done addr slot ∨
        r.addr = addr ∧ r.slot = slot ∧ ¬ Written done slot := by
  constructor
  · rintro ⟨before, q, after, hsplit, haddr, hslot, hnot⟩
    rcases eq_nil_or_concat after with rfl | ⟨after, last, rfl⟩
    · obtain ⟨rfl, hlast⟩ := append_inj' hsplit rfl
      obtain rfl := singleton_inj.1 hlast
      exact .inr ⟨haddr, hslot, hnot⟩
    · rw [concat_eq_append, ← cons_append, ← append_assoc] at hsplit
      obtain ⟨rfl, -⟩ := append_inj' hsplit rfl
      exact .inl ⟨before, q, after, rfl, haddr, hslot, hnot⟩
  · rintro (⟨before, q, after, rfl, haddr, hslot, hnot⟩ | ⟨haddr, hslot, hnot⟩)
    · exact ⟨before, q, after ++ [r], by simp, haddr, hslot, hnot⟩
    · exact ⟨done, r, [], rfl, haddr, hslot, hnot⟩

theorem not_earlyRead_nil : ¬ EarlyRead [] addr slot := by
  rintro ⟨before, r, after, hsplit, -⟩
  exact append_ne_nil_of_right_ne_nil before (cons_ne_nil r after) hsplit.symm

end Concat

/-- Without a write every read is early. -/
theorem earlyRead_of_reads {refs : List BarRef} {addr : Nat} (hnot : ¬ Written refs slot) :
    EarlyRead refs addr slot ↔ Reads refs addr slot := by
  constructor
  · rintro ⟨before, r, after, rfl, haddr, hslot, -⟩
    exact ⟨r, by simp, haddr, hslot⟩
  · rintro ⟨r, hr, haddr, hslot⟩
    obtain ⟨before, after, rfl⟩ := append_of_mem hr
    refine ⟨before, r, after, rfl, haddr, hslot, ?_⟩
    rintro ⟨q, hq, hdst⟩
    exact hnot ⟨q, mem_append_left _ hq, hdst⟩

/-! ## The tables -/

/-- What the first pass knows after some references. -/
structure ScanSpec (done : List BarRef) (s : Scan) : Prop where
  hasDst : ∀ slot, s.hasDst slot = true ↔ Written done slot
  rankedA : ∀ slot, s.rankedA slot = true ↔ Reads done tdSrcA slot
  nodupA : s.srcA.Nodup
  memA : ∀ slot, slot ∈ s.srcA ↔ 1 < slot ∧ EarlyRead done tdSrcA slot
  memB : ∀ slot, slot ∈ s.srcB ↔ 1 < slot ∧ EarlyRead done tdSrcB slot
  countB : ∀ slot, 1 < slot → ¬ Written done slot →
    s.srcB.count slot = (readsB done slot).length

/-- The table of source offsets after a reference. -/
def Scan.addOffset (s : Scan) (r : BarRef) : Scan :=
  { s with src := setAt s.src r.slot ((s.src r.slot).add r.p0) }

/-- What a turn of the first pass can do. -/
theorem scanRecord_cases {s' : Scan} {r : BarRef} (h : scanRecord s r = .ok s') :
    r.addr = tdDst ∧ s' = { s with
        hasDst := setAt s.hasDst r.slot true
        dst := setAt s.dst r.slot ((s.dst r.slot).add r.p0) } ∨
      r.addr = tdSrcA ∧ s.rankedA r.slot = true ∧ s' = s.addOffset r ∨
      r.addr = tdSrcA ∧ s.rankedA r.slot = false ∧ s' = { s.addOffset r with
        srcA := if s.isInput r.slot then s.srcA ++ [r.slot] else s.srcA
        rankedA := setAt s.rankedA r.slot true } ∨
      r.addr = tdSrcB ∧ s' = { s.addOffset r with
        srcB := if s.isInput r.slot then s.srcB ++ [r.slot] else s.srcB } ∨
      (r.addr ≠ tdDst ∧ r.addr ≠ tdSrcA ∧ r.addr ≠ tdSrcB) ∧ s' = s := by
  simp only [scanRecord, bind_eq_ok, refuse_eq_ok, exists_const] at h
  obtain ⟨-, h⟩ := h
  split at h
  case isTrue hdst => exact .inl ⟨hdst, (pure_eq_ok.mp h).symm⟩
  case isFalse hdst =>
    split at h
    case isTrue hsrcA =>
      simp only [Scan.addSrcA] at h
      split at h
      case isTrue hranked =>
        exact .inr (.inl ⟨hsrcA, hranked, (Except.ok.inj h).symm⟩)
      case isFalse hranked =>
        simp only [bind_eq_ok, refuse_eq_ok, exists_const] at h
        exact .inr (.inr (.inl ⟨hsrcA, Bool.eq_false_iff.2 hranked, (pure_eq_ok.mp h.2).symm⟩))
    case isFalse hsrcA =>
      split at h
      case isTrue hsrcB =>
        simp only [Scan.addSrcB, bind_eq_ok, refuse_eq_ok, exists_const] at h
        exact .inr (.inr (.inr (.inl ⟨hsrcB, (pure_eq_ok.mp h.2).symm⟩)))
      case isFalse hsrcB =>
        exact .inr (.inr (.inr (.inr ⟨⟨hdst, hsrcA, hsrcB⟩, (pure_eq_ok.mp h).symm⟩)))

section Step

variable {done : List BarRef} {r : BarRef} {s : Scan}

theorem setAt_true_iff {f : Nat → Bool} {i j : Nat} :
    setAt f i true j = true ↔ f j = true ∨ i = j := by
  rw [setAt]
  by_cases hij : j = i
  · simp [hij]
  · rw [if_neg hij]
    exact ⟨Or.inl, fun h => h.resolve_right fun heq => hij heq.symm⟩

theorem ScanSpec.isInput_iff (h : ScanSpec done s) :
    s.isInput slot = true ↔ 1 < slot ∧ ¬ Written done slot := by
  rw [Scan.isInput, Bool.and_eq_true, decide_eq_true_iff, Bool.not_eq_true',
    ← h.hasDst, Bool.not_eq_true]

/-- A reference through another register is no read. -/
theorem reads_other {addr : Nat} (hne : r.addr ≠ addr) :
    (Reads (done ++ [r]) addr slot ↔ Reads done addr slot) ∧
      (EarlyRead (done ++ [r]) addr slot ↔ EarlyRead done addr slot) := by
  rw [reads_concat, earlyRead_concat]
  exact ⟨or_iff_left fun h => hne h.1, or_iff_left fun h => hne h.1⟩

theorem readsB_other (hne : r.addr ≠ tdSrcB) (slot : Nat) :
    readsB (done ++ [r]) slot = readsB done slot := by
  rw [readsB, filter_append]
  simp [readsB, hne]

/-- A list of slots that grows with the reference, if the slot is an input. -/
theorem mem_grow_iff (h : ScanSpec done s) {l : List Nat} {addr : Nat} (haddr : r.addr = addr)
    (hmem : ∀ slot, slot ∈ l ↔ 1 < slot ∧ EarlyRead done addr slot)
    (slot : Nat) :
    slot ∈ (if s.isInput r.slot then l ++ [r.slot] else l) ↔
      1 < slot ∧ EarlyRead (done ++ [r]) addr slot := by
  rw [earlyRead_concat, and_or_left, ← hmem]
  by_cases hin : s.isInput r.slot = true
  · rw [if_pos hin, mem_append, mem_singleton]
    rw [h.isInput_iff] at hin
    constructor
    · rintro (hl | rfl)
      · exact .inl hl
      · exact .inr ⟨hin.1, haddr, rfl, hin.2⟩
    · rintro (hl | ⟨-, -, hslot, -⟩)
      · exact .inl hl
      · exact .inr hslot.symm
  · rw [if_neg hin, or_iff_left]
    rintro ⟨hone, -, rfl, hnot⟩
    exact hin (h.isInput_iff.2 ⟨hone, hnot⟩)

theorem ScanSpec.step {s' : Scan} (h : ScanSpec done s)
    (hstep : scanRecord s r = .ok s') : ScanSpec (done ++ [r]) s' := by
  have hdstA : tdDst ≠ tdSrcA := by decide
  have hdstB : tdDst ≠ tdSrcB := by decide
  have hAB : tdSrcA ≠ tdSrcB := by decide
  rcases scanRecord_cases hstep with ⟨haddr, rfl⟩ | ⟨haddr, hranked, rfl⟩ |
    ⟨haddr, hranked, rfl⟩ | ⟨haddr, rfl⟩ | ⟨⟨hnd, hna, hnb⟩, rfl⟩
  · -- A destination.
    have hneA : r.addr ≠ tdSrcA := haddr ▸ hdstA
    have hneB : r.addr ≠ tdSrcB := haddr ▸ hdstB
    refine ⟨fun slot => ?_, fun slot => ?_, h.nodupA, fun slot => ?_,
      fun slot => ?_, fun slot hone hnot => ?_⟩
    · rw [setAt_true_iff, h.hasDst, written_concat, and_iff_right haddr]
    · rw [(reads_other hneA).1, h.rankedA]
    · rw [(reads_other hneA).2, h.memA]
    · rw [(reads_other hneB).2, h.memB]
    · rw [written_concat, not_or] at hnot
      rw [readsB_other hneB, h.countB slot hone hnot.1]
  · -- Source A, seen before.
    have hneD : r.addr ≠ tdDst := haddr ▸ hdstA.symm
    have hneB : r.addr ≠ tdSrcB := haddr ▸ hAB
    refine ⟨fun slot => ?_, fun slot => ?_, h.nodupA, fun slot => ?_,
      fun slot => ?_, fun slot hone hnot => ?_⟩
    · exact (h.hasDst slot).trans (reads_other hneD).1.symm
    · rw [reads_concat, ← h.rankedA, and_iff_right haddr]
      refine (or_iff_left_of_imp ?_).symm
      rintro rfl
      exact hranked
    · rw [earlyRead_concat, and_or_left, ← h.memA]
      refine (or_iff_left_of_imp ?_).symm
      rintro ⟨hone, -, rfl, hnot⟩
      exact (h.memA _).2 ⟨hone, (earlyRead_of_reads hnot).2 ((h.rankedA _).1 hranked)⟩
    · rw [(reads_other hneB).2]
      exact h.memB slot
    · rw [written_concat, not_or] at hnot
      rw [readsB_other hneB]
      exact h.countB slot hone hnot.1
  · -- Source A, for the first time.
    have hneD : r.addr ≠ tdDst := haddr ▸ hdstA.symm
    have hneB : r.addr ≠ tdSrcB := haddr ▸ hAB
    refine ⟨fun slot => ?_, fun slot => ?_, ?_, fun slot => ?_,
      fun slot => ?_, fun slot hone hnot => ?_⟩
    · exact (h.hasDst slot).trans (reads_other hneD).1.symm
    · rw [setAt_true_iff, h.rankedA, reads_concat, and_iff_right haddr]
    · have hnew : r.slot ∉ s.srcA := by
        intro hmem
        obtain ⟨before, q, after, rfl, hq, hslot, -⟩ := ((h.memA _).1 hmem).2
        have hseen := (h.rankedA r.slot).2 ⟨q, by simp, hq, hslot⟩
        rw [hranked] at hseen
        exact Bool.false_ne_true hseen
      change (if s.isInput r.slot then s.srcA ++ [r.slot] else s.srcA).Nodup
      split
      · exact nodup_append_comm.1 (nodup_cons.2 ⟨hnew, h.nodupA⟩)
      · exact h.nodupA
    · exact mem_grow_iff h haddr h.memA slot
    · rw [(reads_other hneB).2]
      exact h.memB slot
    · rw [written_concat, not_or] at hnot
      rw [readsB_other hneB]
      exact h.countB slot hone hnot.1
  · -- Source B.
    have hneD : r.addr ≠ tdDst := haddr ▸ hdstB.symm
    have hneA : r.addr ≠ tdSrcA := haddr ▸ hAB.symm
    refine ⟨fun slot => ?_, fun slot => ?_, h.nodupA, fun slot => ?_,
      fun slot => ?_, fun slot hone hnot => ?_⟩
    · exact (h.hasDst slot).trans (reads_other hneD).1.symm
    · rw [(reads_other hneA).1]
      exact h.rankedA slot
    · rw [(reads_other hneA).2]
      exact h.memA slot
    · exact mem_grow_iff h haddr h.memB slot
    · rw [written_concat, not_or] at hnot
      have hcount := h.countB slot hone hnot.1
      change (if s.isInput r.slot then s.srcB ++ [r.slot] else s.srcB).count slot = _
      rw [readsB, filter_append, length_append, ← readsB, ← hcount]
      by_cases hslot : r.slot = slot
      · rw [if_pos (h.isInput_iff.2 ⟨hslot ▸ hone, hslot ▸ hnot.1⟩), count_append]
        simp [hslot, haddr]
      · split
        · rw [count_append]
          simp [hslot]
        · simp [hslot]
  · -- Another register.
    refine ⟨fun slot => ?_, fun slot => ?_, h.nodupA, fun slot => ?_,
      fun slot => ?_, fun slot hone hnot => ?_⟩
    · exact (h.hasDst slot).trans (reads_other hnd).1.symm
    · rw [(reads_other hna).1, h.rankedA]
    · rw [(reads_other hna).2, h.memA]
    · rw [(reads_other hnb).2, h.memB]
    · rw [written_concat, not_or] at hnot
      rw [readsB_other hnb, h.countB slot hone hnot.1]

end Step

/-- What the first pass ends with. -/
theorem scan_spec {stream : List UInt8} {tasks : List Task}
    (h : walkTasks scanRecord stream tasks {} = .ok s) :
    ScanSpec (streamRefs stream tasks) s := by
  refine foldlM_invariant (I := ScanSpec) (walkTasks_ok h) ?_
    fun hspec hstep => hspec.step hstep
  refine ⟨?_, ?_, nodup_nil, ?_, ?_, ?_⟩
  · intro slot
    simp [Written]
  · intro slot
    simp [Reads]
  · intro slot
    simp [not_earlyRead_nil]
  · intro slot
    simp [not_earlyRead_nil]
  · intro slot _ _
    rfl

/-! ## The written slots -/

/-- `slot_rank_srcA`, as the ranking loop writes it. -/
def Scan.rankA (s : Scan) (slot : Nat) : Option Nat := rankIn 0 s.slotsA slot

/-- `slot_rank_srcB`. -/
def Scan.rankB (s : Scan) (slot : Nat) : Option Nat := rankIn 0 s.slotsB slot

/-- The slot is in no list and has no rank. -/
structure NoInput (s : Scan) (slot : Nat) : Prop where
  srcA : slot ∉ s.srcA
  srcB : slot ∉ s.srcB
  rankA : s.rankA slot = none
  rankB : s.rankB slot = none
  blendRank : s.blendRank slot = none

theorem mem_slotsA : slot ∈ s.slotsA ↔ slot ∈ s.srcA := (sortBy_perm id s.srcA).mem_iff

theorem mem_slotsB : slot ∈ s.slotsB ↔ slot ∈ s.srcB := (sortBy_perm id s.srcB).mem_iff

/-- The slots in the order of the blend ranks. -/
def Scan.blendOrder (s : Scan) : List Nat :=
  s.slotsB.reverse.filter (fun b => decide (1 < b)) ++ s.slotsA

theorem blendRank_eq (s : Scan) (slot : Nat) : s.blendRank slot = rankIn 5 s.blendOrder slot := rfl

theorem noInput_iff : NoInput s slot ↔ slot ∉ s.srcA ∧ slot ∉ s.srcB := by
  constructor
  · intro h
    exact ⟨h.srcA, h.srcB⟩
  · rintro ⟨hA, hB⟩
    refine ⟨hA, hB, ?_, ?_, ?_⟩
    · rw [Scan.rankA, rankIn_eq_none_iff, mem_slotsA]
      exact hA
    · rw [Scan.rankB, rankIn_eq_none_iff, mem_slotsB]
      exact hB
    · rw [blendRank_eq, rankIn_eq_none_iff, Scan.blendOrder, mem_append,
        mem_filter, mem_reverse, mem_slotsA, mem_slotsB, not_or]
      exact ⟨fun h => hB h.1, hA⟩

/-- The written slots are no inputs exactly if none of them, kernel slots
apart, is read through a source register before it is written. -/
theorem written_not_input_iff {stream : List UInt8} {tasks : List Task}
    {s : Scan} (h : walkTasks scanRecord stream tasks {} = .ok s) :
    (∀ slot, Written (streamRefs stream tasks) slot → NoInput s slot) ↔
      ∀ slot, 1 < slot → Written (streamRefs stream tasks) slot →
        ¬ EarlyRead (streamRefs stream tasks) tdSrcA slot ∧
          ¬ EarlyRead (streamRefs stream tasks) tdSrcB slot := by
  have hspec := scan_spec h
  simp only [noInput_iff, hspec.memA, hspec.memB]
  constructor
  · intro hall slot hone hwritten
    obtain ⟨hA, hB⟩ := hall slot hwritten
    exact ⟨fun hread => hA ⟨hone, hread⟩, fun hread => hB ⟨hone, hread⟩⟩
  · intro hall slot hwritten
    exact ⟨fun hread => (hall slot hread.1 hwritten).1 hread.2,
      fun hread => (hall slot hread.1 hwritten).2 hread.2⟩

/-- A stream of one task with the given references, register and slot each. -/
def refStream (refs : List (Nat × Nat)) : List UInt8 :=
  zeros 32 ++ refs.flatMap fun r =>
    putLe32 (zeros 8) 0 (0x20000000 + r.2 <<< 23 + r.1 / 4)

/-- The task of the stream. -/
def refTask (refs : List (Nat × Nat)) : Task :=
  { off := 0, words := 8 + 2 * refs.length }

/-- Slot 3 is written and then read, slot 5 is an input. -/
def writtenFirst : List (Nat × Nat) := [(tdDst, 3), (tdSrcA, 3), (tdSrcA, 5)]

/-- Slot 5 is read and then written. -/
def readFirst : List (Nat × Nat) := [(tdSrcA, 5), (tdDst, 5)]

theorem written_not_input_after :
    ∃ s, walkTasks scanRecord (refStream writtenFirst) [refTask writtenFirst] {} = .ok s ∧
      ∀ slot, 1 < slot → Written (streamRefs (refStream writtenFirst) [refTask writtenFirst]) slot →
        ¬ EarlyRead (streamRefs (refStream writtenFirst) [refTask writtenFirst]) tdSrcA slot := by
  have hscan : (walkTasks scanRecord (refStream writtenFirst)
      [refTask writtenFirst] {}).map (fun s => (s.srcA, s.srcB)) =
      .ok ([5], []) := by decide +kernel
  have hrefs : streamRefs (refStream writtenFirst) [refTask writtenFirst] =
      [⟨3, tdDst, 0, false⟩, ⟨3, tdSrcA, 0, false⟩, ⟨5, tdSrcA, 0, false⟩] := by
    decide +kernel
  cases hres : walkTasks scanRecord (refStream writtenFirst)
      [refTask writtenFirst] {} with
  | error e => simp [hres, Except.map] at hscan
  | ok s =>
    rw [hres] at hscan
    obtain ⟨hA, hB⟩ := Prod.mk.inj (Except.ok.inj hscan)
    refine ⟨s, rfl, ?_⟩
    intro slot hone hwritten
    refine ((written_not_input_iff hres).1 ?_ slot hone hwritten).1
    intro slot hwritten
    have hslot : slot = 3 := by
      rw [hrefs] at hwritten
      simpa [Written, tdDst, tdSrcA, eq_comm] using hwritten
    rw [noInput_iff, hA, hB, hslot]
    decide

/-- A slot that is read first and written later is taken for an input. -/
theorem read_before_write :
    ∃ s, walkTasks scanRecord (refStream readFirst) [refTask readFirst] {} = .ok s ∧
      Written (streamRefs (refStream readFirst) [refTask readFirst]) 5 ∧
      5 ∈ s.srcA ∧ s.rankA 5 = some 0 := by
  have hscan : (walkTasks scanRecord (refStream readFirst)
      [refTask readFirst] {}).map (fun s => (s.srcA, s.rankA 5)) =
      .ok ([5], some 0) := by decide +kernel
  have hrefs : ⟨5, tdDst, 0, false⟩ ∈
      streamRefs (refStream readFirst) [refTask readFirst] := by decide +kernel
  cases hres : walkTasks scanRecord (refStream readFirst)
      [refTask readFirst] {} with
  | error e => simp [hres, Except.map] at hscan
  | ok s =>
    rw [hres] at hscan
    obtain ⟨hA, hrank⟩ := Prod.mk.inj (Except.ok.inj hscan)
    refine ⟨s, rfl, ⟨_, hrefs, rfl, rfl⟩, ?_, hrank⟩
    rw [hA]
    exact mem_singleton_self 5

end OmarchyAne.Libane
