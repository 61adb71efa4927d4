import OmarchyAne.Libane.DeriveSound

/-!
# The scratch buffer of the derived build

A slot whose first references in two tasks have different tags becomes a slot
of the scratch.  The merge asks for registers that are eligible, and every
register with a role is (`scratch_eligible_addr`).  So it also merges a slot
that a task reads first, which `merge_justified_iff` states.

The scratch is sized by its lowest slot.  `scratch_covers_iff` says when this
is enough for the other slots.
-/

namespace OmarchyAne.Libane

open Lib List

/-! ## The slots that a conflict retags -/

/-- The reference disagrees with the union. -/
def Union.conflicts (u : Union) (r : TaskRef) : Bool :=
  (u.refs.find? (fun e => e.slot == r.slot)).any (fun e => e.tag != r.tag)

/-- A turn of the union loop, and the slots that were retagged so far. -/
def unionRefLog (scratch t : Nat) (s : Union × List Nat) (r : TaskRef) :
    Res (Union × List Nat) := do
  let u ← unionRef scratch t s.1 r
  return (u, if s.1.conflicts r then s.2 ++ [r.slot] else s.2)

/-- The first reference of each task at a slot. -/
def firstRefs (stream : List UInt8) (tasks : List Task) (slot : Nat) :
    List BarRef :=
  tasks.filterMap (fun t => (barRefs stream t).find? (fun r => r.slot == slot))

section Merge

variable {io : List Io} {scratch : Nat} {s : Scan} {stream : List UInt8} {tasks : List Task}
  {t : Task} {refs : List TaskRef} {k : Nat} {u u' : Union × List Nat} {r : TaskRef} {slot : Nat}
  {refsAt : Nat → List TaskRef}

/-- The reference with the tag that it gets. -/
def taggedRef (io : List Io) (scratch : Nat) (s : Scan) (r : BarRef) :
    TaskRef where
  slot := r.slot
  tag := ((refTag io scratch s r).toOption).getD 0
  addr := r.addr

/-- What the loop knows of a slot with these references so far. -/
def SlotLog (refs : List TaskRef) (found : Option TaskRef) (inLog : Prop) :
    Prop :=
  match refs with
  | [] => found = none ∧ ¬inLog
  | first :: rest => ∃ e, found = some e ∧ e.addr = first.addr ∧
    (inLog ↔ ∃ q ∈ rest, q.tag ≠ first.tag) ∧ (¬inLog → e.tag = first.tag) ∧
    (inLog → scratchEligibleAddr first.addr = true)

/-- The log of the union loop, from the references at each slot so far. -/
def LogSpec (refsAt : Nat → List TaskRef) (u : Union × List Nat) : Prop :=
  ∀ slot, SlotLog (refsAt slot)
    (u.1.refs.find? (fun e => e.slot == slot)) (slot ∈ u.2)

theorem unionRefLog_ok (h : unionRefLog scratch k u r = .ok u') :
    unionRef scratch k u.1 r = .ok u'.1 ∧
      u'.2 = if u.1.conflicts r then u.2 ++ [r.slot] else u.2 := by
  simp only [unionRefLog, bind_eq_ok, pure_eq_ok] at h
  obtain ⟨u₁, hunion, rfl⟩ := h
  exact ⟨hunion, rfl⟩

/-- A reference at another slot does not matter for a slot. -/
theorem unionRefLog_other (h : unionRefLog scratch k u r = .ok u') (hne : r.slot ≠ slot) :
    u'.1.refs.find? (fun e => e.slot == slot) = u.1.refs.find? (fun e => e.slot == slot) ∧
      (slot ∈ u'.2 ↔ slot ∈ u.2) := by
  obtain ⟨hunion, hlog⟩ := unionRefLog_ok h
  constructor
  · obtain ⟨-, hu⟩ | ⟨e, -, ⟨-, hu⟩ | ⟨-, -, hu⟩⟩ := unionRef_cases hunion
    · rw [hu, find?_append]
      simp [hne]
    · rw [hu]
    · rw [hu, Union.merge_find_ne _ _ hne]
  · rw [hlog]
    split
    · simp [Ne.symm hne]
    · rfl

/-- A turn of the loop, for the slot that it is about. -/
theorem SlotLog.step (h : unionRefLog scratch k u r = .ok u')
    (hslot : SlotLog refs (u.1.refs.find? (fun e => e.slot == r.slot)) (r.slot ∈ u.2)) :
    SlotLog (refs ++ [r]) (u'.1.refs.find? (fun e => e.slot == r.slot)) (r.slot ∈ u'.2) := by
  obtain ⟨hunion, hlog⟩ := unionRefLog_ok h
  unfold Union.conflicts at hlog
  cases refs with
  | nil =>
    obtain ⟨hnone, hnot⟩ := hslot
    obtain ⟨-, hu⟩ | ⟨e, hfound, -⟩ := unionRef_cases hunion
    · refine ⟨r, ?_, rfl, ?_, fun _ => rfl, ?_⟩
      · rw [hu, find?_append, hnone]
        simp
      · rw [hlog, hnone]
        simpa using hnot
      · rw [hlog, hnone]
        exact fun hin => absurd hin hnot
    · rw [hnone] at hfound
      exact absurd hfound nofun
  | cons first rest =>
    obtain ⟨e, hfound, haddr, hin, htag, helig⟩ := hslot
    rw [hfound] at hlog
    have he : e.slot = r.slot := by simpa using find?_some hfound
    obtain ⟨hnone, -⟩ | ⟨e', hfound', hcase⟩ := unionRef_cases hunion
    · rw [hfound] at hnone
      exact absurd hnone nofun
    obtain rfl := Option.some.inj (hfound.symm.trans hfound')
    obtain ⟨hsame, hu⟩ | ⟨hdiff, helig', hu⟩ := hcase
    · -- The tags agree, so the log stays.
      have hlog' : u'.2 = u.2 := by simpa [hsame] using hlog
      rw [hlog', hu]
      refine ⟨e, hfound, haddr, ?_, htag, helig⟩
      rw [hin]
      constructor
      · rintro ⟨q, hq, hne⟩
        exact ⟨q, mem_append_left _ hq, hne⟩
      · rintro ⟨q, hq, hne⟩
        obtain hq | hq := mem_append.mp hq
        · exact ⟨q, hq, hne⟩
        · obtain rfl := mem_singleton.mp hq
          by_contra hnone
          exact hne (hsame ▸ htag (fun hmem => hnone (hin.mp hmem)))
    · have hmem : r.slot ∈ u'.2 := by
        rw [hlog]
        simp [hdiff]
      refine ⟨{ e with tag := scratch }, ?_, haddr, ⟨fun _ => ?_,
        fun _ => hmem⟩, fun hnot => absurd hmem hnot, fun _ => haddr ▸ helig'⟩
      · rw [hu, Union.merge_find, hfound]
        simp [he]
      · -- Either the slot was in the log, or its tag is the first one.
        by_cases hwas : r.slot ∈ u.2
        · obtain ⟨q, hq, hne⟩ := hin.mp hwas
          exact ⟨q, mem_append_left _ hq, hne⟩
        · exact ⟨r, mem_append_right _ (mem_singleton.mpr rfl),
            fun heq => hdiff ((htag hwas).trans heq.symm)⟩

theorem LogSpec.step (hspec : LogSpec refsAt u) (h : unionRefLog scratch k u r = .ok u') :
    LogSpec (fun slot => refsAt slot ++ if r.slot = slot then [r] else []) u' := by
  intro slot
  by_cases hslot : r.slot = slot
  · subst hslot
    simpa using (hspec r.slot).step h
  · obtain ⟨hfind, hlog⟩ := unionRefLog_other h hslot
    simpa [hslot, hfind, hlog] using hspec slot

theorem LogSpec.task (hspec : LogSpec refsAt u)
    (hrefs : FirstRefs (taggedRef io scratch s) (barRefs stream t) refs)
    (h : refs.foldlM (unionRefLog scratch k) u = .ok u') :
    LogSpec (fun slot => refsAt slot ++
      (firstRefs stream [t] slot).map (taggedRef io scratch s)) u' := by
  have hloop : LogSpec (fun slot => refsAt slot ++
      refs.filter (fun e => e.slot == slot)) u' := by
    refine foldlM_invariant (I := fun done u => LogSpec (fun slot =>
      refsAt slot ++ done.filter (fun e => e.slot == slot)) u) h
      (by simpa using hspec) ?_
    intro done u₁ r u₂ hdone hstep
    have := hdone.step hstep
    convert this using 2 with slot
    rw [filter_append, append_assoc]
    by_cases hslot : r.slot = slot <;> simp [hslot]
  convert hloop using 3 with slot
  rw [filter_key hrefs.nodup, hrefs.find, firstRefs, filterMap_cons, filterMap_nil]
  cases (barRefs stream t).find? (fun r => r.slot == slot) <;> rfl

end Merge

/-- A file with one input and one output of a tile each, and two tasks with
two records each.  The second record of the first task has the payload `p`,
the others 0. -/
def twoTaskAnec (a b c d p : Nat) : List UInt8 :=
  let h := putLe64 (zeros anecHeaderSize) 0x00 128
  let h := putLe64 (putLe32 (putLe32 h 0x08 48) 0x0c 2) 0x10 112
  let h := putLe32 (putLe32 h 0x20 1) 0x24 1
  let h := putLe32 (putLe32 h (0x28 + 4 * 4) 1) (0x28 + 5 * 4) 1
  let s := putLe32 (putLe32 (zeros 128) 16 0xc0000) 64 0xc0000
  let s := putLe32 (putLe32 s (16 + 8 * 4) a) (16 + 10 * 4) b
  let s := putLe32 (putLe32 s (64 + 8 * 4) c) (64 + 10 * 4) d
  h ++ putLe32 s (16 + 11 * 4) p

/-- The first task reads slot 4 at source A, the second one writes it. -/
def readFirstAnec : List UInt8 :=
  twoTaskAnec 0x22000444 0x20000640 0x22000542 0x20000640 0

section Size

variable {calloc : Nat → Bool} {anec : List UInt8} {m : Model} {secs : Sections} {io : List Io}
  {refs : List Ref} {p slot : Nat}

/-- The first payload word of a record. -/
def recordPayload (stream : List UInt8) (t : Task) (idx : Nat) : Nat :=
  le32 stream (t.off + (idx + 1) * 4)

/-- The size of a scratch whose largest payload word is `p`, with the guard
page. -/
def scratchRoom (p out : Nat) : Nat :=
  (p + out + 0x3fff) / 0x4000 * 0x4000 + 0x4000

/-- The emitted scratch is larger than the payload word by the size of the
output. -/
def ScratchHolds (secs : Sections) (p : Nat) : Prop :=
  ∃ out size, (4, out) ∈ genericIo (secs 0).val ∧
    (scratchBufid, size) ∈ genericIo (secs 0).val ∧ p + out ≤ size

/-- Every record at a slot of the scratch has a record at the lowest such
slot whose payload word, rounded up to tiles, makes the scratch large
enough. -/
def ScratchFits (anec : List UInt8) : Prop :=
  ∀ t idx, BarRecord (taskStream anec) t idx →
    slotTag anec (recordSlot (taskStream anec) t idx) = some scratchBufid →
    ∃ t' idx', BarRecord (taskStream anec) t' idx' ∧
      scratchSlot anec = some (recordSlot (taskStream anec) t' idx') ∧
      recordPayload (taskStream anec) t idx + channelSize anec 4 ≤
        scratchRoom (recordPayload (taskStream anec) t' idx')
          (channelSize anec 4)

theorem scratchRoom_mono {q : Nat} (h : p ≤ q) (out : Nat) :
    scratchRoom p out ≤ scratchRoom q out := by
  unfold scratchRoom
  omega

/-- The largest payload word at one slot. -/
theorem foldl_reach {slot : Option Nat} (l : List BarRef) (b : Nat) :
    let most := l.foldl (fun most r =>
      if some r.slot = slot then max most r.p0 else most) b
    (∀ r ∈ l, some r.slot = slot → r.p0 ≤ most) ∧ b ≤ most ∧
      (most = b ∨ ∃ r ∈ l, some r.slot = slot ∧ r.p0 = most) := by
  induction l generalizing b with
  | nil => exact ⟨nofun, Nat.le_refl b, .inl rfl⟩
  | cons r l ih =>
    obtain ⟨hall, hle, hcase⟩ := ih (if some r.slot = slot then max b r.p0 else b)
    have hb : b ≤ if some r.slot = slot then max b r.p0 else b := by
      split <;> omega
    refine ⟨?_, hb.trans hle, ?_⟩
    · intro q hq hslot
      obtain rfl | hq := mem_cons.mp hq
      · rw [if_pos hslot] at hle
        rw [foldl_cons, if_pos hslot]
        exact (Nat.le_max_right _ _).trans hle
      · exact hall q hq hslot
    · obtain heq | ⟨q, hq, hslot, heq⟩ := hcase
      · rw [foldl_cons, heq]
        by_cases hslot : some r.slot = slot
        · rw [if_pos hslot]
          obtain hmax | hmax := Nat.le_total b r.p0
          · exact .inr ⟨r, List.mem_cons_self, hslot, by omega⟩
          · exact .inl (by omega)
        · exact .inl (if_neg hslot)
      · exact .inr ⟨q, List.mem_cons_of_mem _ hq, hslot, heq⟩

/-- A record of a task is a reference of the scan. -/
theorem Derived.mem_flatMap (h : Derived anec m secs io refs) {r : BarRef} :
    r ∈ (streamTasks anec).flatMap (barRefs (taskStream anec)) ↔
      ∃ t idx, BarRecord (taskStream anec) t idx ∧ refAt (taskStream anec) t idx = r := by
  rw [List.mem_flatMap]
  constructor
  · rintro ⟨t, ht, hr⟩
    obtain ⟨idx, hvisited, hinside, hbar, heq⟩ := mem_barRefs.mp hr
    exact ⟨t, idx, ⟨(h.tasks t).mp ht, hvisited, hinside, hbar⟩, heq⟩
  · rintro ⟨t, idx, hrec, heq⟩
    exact ⟨t, (h.tasks t).mpr hrec.task, mem_barRefs.mpr
      ⟨idx, hrec.visited, hrec.inside, hrec.bar, heq⟩⟩

/-- A record at the lowest slot of the scratch has the largest payload
word. -/
theorem Derived.scratchReach_spec (h : Derived anec m secs io refs)
    (hslot : scratchSlot anec = some slot) :
    (∀ t idx, BarRecord (taskStream anec) t idx → recordSlot (taskStream anec) t idx = slot →
      recordPayload (taskStream anec) t idx ≤ scratchReach anec) ∧
    ∃ t idx, BarRecord (taskStream anec) t idx ∧ recordSlot (taskStream anec) t idx = slot ∧
      recordPayload (taskStream anec) t idx = scratchReach anec := by
  obtain ⟨hall, -, hcase⟩ := @foldl_reach (scratchSlot anec)
    ((streamTasks anec).flatMap (barRefs (taskStream anec))) 0
  have hle : ∀ t idx, BarRecord (taskStream anec) t idx →
      recordSlot (taskStream anec) t idx = slot →
      recordPayload (taskStream anec) t idx ≤ scratchReach anec := by
    intro t idx hrec hat
    refine hall (refAt (taskStream anec) t idx) (h.mem_flatMap.mpr ⟨t, idx, hrec, rfl⟩) ?_
    rw [hslot]
    exact congrArg some hat
  refine ⟨hle, ?_⟩
  obtain hzero | ⟨r, hr, hat, heq⟩ := hcase
  · -- The slot has a record, whose payload word is then zero.
    have htag : slotTag anec slot = some scratchBufid := by
      simpa using (find?_range_eq_some.mp hslot).1
    obtain ⟨t, ht, r, hr, hrs⟩ := mergeTags_slotTags.mp ⟨_, htag⟩
    obtain ⟨t, idx, hrec, rfl⟩ := h.mem_flatMap.mp (List.mem_flatMap.mpr ⟨t, ht, hr⟩)
    refine ⟨t, idx, hrec, hrs, ?_⟩
    have hreach : scratchReach anec = 0 := hzero
    have := hle t idx hrec hrs
    omega
  · obtain ⟨t, idx, hrec, rfl⟩ := h.mem_flatMap.mp hr
    rw [hslot] at hat
    exact ⟨t, idx, hrec, Option.some.inj hat, heq⟩

/-- The lowest slot of the scratch exists if there is one at all. -/
theorem Derived.exists_scratchSlot (h : Derived anec m secs io refs)
    (hslot : slotTag anec slot = some scratchBufid) :
    ∃ low, scratchSlot anec = some low := by
  have hmem := (h.spec.mem slot scratchBufid).mpr hslot
  cases hfind : refs.find? (fun r => r.tag == scratchBufid) with
  | none => exact absurd (BEq.rfl) (find?_eq_none.mp hfind _ hmem)
  | some r => exact ⟨r.slot, h.scratchSlot_eq hfind⟩

theorem Derived.output_mem (h : Derived anec m secs io refs) : channelEntry anec 1 4 ∈ m.io := by
  obtain ⟨n, used, index, hout, hscratch⟩ := h.scratch
  have hmem := mem_of_getElem? hout
  obtain ⟨-, heq⟩ | ⟨r, -, size, -, heq⟩ := addScratch_ok hscratch hout
  · exact heq ▸ hmem
  · exact heq ▸ mem_append_left _ hmem

theorem Derived.scratchHolds_iff (h : Derived anec m secs io refs)
    (hslot : slotTag anec slot = some scratchBufid) :
    ScratchHolds secs p ↔ p + channelSize anec 4 ≤
      scratchRoom (scratchReach anec) (channelSize anec 4) := by
  have hgeneric : genericIo (secs 0).val =
      m.io.map (fun io => (io.bufferId, io.size)) := by
    rw [h.generic, genericIo_section h.fits]
  have hroom : tagRoom anec scratchBufid =
    scratchRoom (scratchReach anec) (channelSize anec 4) := rfl
  have hsize : ∀ id size, (id, size) ∈ genericIo (secs 0).val → size = tagRoom anec id := by
    intro id size hmem
    rw [hgeneric] at hmem
    obtain ⟨c, hc, heq⟩ := mem_map.mp hmem
    cases heq
    exact (h.io_room hc).1
  constructor
  · rintro ⟨out, size, hout, hscratch, hle⟩
    obtain rfl := hsize _ _ hout
    obtain rfl := hsize _ _ hscratch
    exact hle
  · intro hle
    have hmem := (h.spec.mem slot scratchBufid).mpr hslot
    refine ⟨channelSize anec 4, _, ?_, ?_, hroom ▸ hle⟩
    · rw [hgeneric]
      exact mem_map.mpr ⟨_, h.output_mem, rfl⟩
    · obtain htwo | hin := (h.bufferSize_iff hmem).mpr rfl
      · exact absurd htwo.1 (show scratchBufid ≠ 2 by decide)
      · exact hin

/-- The scratch of an accepted file covers every record at its slots exactly
if the records at its lowest slot reach far enough for the others. -/
theorem scratch_covers_iff (h : programBuild calloc anec = .ok (m, secs)) :
    (∀ t idx, BarRecord (taskStream anec) t idx →
      { slot := recordSlot (taskStream anec) t idx, tag := scratchBufid } ∈
        operationRefs (secs 3).val 0 →
      ScratchHolds secs (recordPayload (taskStream anec) t idx)) ↔
    ScratchFits anec := by
  obtain ⟨io, refs, hd⟩ := programBuild_derived h
  simp only [hd.operationRefs_eq, hd.spec.mem]
  constructor
  · intro hall t idx hrec htag
    obtain ⟨low, hlow⟩ := hd.exists_scratchSlot htag
    obtain ⟨t', idx', hrec', hat, hreach⟩ := (hd.scratchReach_spec hlow).2
    refine ⟨t', idx', hrec', hat ▸ hlow, ?_⟩
    rw [hreach]
    exact (hd.scratchHolds_iff htag).mp (hall t idx hrec htag)
  · intro hfits t idx hrec htag
    obtain ⟨t', idx', hrec', hlow, hle⟩ := hfits t idx hrec htag
    have hreach := (hd.scratchReach_spec hlow).1 t' idx' hrec' rfl
    exact (hd.scratchHolds_iff htag).mpr (hle.trans (scratchRoom_mono hreach _))

theorem scratch_covers_readFirst :
    ∃ m secs, programBuild (fun _ => true) readFirstAnec = .ok (m, secs) ∧
      ∀ t idx, BarRecord (taskStream readFirstAnec) t idx →
        { slot := recordSlot (taskStream readFirstAnec) t idx,
          tag := scratchBufid } ∈ operationRefs (secs 3).val 0 →
        ScratchHolds secs (recordPayload (taskStream readFirstAnec) t idx) := by
  have hbuild : (programBuild (fun _ => true) readFirstAnec).map
      (fun r => operationRefs (r.2 3).val 0) =
      .ok [{ slot := 0, tag := 2 }, { slot := 4, tag := scratchBufid }] := by
    decide +kernel
  cases hres : programBuild (fun _ => true) readFirstAnec with
  | error e => simp [hres, Except.map] at hbuild
  | ok r =>
    rw [hres] at hbuild
    refine ⟨r.1, r.2, rfl, (scratch_covers_iff hres).mpr ?_⟩
    -- One slot is a slot of the scratch, so it is the lowest one.
    intro t idx hrec htag
    obtain ⟨io, refs, hd⟩ := programBuild_derived hres
    have hrefs : operationRefs (r.2 3).val 0 = _ := Except.ok.inj hbuild
    have hmem := (hd.spec.mem _ _).mpr htag
    rw [← hd.operationRefs_eq, hrefs] at hmem
    have hslot : recordSlot (taskStream readFirstAnec) t idx = 4 := by
      simpa [scratchBufid] using hmem
    refine ⟨t, idx, hrec, by rw [hslot]; decide +kernel, ?_⟩
    unfold scratchRoom
    omega

end Size

/-- Both slots of the file become slots of the scratch.  Slot 6 is written at
0x100000. -/
def twoScratchAnec : List UInt8 :=
  twoTaskAnec 0x22000542 0x23000542 0x22000640 0x23000640 0x100000

def twoScratchTask : Task := { off := 16, words := 12 }

theorem twoScratchTask_record : BarRecord (taskStream twoScratchAnec) twoScratchTask 10 where
  task := {
    fit := by decide +kernel
    words := by decide +kernel
    pos := by decide
    visited := .single (.filler (by decide +kernel) (by decide +kernel)) }
  visited := by
    have hfirst : firstRecord (taskStream twoScratchAnec) 16 = 8 := by
      decide +kernel
    show ReachesRecord _ _ (firstRecord (taskStream twoScratchAnec) 16) 10
    rw [hfirst]
    exact .single ⟨by decide, by decide +kernel⟩
  inside := by decide
  bar := by decide +kernel

/-- The build accepts the file with a scratch of 0x8000 bytes. -/
theorem scratch_too_small : ∃ m secs, programBuild (fun _ => true) twoScratchAnec = .ok (m, secs) ∧
      BarRecord (taskStream twoScratchAnec) twoScratchTask 10 ∧
      { slot := recordSlot (taskStream twoScratchAnec) twoScratchTask 10,
        tag := scratchBufid } ∈ operationRefs (secs 3).val 0 ∧
      recordPayload (taskStream twoScratchAnec) twoScratchTask 10 =
        0x100000 ∧
      ¬ ScratchHolds secs 0x100000 := by
  have hbuild : (programBuild (fun _ => true) twoScratchAnec).map
      (fun r => (operationRefs (r.2 3).val 0, genericIo (r.2 0).val)) =
      .ok ([{ slot := 4, tag := scratchBufid },
          { slot := 6, tag := scratchBufid }],
        [(5, 0x4000), (4, 0x4000), (scratchBufid, 0x8000)]) := by
    decide +kernel
  have hslot : recordSlot (taskStream twoScratchAnec) twoScratchTask 10 = 6 := by decide +kernel
  cases hres : programBuild (fun _ => true) twoScratchAnec with
  | error e => simp [hres, Except.map] at hbuild
  | ok r =>
    rw [hres] at hbuild
    obtain ⟨hrefs, hio⟩ := Prod.mk.inj (Except.ok.inj hbuild)
    refine ⟨r.1, r.2, rfl, twoScratchTask_record, ?_, by decide +kernel, ?_⟩
    · rw [hrefs, hslot]
      decide
    · rintro ⟨out, size, -, hsize, hle⟩
      rw [hio] at hsize
      simp [scratchBufid] at hsize
      omega

end OmarchyAne.Libane
