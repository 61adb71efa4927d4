import OmarchyAne.Libane.DeriveRefs
import OmarchyAne.Libane.PortsSound

/-!
# Bounds in the derived build

The derived build binds every slot that the task stream refers to.  It never
compares an offset of the stream with the size of the buffer that it binds,
the way `check_bound_slots` does for a port table.  So the references of an
accepted file stay inside their buffers exactly when the file itself keeps
them there (`OffsetsFit`).

That condition is stated on the file.  The registers that refer to a slot
give it a tag (`slotTag`), and the room behind a tag is a field of the header
or the size of the scratch (`tagRoom`).  The scratch is sized by its lowest
slot only.
-/

namespace OmarchyAne.Libane

open Lib List

variable {stream : List UInt8} {t : Task}

/-! ## The condition on the file -/

/-- The tasks of a file. -/
def streamTasks (anec : List UInt8) : List Task :=
  match splitH14Tasks (taskStream anec) maxTasks with
  | .ok tasks => tasks
  | .error _ => []

/-- What the first pass finds. -/
def scanOf (stream : List UInt8) (tasks : List Task) : Scan :=
  match walkTasks scanRecord stream tasks {} with
  | .ok s => s
  | .error _ => {}

/-- The source and destination slots of a file. -/
def streamScan (anec : List UInt8) : Scan := scanOf (taskStream anec) (streamTasks anec)

/-- The allocation of a channel: the tiles that the header gives it. -/
def channelSize (anec : List UInt8) (b : Nat) : Nat :=
  le32 anec (0x28 + b * 4) <<< 14

/-- The tag that the registers of a file give a slot. -/
def slotTag (anec : List UInt8) (slot : Nat) : Option Nat :=
  mergeTags (slotTags (streamScan anec) (channelSize anec 4)
    (taskStream anec) (streamTasks anec) slot)

/-- The lowest slot of the scratch. -/
def scratchSlot (anec : List UInt8) : Option Nat :=
  (List.range 64).find? (fun slot => slotTag anec slot == some scratchBufid)

/-- The largest first payload word at the lowest slot of the scratch. -/
def scratchReach (anec : List UInt8) : Nat :=
  ((streamTasks anec).flatMap (barRefs (taskStream anec))).foldl
    (fun most r =>
      if some r.slot = scratchSlot anec then max most r.p0 else most) 0

/-- The room behind a tag: the constant region, the scratch, or a channel. -/
def tagRoom (anec : List UInt8) (tag : Nat) : Nat :=
  if tag = 2 then le64 anec 0x18
  else if tag = scratchBufid then
    (scratchReach anec + channelSize anec 4 + 0x3fff) / 0x4000 * 0x4000 +
      0x4000
  else channelSize anec tag

/-- The file keeps the offset of every BAR reference below the room behind
the tag of its slot. -/
def OffsetsFit (anec : List UInt8) : Prop :=
  ∀ t idx, BarRecord (taskStream anec) t idx →
    ∀ tag, slotTag anec (recordSlot (taskStream anec) t idx) = some tag →
      recordOffset (taskStream anec) t idx < tagRoom anec tag

/-! ## The build -/

section Build

variable {calloc : Nat → Bool} {anec : List UInt8} {hdr : Header} {m : Model} {secs : Sections}
  {n : Nat} {tasks : List Task} {io : List Io} {refs : List Ref} {r : Ref} {c : Io}

/-- The io record of a channel. -/
def channelEntry (anec : List UInt8) (dir b : Nat) : Io where
  bufferId := b
  dir := dir
  size := channelSize anec b

theorem channelIo_ok {dir b : Nat} {io : Io} (h : channelIo anec dir b = .ok io) :
    io = channelEntry anec dir b ∧ channelSize anec b ≤ 2 ^ 34 := by
  simp only [channelIo, bind_eq_ok, refuse_eq_ok, pure_eq_ok, exists_const] at h
  obtain ⟨-, htiles, rfl⟩ := h
  refine ⟨rfl, ?_⟩
  rw [channelSize, Nat.shiftLeft_eq]
  omega

/-- The channels of a file: the inputs from 5 on, and the output. -/
theorem channelTable_ok (h : channelTable anec n = .ok io) :
    io = (List.range n).map (fun k => channelEntry anec 0 (5 + k)) ++
      [channelEntry anec 1 4] ∧ ∀ c ∈ io, c.size ≤ 2 ^ 34 := by
  simp only [channelTable, bind_eq_ok, pure_eq_ok] at h
  obtain ⟨inputs, hinputs, output, houtput, rfl⟩ := h
  obtain ⟨rfl, hout⟩ := channelIo_ok houtput
  obtain ⟨rfl, hin⟩ := mapM_eq_ok (fun hk => (channelIo_ok hk).1) hinputs
  refine ⟨rfl, ?_⟩
  intro c hc
  obtain hc | hc := mem_append.mp hc
  · obtain ⟨k, hk, rfl⟩ := mem_map.mp hc
    exact (channelIo_ok (hin k hk)).2
  · obtain rfl := mem_singleton.mp hc
    exact hout

theorem barRefs_bounds {r : BarRef} (h : r ∈ barRefs stream t) : r.slot < 64 ∧ r.p0 < 2 ^ 32 := by
  obtain ⟨idx, -, -, -, rfl⟩ := mem_barRefs.mp h
  exact ⟨Nat.lt_of_le_of_lt Nat.and_le_right (by decide), le32_lt _ _⟩

/-- What an accepted file passed, and its sections. -/
structure Derived (anec : List UInt8) (m : Model) (secs : Sections)
    (io : List Io) (refs : List Ref) : Prop where
  channels : ∃ n ≤ 3, io =
    (List.range n).map (fun k => channelEntry anec 0 (5 + k)) ++
      [channelEntry anec 1 4]
  sizes : ∀ c ∈ io, c.size ≤ 2 ^ 34
  tasks : ∀ t, t ∈ streamTasks anec ↔ IsTask (taskStream anec) t
  spec : RefsSpec (streamScan anec) (channelSize anec 4) io
    (taskStream anec) (streamTasks anec) refs
  calls : m.calls = [refs]
  scratch : ∃ n used index, io[n]? = some (channelEntry anec 1 4) ∧
    addScratch io n (taskStream anec) (streamTasks anec) refs used =
      .ok (m.io, index)
  kernel : (secs secKernel).val.length = le64 anec 0x18
  generic : (secs 0).val = genericSection m
  operation : (secs 3).val = operationSection m

theorem splitStream_ok {desc : List UInt8} (h : splitStream desc hdr = .ok tasks) :
    splitH14Tasks desc maxTasks = .ok tasks := by
  simp only [splitStream, bind_eq_ok] at h
  obtain ⟨tasks', hsplit, hrest⟩ := h
  cases tasks' with
  | nil => exact absurd hrest (by simp [fail])
  | cons first rest =>
    simp only [bind_eq_ok, refuse_eq_ok, pure_eq_ok] at hrest
    obtain ⟨_, -, _, -, rfl⟩ := hrest
    exact hsplit

theorem readDerivedHeader_ok (h : readDerivedHeader anec = .ok hdr) :
    hdr.tskSize = le64 anec 0x10 ∧ hdr.krnSize = le64 anec 0x18 ∧ hdr.inputCount ≤ 3 ∧
      hdr.krnSize ≤ (anec.drop anecHeaderSize).length := by
  simp only [readDerivedHeader, bind_eq_ok, refuse_eq_ok, pure_eq_ok, exists_const] at h
  obtain ⟨-, hpayload, -, hinputs, hkrn, -, -, rfl⟩ := h
  refine ⟨rfl, rfl, by show le32 anec 0x20 ≤ 3; omega, ?_⟩
  rw [length_drop]
  show le64 anec 0x18 ≤ _
  omega

/-- The channel table with its output at the end. -/
theorem channelTable_split
    (hio : io = (List.range n).map (fun k => channelEntry anec 0 (5 + k)) ++
      [channelEntry anec 1 4]) (hsize : ∀ c ∈ io, c.size ≤ 2 ^ 34) :
    IsChannelTable io (channelSize anec 4) ∧ io[n]? = some (channelEntry anec 1 4) := by
  subst hio
  refine ⟨⟨⟨_, rfl, ?_⟩, ?_⟩, by simp⟩
  · intro c hc
    obtain ⟨k, -, rfl⟩ := mem_map.mp hc
    rfl
  · have := hsize (channelEntry anec 1 4) (by simp)
    show (channelEntry anec 1 4).size < _
    omega

theorem programBuild_derived (h : programBuild calloc anec = .ok (m, secs)) :
    ∃ io refs, Derived anec m secs io refs := by
  simp only [programBuild, bind_eq_ok, refuse_eq_ok, pure_eq_ok, exists_const, Prod.exists] at h
  obtain ⟨hdr, hhdr, io, hio, -, desc, hdesc, -, tasks, hsplit, refs, used,
    hrefs, io', index, hscratch, kern, hkern, gen, oper, proc, tdp, hemit,
    heq⟩ := h
  cases heq
  obtain ⟨htsk, hkrn, hinputs, hfit⟩ := readDerivedHeader_ok hhdr
  obtain ⟨hio, hsizes⟩ := channelTable_ok hio
  obtain ⟨htable, houtput⟩ := channelTable_split hio hsizes
  obtain ⟨hgen, hoper⟩ := emitIoSections_sections hemit
  have hstream : desc.val = taskStream anec := by
    rw [secAlloc_eq_ok hdesc, htsk, taskStream]
  rw [hstream] at hrefs hscratch
  have hsplit := splitStream_ok hsplit
  rw [hstream] at hsplit
  have htasks : streamTasks anec = tasks := by rw [streamTasks, hsplit]
  obtain ⟨s, hscan, hspec⟩ := deriveRefs_spec htable hrefs
  have hs : streamScan anec = s := by rw [streamScan, scanOf, htasks, hscan]
  refine ⟨io, refs, {
    channels := ⟨_, hinputs, hio⟩
    sizes := hsizes
    tasks := fun t => by rw [htasks, mem_splitH14Tasks hsplit]
    spec := by rw [hs, htasks]; exact hspec
    calls := rfl
    scratch := ⟨_, used, index, houtput, by rw [htasks]; exact hscratch⟩
    kernel := ?_
    generic := hgen
    operation := hoper }⟩
  show kern.val.length = _
  rw [secAlloc_eq_ok hkern, length_drop, hkrn]
  omega

theorem scratchSizeBytes_ok {slot out size : Nat}
    (h : scratchSizeBytes stream tasks slot out = .ok size) :
    size = ((tasks.flatMap (barRefs stream)).foldl (fun most r =>
      if r.slot = slot then max most r.p0 else most) 0 + out + 0x3fff) / 0x4000 * 0x4000 := by
  simp only [scratchSizeBytes, bind_eq_ok, pure_eq_ok] at h
  obtain ⟨most, hmost, rfl⟩ := h
  have hfold := (foldlM_pure (m := Res)).symm.trans (walkTasks_ok hmost)
  rw [Except.ok.inj hfold]

/-- The io record of the scratch, with its guard page. -/
def scratchEntry (size : Nat) : Io where
  bufferId := scratchBufid
  dir := 2
  size := size + 0x4000

theorem addScratch_ok {io' : List Io} {used : Bool} {index : Option Nat} {out : Io}
    (h : addScratch io n stream tasks refs used = .ok (io', index)) (hout : io[n]? = some out) :
    refs.find? (fun r => r.tag == scratchBufid) = none ∧ io' = io ∨
      ∃ r, refs.find? (fun r => r.tag == scratchBufid) = some r ∧
        ∃ size, scratchSizeBytes stream tasks r.slot out.size = .ok size ∧
          io' = io ++ [scratchEntry size] := by
  unfold addScratch at h
  split at h
  case h_1 hnone =>
    split at h
    · exact absurd h (by simp [fail])
    · exact .inl ⟨hnone, (Prod.mk.inj (Except.ok.inj h)).1.symm⟩
  case h_2 r hfound =>
    simp only [hout, Option.map_some, Option.getD_some, bind_eq_ok,
      refuse_eq_ok, pure_eq_ok, exists_const, Prod.mk.injEq] at h
    obtain ⟨size, hsize, -, rfl, -⟩ := h
    exact .inr ⟨r, hfound, size, hsize, rfl⟩

/-- The reference whose slot sizes the scratch has the lowest slot of the
scratch. -/
theorem Derived.scratchSlot_eq (h : Derived anec m secs io refs)
    (hr : refs.find? (fun r => r.tag == scratchBufid) = some r) :
    scratchSlot anec = some r.slot := by
  obtain ⟨htag, front, back, hsplit, hfront⟩ :=
    find?_eq_some_iff_append.mp hr
  have htag : r.tag = scratchBufid := by simpa using htag
  have hmem : r ∈ refs := mem_of_find?_eq_some hr
  have hslot : slotTag anec r.slot = some scratchBufid := by
    rw [← htag]
    exact (h.spec.mem r.slot r.tag).mp hmem
  have hlow : r.slot < 64 := by
    obtain ⟨t, -, q, hq, hqs⟩ := mergeTags_slotTags.mp ⟨_, hslot⟩
    rw [← hqs]
    exact (barRefs_bounds hq).1
  rw [scratchSlot, find?_range_eq_some]
  refine ⟨by simp [hslot], by simpa using hlow, fun j hj => ?_⟩
  simp only [Bool.not_eq_true', beq_eq_false_iff_ne]
  intro hjtag
  -- A lower slot of the scratch would stand in front of `r`.
  have hjmem := (h.spec.mem j scratchBufid).mpr hjtag
  have hsorted := h.spec.sorted
  rw [hsplit] at hjmem hsorted
  rw [pairwise_append, pairwise_cons] at hsorted
  obtain hin | hin := mem_append.mp hjmem
  · simpa using hfront _ hin
  · obtain heq | hin := mem_cons.mp hin
    · have : j = r.slot := congrArg Ref.slot heq
      omega
    · have : r.slot < j := hsorted.2.1.1 _ hin
      omega

/-- The io table of an accepted file: its channels, and the scratch if a slot
has that tag. -/
theorem Derived.mem_io (h : Derived anec m secs io refs) :
    c ∈ m.io → c ∈ io ∨ c = scratchEntry ((scratchReach anec +
      channelSize anec 4 + 0x3fff) / 0x4000 * 0x4000) := by
  obtain ⟨n, used, index, hout, hscratch⟩ := h.scratch
  obtain ⟨-, heq⟩ | ⟨r, hr, size, hsize, heq⟩ := addScratch_ok hscratch hout
  · rw [heq]
    exact .inl
  · rw [heq, mem_append, mem_singleton, scratchReach, h.scratchSlot_eq hr]
    simp only [Option.some.injEq]
    rw [scratchSizeBytes_ok hsize]
    exact id

/-- The room that a record of the io table states. -/
theorem Derived.io_room (h : Derived anec m secs io refs) (hc : c ∈ m.io) :
    c.size = tagRoom anec c.bufferId ∧ c.bufferId ≠ 2 ∧ c.bufferId ≤ scratchBufid := by
  obtain hc | rfl := h.mem_io hc
  · obtain ⟨n, hn, rfl⟩ := h.channels
    have hchannel : ∀ {dir b}, 4 ≤ b → b < 8 →
        (channelEntry anec dir b).size = tagRoom anec b ∧ b ≠ 2 ∧
          b ≤ scratchBufid := by
      intro dir b hlo hhi
      unfold scratchBufid
      refine ⟨?_, by omega, by omega⟩
      rw [tagRoom, if_neg (by omega), if_neg (by unfold scratchBufid; omega)]
      rfl
    obtain hc | hc := mem_append.mp hc
    · obtain ⟨k, hk, rfl⟩ := mem_map.mp hc
      rw [mem_range] at hk
      exact hchannel (by omega) (by omega)
    · obtain rfl := mem_singleton.mp hc
      exact hchannel (by omega) (by omega)
  · refine ⟨rfl, ?_, le_rfl⟩
    show scratchBufid ≠ 2
    decide

theorem scratchReach_lt (anec : List UInt8) : scratchReach anec < 2 ^ 32 := by
  have hbound : ∀ l : List BarRef, (∀ r ∈ l, r.p0 < 2 ^ 32) → ∀ b < 2 ^ 32,
      l.foldl (fun most r => if some r.slot = scratchSlot anec then
        max most r.p0 else most) b < 2 ^ 32 := by
    intro l
    induction l with
    | nil => exact fun _ b hb => hb
    | cons r l ih =>
      intro hl b hb
      obtain ⟨hr, hl⟩ := forall_mem_cons.mp hl
      refine ih hl _ ?_
      beta_reduce
      split <;> omega
  refine hbound _ (fun r hr => ?_) 0 (by omega)
  obtain ⟨t, -, hr⟩ := mem_flatMap.mp hr
  exact (barRefs_bounds hr).2

theorem Derived.io_size_lt (h : Derived anec m secs io refs) (hc : c ∈ m.io) :
    c.size < 2 ^ 64 := by
  obtain hc | rfl := h.mem_io hc
  · have := h.sizes c hc
    omega
  · have hreach := scratchReach_lt anec
    have hout := h.sizes (channelEntry anec 1 4) (by
      obtain ⟨n, -, rfl⟩ := h.channels
      simp)
    change channelSize anec 4 ≤ _ at hout
    show _ + 0x4000 < _
    omega

theorem Derived.io_length (h : Derived anec m secs io refs) : m.io.length ≤ 5 := by
  obtain ⟨k, hk, hio⟩ := h.channels
  have hlen : io.length = k + 1 := by
    rw [hio]
    simp
  obtain ⟨n, used, index, hout, hscratch⟩ := h.scratch
  obtain ⟨-, heq⟩ | ⟨r, -, size, -, heq⟩ := addScratch_ok hscratch hout
  · rw [heq]
    omega
  · rw [heq, length_append]
    show io.length + 1 ≤ 5
    omega

theorem Derived.known (h : Derived anec m secs io refs) (hr : r ∈ refs) :
    r.tag = 2 ∨ ∃ c ∈ m.io, c.bufferId = r.tag := by
  have hknown := h.spec.known r hr
  simp only [knownTag, Bool.or_eq_true, Bool.and_eq_true, beq_iff_eq, any_eq_true] at hknown
  obtain ⟨n, used, index, hout, hscratch⟩ := h.scratch
  obtain ⟨hnone, heq⟩ | ⟨q, -, size, -, heq⟩ := addScratch_ok hscratch hout
  · rw [heq]
    obtain (htwo | ⟨-, hscr⟩) | hchannel := hknown
    · exact .inl htwo
    · exact absurd (beq_iff_eq.mpr hscr) (find?_eq_none.mp hnone r hr)
    · exact .inr hchannel
  · rw [heq]
    obtain (htwo | ⟨-, hscr⟩) | ⟨c, hc, hid⟩ := hknown
    · exact .inl htwo
    · exact .inr ⟨scratchEntry size, by simp, hscr.symm⟩
    · exact .inr ⟨c, mem_append_left _ hc, hid⟩

theorem Derived.fits (h : Derived anec m secs io refs) : m.Fits where
  ios := by
    have := h.io_length
    omega
  ids := by
    intro c hc
    have := (h.io_room hc).2.2
    unfold scratchBufid at this
    omega
  sizes := fun c hc => h.io_size_lt hc
  refs := by
    intro l hl
    rw [h.calls, mem_singleton] at hl
    subst hl
    have := h.spec.few
    unfold maxBinds at this
    omega
  slots := by
    intro l hl r hr
    rw [h.calls, mem_singleton] at hl
    subst hl
    obtain ⟨t, -, q, hq, hqs⟩ :=
      mergeTags_slotTags.mp ⟨_, (h.spec.mem r.slot r.tag).mp hr⟩
    have := (barRefs_bounds hq).1
    omega
  tags := by
    intro l hl r hr
    rw [h.calls, mem_singleton] at hl
    subst hl
    obtain htwo | ⟨c, hc, hid⟩ := h.known hr
    · omega
    · have := (h.io_room hc).2.2
      unfold scratchBufid at this
      omega

/-! ## References and buffers -/

/-- The emitted sections state this size for the buffer behind a tag: the
KERNEL section for tag 2, an io record otherwise. -/
def BufferSize (secs : Sections) (tag size : Nat) : Prop :=
  tag = 2 ∧ size = (secs secKernel).val.length ∨
    (tag, size) ∈ genericIo (secs 0).val

/-- The emitted sections bind the slot to a buffer, and the offset lies in
it. -/
def SlotHolds (secs : Sections) (slot off : Nat) : Prop :=
  ∃ tag size, { slot := slot, tag := tag } ∈ operationRefs (secs 3).val 0 ∧
    BufferSize secs tag size ∧ off < size

theorem Derived.operationRefs_eq (h : Derived anec m secs io refs) :
    operationRefs (secs 3).val 0 = refs := by
  have hone : 0 < m.calls.length := by simp [h.calls]
  rw [h.operation, operationRefs_section h.fits hone]
  simp [h.calls]

/-- The size behind the tag of a reference is the room that the file gives
it. -/
theorem Derived.bufferSize_iff (h : Derived anec m secs io refs) (hr : r ∈ refs) {size : Nat} :
    BufferSize secs r.tag size ↔ size = tagRoom anec r.tag := by
  have hgeneric : genericIo (secs 0).val =
      m.io.map (fun io => (io.bufferId, io.size)) := by
    rw [h.generic, genericIo_section h.fits]
  rw [BufferSize, hgeneric, mem_map]
  constructor
  · rintro (⟨htwo, rfl⟩ | ⟨c, hc, heq⟩)
    · rw [htwo, h.kernel]
      rfl
    · obtain ⟨hid, rfl⟩ := Prod.mk.inj heq
      rw [(h.io_room hc).1, hid]
  · rintro rfl
    obtain htwo | ⟨c, hc, hid⟩ := h.known hr
    · left
      refine ⟨htwo, ?_⟩
      rw [htwo, h.kernel]
      rfl
    · right
      exact ⟨c, hc, by rw [(h.io_room hc).1, hid]⟩

theorem Derived.slotHolds_iff (h : Derived anec m secs io refs) {slot off : Nat} :
    SlotHolds secs slot off ↔ ∃ tag, slotTag anec slot = some tag ∧ off < tagRoom anec tag := by
  rw [SlotHolds, h.operationRefs_eq]
  constructor
  · rintro ⟨tag, size, hmem, hsize, hoff⟩
    obtain rfl := (h.bufferSize_iff hmem).mp hsize
    exact ⟨tag, (h.spec.mem slot tag).mp hmem, hoff⟩
  · rintro ⟨tag, htag, hoff⟩
    have hmem := (h.spec.mem slot tag).mpr htag
    exact ⟨tag, _, hmem, (h.bufferSize_iff hmem).mpr rfl, hoff⟩

theorem Derived.exists_tag (h : Derived anec m secs io refs) {idx : Nat}
    (hrec : BarRecord (taskStream anec) t idx) :
    ∃ tag, slotTag anec (recordSlot (taskStream anec) t idx) = some tag :=
  mergeTags_slotTags.mpr ⟨t, (h.tasks t).mpr hrec.task, refAt (taskStream anec) t idx,
    mem_barRefs.mpr ⟨idx, hrec.visited, hrec.inside, hrec.bar, rfl⟩, rfl⟩

/-- The emitted OPERATION record binds the slot of every BAR reference to a
buffer.  The references lie inside these buffers exactly if the file keeps
their offsets below the room of their slots. -/
theorem programBuild_bounds (h : programBuild calloc anec = .ok (m, secs)) :
    (∀ t idx, BarRecord (taskStream anec) t idx → ∃ tag size,
      { slot := recordSlot (taskStream anec) t idx, tag := tag } ∈
        operationRefs (secs 3).val 0 ∧ BufferSize secs tag size) ∧
    ((∀ t idx, BarRecord (taskStream anec) t idx →
      SlotHolds secs (recordSlot (taskStream anec) t idx)
        (recordOffset (taskStream anec) t idx)) ↔ OffsetsFit anec) := by
  obtain ⟨io, refs, hd⟩ := programBuild_derived h
  constructor
  · intro t idx hrec
    obtain ⟨tag, htag⟩ := hd.exists_tag hrec
    have hmem := (hd.spec.mem _ tag).mpr htag
    refine ⟨tag, tagRoom anec tag, ?_, (hd.bufferSize_iff hmem).mpr rfl⟩
    rw [hd.operationRefs_eq]
    exact hmem
  · constructor
    · intro hholds t idx hrec tag htag
      obtain ⟨tag', htag', hoff⟩ := hd.slotHolds_iff.mp (hholds t idx hrec)
      obtain rfl := Option.some.inj (htag.symm.trans htag')
      exact hoff
    · intro hfit t idx hrec
      obtain ⟨tag, htag⟩ := hd.exists_tag hrec
      exact hd.slotHolds_iff.mpr ⟨tag, htag, hfit t idx hrec tag htag⟩

theorem programBuild_bounds_oneRef :
    ∃ m secs, programBuild (fun _ => true) (oneRefAnec 0x100) = .ok (m, secs) ∧
      ∀ t idx, BarRecord (taskStream (oneRefAnec 0x100)) t idx →
        SlotHolds secs (recordSlot (taskStream (oneRefAnec 0x100)) t idx)
          (recordOffset (taskStream (oneRefAnec 0x100)) t idx) := by
  have hbuild : (programBuild (fun _ => true) (oneRefAnec 0x100)).isOk =
    true := by decide +kernel
  cases hres : programBuild (fun _ => true) (oneRefAnec 0x100) with
  | error e => simp [hres, Except.isOk, Except.toBool] at hbuild
  | ok r =>
    refine ⟨r.1, r.2, rfl, (programBuild_bounds hres).2.mpr ?_⟩
    intro t idx hrec tag htag
    -- The stream has one task, and the task one record.
    obtain ⟨io, refs, hd⟩ := programBuild_derived hres
    have ht := (hd.tasks t).mpr hrec.task
    rw [show streamTasks (oneRefAnec 0x100) = [oneRefTask] by decide +kernel,
      mem_singleton] at ht
    subst ht
    have hidx := (mem_barIdxs (Nat.le_add_left _ _)).mpr ⟨hrec.visited, hrec.inside, hrec.bar⟩
    rw [show barIdxs (taskStream (oneRefAnec 0x100)) oneRefTask oneRefTask.words
      (firstRecord (taskStream (oneRefAnec 0x100)) oneRefTask.off) = [8] by decide +kernel,
      mem_singleton] at hidx
    subst hidx
    have hslot : slotTag (oneRefAnec 0x100)
        (recordSlot (taskStream (oneRefAnec 0x100)) oneRefTask 8) = some 4 := by decide +kernel
    obtain rfl := Option.some.inj (hslot.symm.trans htag)
    decide +kernel

/-- The build accepts a file whose one reference writes behind the output
buffer.  Its destination has 0x4000 bytes, and so has the offset. -/
theorem programBuild_overrun :
    ∃ m secs, programBuild (fun _ => true) (oneRefAnec 0x4000) = .ok (m, secs) ∧
      BarRecord (taskStream (oneRefAnec 0x4000)) oneRefTask 8 ∧
      recordSlot (taskStream (oneRefAnec 0x4000)) oneRefTask 8 = 4 ∧
      recordOffset (taskStream (oneRefAnec 0x4000)) oneRefTask 8 = 0x4000 ∧
      ¬ SlotHolds secs 4 0x4000 := by
  have hbuild : (programBuild (fun _ => true) (oneRefAnec 0x4000)).map
      (fun r => (operationRefs (r.2 3).val 0, genericIo (r.2 0).val)) =
      .ok ([{ slot := 4, tag := 4 }], [(5, 0x4000), (4, 0x4000)]) := by
    decide +kernel
  have hrec : BarRecord (taskStream (oneRefAnec 0x4000)) oneRefTask 8 :=
    oneRefTask_record (by decide +kernel) (by decide +kernel)
      (by decide +kernel) (by decide +kernel) (by decide +kernel)
  cases hres : programBuild (fun _ => true) (oneRefAnec 0x4000) with
  | error e => simp [hres, Except.map] at hbuild
  | ok r =>
    rw [hres] at hbuild
    obtain ⟨hrefs, hio⟩ := Prod.mk.inj (Except.ok.inj hbuild)
    refine ⟨r.1, r.2, rfl, hrec, by decide +kernel, by decide +kernel, ?_⟩
    rintro ⟨tag, size, hmem, hsize, hoff⟩
    rw [hrefs, mem_singleton] at hmem
    obtain rfl : tag = 4 := congrArg Ref.tag hmem
    simp only [BufferSize, hio] at hsize
    simp at hsize
    omega

end Build

end OmarchyAne.Libane
