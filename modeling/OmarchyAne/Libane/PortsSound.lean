import OmarchyAne.Lib.Insertion
import OmarchyAne.Lib.Lists
import OmarchyAne.Libane.Emit
import OmarchyAne.Libane.Stream

/-!
# Soundness of the port-table build

The firmware patches the address of a buffer into every BAR reference of the
task stream.  It takes the buffer from the OPERATION record, so a reference
to a slot without a binding, or past the end of its buffer, is a DMA outside
the memory of the program.

A port table that `ane_m2_program_build_ports` accepts is in order
(`PortsOk`): ids and slots are unique, and no port takes the id or the slot
of the constant region.  The loops of `check_bound_slots` therefore find the
one buffer that the record binds (`boundSize_portModel`), and every reference
of the stream lies inside it.
-/

namespace OmarchyAne.Libane

open Lib List

variable {calloc : Nat → Bool} {anec : List UInt8} {ports : List PortSpec} {hdr : Header}
  {m : Model} {secs : Sections} {seen : List PortSpec} {p : PortSpec} {io : Io}
  {krnSize slot size : Nat} {desc : List UInt8}

/-! ## The port table -/

/-- What the port loop establishes of one port. -/
structure PortOk (p : PortSpec) : Prop where
  dir : p.dir = 0 ∨ p.dir = 1 ∨ p.dir = 2
  id_ne : p.bufferId.toNat ≠ 2
  slot_pos : 2 ≤ p.barSlot.toNat

/-- What the port loop establishes of the table. -/
structure PortsOk (ports : List PortSpec) : Prop where
  each : ∀ p ∈ ports, PortOk p
  ids : (ports.map PortSpec.bufferId).Nodup
  slots : (ports.map PortSpec.barSlot).Nodup

theorem checkPort_ok (h : checkPort seen p = .ok ()) :
    PortOk p ∧ ∀ q ∈ seen, q.bufferId ≠ p.bufferId ∧ q.barSlot ≠ p.barSlot := by
  simp only [checkPort, bind_eq_ok, refuse_eq_ok, exists_const] at h
  obtain ⟨-, hdir, hid, hslot, hseen⟩ := h
  refine ⟨⟨?_, ?_, ?_⟩, ?_⟩
  · have hcases : p.dir.toNat = 0 ∨ p.dir.toNat = 1 ∨ p.dir.toNat = 2 := by
      omega
    exact hcases.imp UInt32.toNat_inj.mp (Or.imp UInt32.toNat_inj.mp UInt32.toNat_inj.mp)
  · intro htwo
    split at hid
    · rw [htwo] at hid
      exact hid (by decide)
    · exact hid (.inr (.inl (UInt32.toNat_inj.mp htwo)))
  · omega
  · intro q hq
    simp only [any_eq_true, Bool.or_eq_true, beq_iff_eq, not_exists, not_and, not_or] at hseen
    exact hseen q hq

theorem checkPorts_ok (h : checkPorts seen ports = .ok ()) :
    PortsOk ports ∧ ∀ q ∈ seen, ∀ p ∈ ports, q.bufferId ≠ p.bufferId ∧ q.barSlot ≠ p.barSlot := by
  induction ports generalizing seen with
  | nil => exact ⟨⟨by simp, by simp, by simp⟩, by simp⟩
  | cons p ports ih =>
    simp only [checkPorts, bind_eq_ok] at h
    obtain ⟨_, hp, hrest⟩ := h
    obtain ⟨hok, hfresh⟩ := checkPort_ok hp
    obtain ⟨hports, hseen⟩ := ih hrest
    have hnew := hseen p (by simp)
    refine ⟨⟨forall_mem_cons.mpr ⟨hok, hports.each⟩, ?_, ?_⟩, ?_⟩
    · rw [map_cons, nodup_cons]
      refine ⟨?_, hports.ids⟩
      rw [mem_map]
      rintro ⟨q, hq, heq⟩
      exact (hnew q hq).1 heq.symm
    · rw [map_cons, nodup_cons]
      refine ⟨?_, hports.slots⟩
      rw [mem_map]
      rintro ⟨q, hq, heq⟩
      exact (hnew q hq).2 heq.symm
    · intro q hq
      exact forall_mem_cons.mpr ⟨hfresh q hq, hseen q (mem_append_left _ hq)⟩

/-! ## The reference set -/

/-- The reference of a port. -/
def portRef (p : PortSpec) : Ref :=
  { slot := p.barSlot.toNat, tag := p.bufferId.toNat }

/-- The reference of the constant region. -/
def kernelRef : Ref := { slot := 1, tag := 2 }

theorem portRefs_eq (ports : List PortSpec) :
    portRefs ports = sortBy Ref.slot (kernelRef :: ports.map portRef) := rfl

theorem mem_portRefs {r : Ref} :
    r ∈ portRefs ports ↔ r = kernelRef ∨ ∃ p ∈ ports, portRef p = r := by
  rw [portRefs_eq, (sortBy_perm Ref.slot _).mem_iff, mem_cons, mem_map]

theorem portRefs_length (ports : List PortSpec) : (portRefs ports).length = ports.length + 1 := by
  rw [portRefs_eq, (sortBy_perm Ref.slot _).length_eq]
  simp

/-- The reference set is sorted by slot, and no slot occurs twice. -/
theorem PortsOk.portRefs_sorted (h : PortsOk ports) :
    (portRefs ports).Pairwise (fun a b => a.slot < b.slot) := by
  refine sortBy_strict Ref.slot ?_
  rw [map_cons, map_map, nodup_cons]
  constructor
  · rw [mem_map]
    rintro ⟨p, hp, heq⟩
    have hpos := (h.each p hp).slot_pos
    have hone : p.barSlot.toNat = 1 := heq
    omega
  · have hslots := h.slots.map (f := UInt32.toNat)
      (fun _ _ => UInt32.toNat_inj.mp)
    rwa [map_map] at hslots

/-! ## The io table -/

/-- The io records of the ports of one direction, in the order of the
caller. -/
def portIo (ports : List PortSpec) (dir : UInt32) : List Io :=
  (ports.filter (fun p => p.dir == dir)).map (fun p =>
    { bufferId := p.bufferId.toNat, dir := dir.toNat,
      size := p.tileBytes.toNat })

theorem ioTable_eq (ports : List PortSpec) :
    ioTable ports = portIo ports 0 ++ portIo ports 1 ++ portIo ports 2 := by
  simp [ioTable, portIo]

theorem mem_portIo {dir : UInt32} : io ∈ portIo ports dir ↔ ∃ p ∈ ports, p.dir = dir ∧
      { bufferId := p.bufferId.toNat, dir := dir.toNat,
        size := p.tileBytes.toNat } = io := by
  simp [portIo, and_assoc]

/-- An io record is the record of a port. -/
theorem mem_ioTable (h : io ∈ ioTable ports) : ∃ p ∈ ports, io.bufferId = p.bufferId.toNat ∧
      io.size = p.tileBytes.toNat ∧ io.dir = p.dir.toNat := by
  rw [ioTable_eq, mem_append, mem_append] at h
  obtain (h | h) | h := h <;>
  · obtain ⟨p, hp, hdir, rfl⟩ := mem_portIo.mp h
    exact ⟨p, hp, rfl, rfl, by rw [hdir]⟩

theorem exists_io (hp : p ∈ ports) (hdir : p.dir = 0 ∨ p.dir = 1 ∨ p.dir = 2) :
    { bufferId := p.bufferId.toNat, dir := p.dir.toNat,
      size := p.tileBytes.toNat } ∈ ioTable ports := by
  rw [ioTable_eq, mem_append, mem_append]
  obtain hdir | hdir | hdir := hdir
  · exact .inl (.inl (mem_portIo.mpr ⟨p, hp, hdir, by rw [hdir]⟩))
  · exact .inl (.inr (mem_portIo.mpr ⟨p, hp, hdir, by rw [hdir]⟩))
  · exact .inr (mem_portIo.mpr ⟨p, hp, hdir, by rw [hdir]⟩)

theorem PortsOk.eq_of_id (h : PortsOk ports) {q : PortSpec} (hp : p ∈ ports)
    (hq : q ∈ ports) (heq : p.bufferId.toNat = q.bufferId.toNat) : p = q :=
  inj_on_of_nodup_map h.ids hp hq (UInt32.toNat_inj.mp heq)

theorem PortsOk.portIo_nodup (h : PortsOk ports) (dir : UInt32) :
    ((portIo ports dir).map Io.bufferId).Nodup := by
  have hids := h.ids.map (f := UInt32.toNat) (fun _ _ => UInt32.toNat_inj.mp)
  rw [map_map] at hids
  rw [portIo, map_map]
  exact hids.sublist (filter_sublist.map _)

/-- No two io records share an id. -/
theorem PortsOk.ioTable_nodup (h : PortsOk ports) : ((ioTable ports).map Io.bufferId).Nodup := by
  -- Records of different directions come from different ports.
  have hdisjoint : ∀ {d e : UInt32}, d ≠ e → ∀ a ∈ portIo ports d,
      ∀ b ∈ portIo ports e, a.bufferId ≠ b.bufferId := by
    intro d e hne a ha b hb heq
    obtain ⟨p, hp, rfl, rfl⟩ := mem_portIo.mp ha
    obtain ⟨q, hq, rfl, rfl⟩ := mem_portIo.mp hb
    exact hne (congrArg PortSpec.dir (h.eq_of_id hp hq heq))
  rw [ioTable_eq, List.Nodup, pairwise_map, pairwise_append, pairwise_append]
  have hnodup := fun dir => pairwise_map.mp (h.portIo_nodup dir)
  refine ⟨⟨hnodup 0, hnodup 1, hdisjoint (by decide)⟩, hnodup 2, ?_⟩
  intro a ha
  obtain ha | ha := mem_append.mp ha
  · exact hdisjoint (by decide) a ha
  · exact hdisjoint (by decide) a ha

/-! ## What a slot is bound to -/

theorem boundSize_cases (h : boundSize m krnSize slot = some size) :
    ∃ r ∈ m.calls.headD [], r.slot = slot ∧
      ((∃ io ∈ m.io, io.bufferId = r.tag ∧ size = io.size) ∨
        (∀ io ∈ m.io, io.bufferId ≠ r.tag) ∧ size = if r.tag = 2 then krnSize else 0) := by
  unfold boundSize at h
  simp only [ite_not] at h
  obtain ⟨heq, -⟩ | ⟨r, hr, hslot, heq⟩ := foldl_overwrite h
  · cases heq
  · refine ⟨r, hr, hslot, ?_⟩
    obtain ⟨hsize, hnone⟩ | ⟨io, hio, hid, hsize⟩ :=
      foldl_overwrite (Option.some.inj heq).symm
    · exact .inr ⟨hnone, hsize⟩
    · exact .inl ⟨io, hio, hid, hsize⟩

/-- In the model of a port table a slot is bound to the constant region or to
the buffer of the one port that has the slot. -/
theorem PortsOk.boundSize_portModel (h : PortsOk ports)
    (hbound : boundSize (portModel ports) krnSize slot = some size) :
    slot = 1 ∧ size = krnSize ∨ ∃ p ∈ ports, p.barSlot.toNat = slot ∧ size = p.tileBytes.toNat := by
  obtain ⟨r, hr, hslot, hsize⟩ := boundSize_cases hbound
  obtain rfl | ⟨p, hp, rfl⟩ := mem_portRefs.mp hr
  · obtain ⟨io, hio, hid, -⟩ | ⟨-, hsize⟩ := hsize
    · obtain ⟨q, hq, hqid, -⟩ := mem_ioTable hio
      exact absurd (hqid.symm.trans hid) (h.each q hq).id_ne
    · exact .inl ⟨hslot.symm, hsize⟩
  · obtain ⟨io, hio, hid, hsize⟩ | ⟨hnone, -⟩ := hsize
    · obtain ⟨q, hq, hqid, hqsize, -⟩ := mem_ioTable hio
      obtain rfl := h.eq_of_id hq hp (hqid.symm.trans hid)
      exact .inr ⟨q, hq, hslot, hsize.trans hqsize⟩
    · exact absurd rfl (hnone _ (exists_io hp (h.each p hp).dir))

theorem portModel_fits (hlen : ports.length < maxBinds) : (portModel ports).Fits where
  ios := by
    have hle : ∀ dir, (portIo ports dir).length ≤ ports.length := by
      intro dir
      rw [portIo, length_map]
      exact length_filter_le _ _
    have h0 := hle 0
    have h1 := hle 1
    have h2 := hle 2
    unfold maxBinds at hlen
    show (ioTable ports).length < _
    rw [ioTable_eq, length_append, length_append]
    omega
  ids := by
    intro io hio
    obtain ⟨p, -, hid, -⟩ := mem_ioTable hio
    rw [hid]
    exact p.bufferId.toNat_lt
  sizes := by
    intro io hio
    obtain ⟨p, -, -, hsize, -⟩ := mem_ioTable hio
    rw [hsize]
    exact p.tileBytes.toNat_lt
  refs := by
    intro refs hrefs
    obtain rfl := mem_singleton.mp hrefs
    rw [portRefs_length]
    unfold maxBinds at hlen
    omega
  slots := by
    intro refs hrefs r hr
    obtain rfl := mem_singleton.mp hrefs
    obtain rfl | ⟨p, -, rfl⟩ := mem_portRefs.mp hr
    · decide
    · exact p.barSlot.toNat_lt
  tags := by
    intro refs hrefs r hr
    obtain rfl := mem_singleton.mp hrefs
    obtain rfl | ⟨p, -, rfl⟩ := mem_portRefs.mp hr
    · decide
    · exact p.bufferId.toNat_lt

/-! ## The build -/

/-- The task stream of a file. -/
def taskStream (anec : List UInt8) : List UInt8 :=
  (anec.drop anecHeaderSize).take (le64 anec 0x10)

/-- The emitted sections bind the slot to a buffer, and the offset lies in
it: the KERNEL section for slot 1, the buffer of a port otherwise. -/
def PortHolds (secs : Sections) (ports : List PortSpec) (slot off : Nat) :
    Prop :=
  slot = 1 ∧ kernelRef ∈ operationRefs (secs 3).val 0 ∧
      off < (secs secKernel).val.length ∨
    ∃ p ∈ ports, p.barSlot.toNat = slot ∧
      portRef p ∈ operationRefs (secs 3).val 0 ∧
      (p.bufferId.toNat, p.tileBytes.toNat) ∈ genericIo (secs 0).val ∧
      off < p.tileBytes.toNat

theorem readHeader_tskSize (h : readHeader anec = .ok hdr) : hdr.tskSize = le64 anec 0x10 := by
  simp only [readHeader, bind_eq_ok, refuse_eq_ok, pure_eq_ok] at h
  obtain ⟨_, -, _, -, _, -, _, -, _, -, _, -, rfl⟩ := h
  rfl

theorem Built.stream_eq (h : Built calloc anec ports hdr m secs) :
    (secs 2).val = taskStream anec := by
  rw [h.desc, readHeader_tskSize h.header, taskStream]

theorem checkStream_split (h : checkStream desc hdr m = .ok ()) :
    ∃ tasks, splitH14Tasks desc hdr.taskCount = .ok tasks ∧
      checkBoundSlots desc tasks m hdr.krnSize = .ok () := by
  simp only [checkStream, bind_eq_ok, refuse_eq_ok] at h
  obtain ⟨_, -, tasks, hsplit, hrest⟩ := h
  cases tasks with
  | nil => exact absurd hrest (by simp [fail])
  | cons first rest =>
    simp only [bind_eq_ok, refuse_eq_ok] at hrest
    obtain ⟨_, -, _, -, hcheck⟩ := hrest
    exact ⟨_, hsplit, hcheck⟩

theorem emitIoSections_sections {gen oper proc tdp : Blob}
    (h : emitIoSections calloc m desc = .ok (gen, oper, proc, tdp)) :
    gen.val = genericSection m ∧ oper.val = operationSection m := by
  simp only [emitIoSections, bind_eq_ok, refuse_eq_ok, pure_eq_ok] at h
  obtain ⟨g, hgen, o, hoper, _, -, _, -, _, -, _, -, heq⟩ := h
  cases heq
  exact ⟨secAlloc_eq_ok hgen, secAlloc_eq_ok hoper⟩

theorem programBuildPorts_length (h : programBuildPorts calloc anec ports = .ok (m, secs)) :
    ports.length < maxBinds := by
  simp only [programBuildPorts, bind_eq_ok, refuse_eq_ok] at h
  obtain ⟨_, -, _, hlen, -⟩ := h
  exact Nat.not_le.mp hlen

/-- Every BAR reference of an accepted program lies in the buffer that the
emitted OPERATION record binds to its slot.  The emitted references are
sorted by slot and no slot occurs twice, the ids of the io records are
unique, and the io table lists the inputs, the outputs and the scratch in the
order of the caller. -/
theorem programBuildPorts_sound (h : programBuildPorts calloc anec ports = .ok (m, secs)) :
    (∀ t idx, BarRecord (taskStream anec) t idx →
      PortHolds secs ports (recordSlot (taskStream anec) t idx)
        (recordOffset (taskStream anec) t idx)) ∧
    (operationRefs (secs 3).val 0).Pairwise (fun a b => a.slot < b.slot) ∧
    ((genericIo (secs 0).val).map Prod.fst).Nodup ∧
    genericIo (secs 0).val = m.io.map (fun io => (io.bufferId, io.size)) ∧
    m.io = portIo ports 0 ++ portIo ports 1 ++ portIo ports 2 := by
  have hfits := portModel_fits (programBuildPorts_length h)
  obtain ⟨hdr, hbuilt⟩ := programBuildPorts_built h
  obtain ⟨hports, -⟩ := checkPorts_ok hbuilt.checked
  obtain ⟨hgen, hoper⟩ := emitIoSections_sections hbuilt.emitted
  obtain ⟨tasks, hsplit, hcheck⟩ := checkStream_split hbuilt.stream
  obtain rfl := hbuilt.model
  have hrefs : operationRefs (secs 3).val 0 = portRefs ports := by
    rw [hoper]
    exact operationRefs_section hfits Nat.one_pos
  have hio : genericIo (secs 0).val =
      (ioTable ports).map (fun io => (io.bufferId, io.size)) := by
    rw [hgen]
    exact genericIo_section hfits
  refine ⟨?_, ?_, ?_, hio, ioTable_eq ports⟩
  · intro t idx hrec
    rw [← hbuilt.stream_eq] at hrec ⊢
    obtain ⟨size, hsize, hoff⟩ := checkBoundSlots_bound hcheck hsplit hrec
    obtain ⟨hslot, rfl⟩ | ⟨p, hp, hslot, rfl⟩ :=
      hports.boundSize_portModel hsize
    · refine .inl ⟨hslot, ?_, by rwa [hbuilt.kernel_length]⟩
      rw [hrefs]
      exact mem_portRefs.mpr (.inl rfl)
    · refine .inr ⟨p, hp, hslot, ?_, ?_, hoff⟩
      · rw [hrefs]
        exact mem_portRefs.mpr (.inr ⟨p, hp, rfl⟩)
      · rw [hio]
        exact mem_map.mpr ⟨_, exists_io hp (hports.each p hp).dir, rfl⟩
  · rw [hrefs]
    exact hports.portRefs_sorted
  · rw [hio, map_map]
    exact hports.ioTable_nodup

/-! ## A file with one reference -/

/-- A file with one input and one output of a tile each, and one task.  The
task has one record, which refers to slot 4 at the destination register. -/
def oneRefAnec (off : Nat) : List UInt8 :=
  let d := putLe64 (zeros anecHeaderSize) 0x00 64
  let d := putLe64 (putLe32 (putLe32 d 0x08 40) 0x0c 1) 0x10 64
  let d := putLe32 (putLe32 d 0x20 1) 0x24 1
  let d := putLe32 (putLe32 d (0x28 + 4 * 4) 1) (0x28 + 5 * 4) 1
  let s := putLe32 (zeros 64) 16 0xa0000
  d ++ putLe32 (putLe32 s (16 + 8 * 4) 0x22000542) (16 + 9 * 4) off

def oneRefTask : Task := { off := 16, words := 10 }

def oneRefPorts : List PortSpec :=
  [{ dir := 0, bufferId := 5, barSlot := 5, tileBytes := 0x4000 },
    { dir := 1, bufferId := 4, barSlot := 4, tileBytes := 0x4000 }]

/-- A frame of filler, and the task behind it with its first record. -/
theorem oneRefTask_record {stream : List UInt8} (hlen : stream.length = 64)
    (hfiller : frameWords stream 0 = 0) (hwords : frameWords stream 16 = 10)
    (hfirst : firstRecord stream 16 = 8)
    (hbar : isBarRef (recordHeader stream oneRefTask 8) = true) :
    BarRecord stream oneRefTask 8 where
  task := {
    fit := by rw [hlen]; decide
    words := hwords.symm
    pos := by decide
    visited := .single (.filler (by omega) hfiller) }
  visited := by
    show ReachesRecord stream oneRefTask (firstRecord stream 16) 8
    rw [hfirst]
    exact .refl
  inside := by decide
  bar := hbar

theorem programBuildPorts_sound_oneRef :
    ∃ m secs, programBuildPorts (fun _ => true) (oneRefAnec 0x100) oneRefPorts = .ok (m, secs) ∧
      BarRecord (taskStream (oneRefAnec 0x100)) oneRefTask 8 ∧
      PortHolds secs oneRefPorts 4 0x100 := by
  have hbuild : (programBuildPorts (fun _ => true) (oneRefAnec 0x100)
      oneRefPorts).isOk = true := by decide +kernel
  have hslot : recordSlot (taskStream (oneRefAnec 0x100)) oneRefTask 8 = 4 := by decide +kernel
  have hoff : recordOffset (taskStream (oneRefAnec 0x100)) oneRefTask 8 = 0x100 := by decide +kernel
  have hrec : BarRecord (taskStream (oneRefAnec 0x100)) oneRefTask 8 :=
    oneRefTask_record (by decide +kernel) (by decide +kernel)
      (by decide +kernel) (by decide +kernel) (by decide +kernel)
  cases hres : programBuildPorts (fun _ => true) (oneRefAnec 0x100)
      oneRefPorts with
  | error e => simp [hres, Except.isOk, Except.toBool] at hbuild
  | ok r =>
    have hsound := (programBuildPorts_sound hres).1 oneRefTask 8 hrec
    rw [hslot, hoff] at hsound
    exact ⟨r.1, r.2, rfl, hrec, hsound⟩

end OmarchyAne.Libane
