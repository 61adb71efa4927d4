import OmarchyAne.Libane.DeriveSound

/-!
# The framing of the descriptor

Two walks go over a task stream.  `split_h14_tasks` starts at its first byte,
skips filler frames and stops at the end of the stream.  The block walk of the
firmware, `tdprop_block_count`, starts behind the frame in front and knows no
filler.  A builder makes both, and where both succeed they visit the same
offsets (`walks_agree`).  So the block count of the TDPROP section is the
number of tasks, and no byte outside of a task is other than zero
(`framing_agrees`).
-/

namespace OmarchyAne.Libane

open Lib List

variable {stream : List UInt8} {cap cur fuel last walked : Nat} {r : Nat × Nat}
  {acc tasks : List Task} {calloc : Nat → Bool} {anec : List UInt8} {m : Model} {secs : Sections}
  {desc : List UInt8} {hdr : Header}

/-- The offsets that the block walk visits from `cur` on. -/
def tdpropVisits (desc : List UInt8) (size : Nat) : Nat → Nat → List Nat
  | 0, _ => []
  | fuel + 1, cur =>
    if size ≤ cur then []
    else
      cur :: tdpropVisits desc size fuel
        (cur + ((frameWords desc cur <<< 2 + 0xf) &&& 0x3ff0))

/-- The offsets of a descriptor, as the firmware walks over it. -/
def tdpropOffsets (desc : List UInt8) : List Nat :=
  tdpropVisits desc desc.length desc.length
    (if le32 desc 0 &&& 4 ≠ 0 then 0x30 else 0x10)

/-- The bytes of a task. -/
def Task.Covers (t : Task) (i : Nat) : Prop :=
  t.off ≤ i ∧ i < t.off + t.words * 4

theorem u8_of_anyNonzero {lo hi i : Nat}
    (h : anyNonzero stream lo hi = false) (hlo : lo ≤ i) (hhi : i < hi) :
    u8 stream i = 0 := by
  rw [anyNonzero, any_eq_false] at h
  have hi' := h i (mem_range'_1.mpr ⟨hlo, by omega⟩)
  simpa using hi'

theorem frameWords_lt (stream : List UInt8) (off : Nat) : frameWords stream off < 0x800 :=
  Nat.lt_of_le_of_lt Nat.and_le_right (by decide)

/-- The mask of the block walk clears the low four bits. -/
theorem and_blockMask {x : Nat} (h : x < 2 ^ 14) : x &&& 0x3ff0 = x / 16 * 16 := by
  have hmask : 0x3ff0 = (2 ^ 10 - 1) <<< 4 := by decide
  have hround : x / 16 * 16 = (x >>> 4) <<< 4 := by
    rw [Nat.shiftLeft_eq, Nat.shiftRight_eq_div_pow]
  rw [hmask, hround]
  refine Nat.eq_of_testBit_eq fun i => ?_
  rw [Nat.testBit_and, Nat.testBit_shiftLeft, Nat.testBit_shiftLeft,
    Nat.testBit_two_pow_sub_one, Nat.testBit_shiftRight]
  by_cases hlow : 4 ≤ i
  · rw [Nat.add_sub_cancel' hlow]
    by_cases hhigh : i - 4 < 10
    · simp [hlow, hhigh]
    · have hbit : x.testBit i = false :=
        Nat.testBit_lt_two_pow (Nat.lt_of_lt_of_le h (Nat.pow_le_pow_right (by decide) (by omega)))
      simp [hbit]
  · simp [hlow]

/-- Both walks round up to the next 16 bytes. -/
theorem blockEnd_eq {words : Nat} (hwords : words < 0x800) (hcur : cur % 16 = 0) :
    cur + ((words <<< 2 + 0xf) &&& 0x3ff0) = (cur + words * 4 + 15) / 16 * 16 := by
  rw [Nat.shiftLeft_eq, and_blockMask (by omega)]
  omega

/-! ## One block -/

/-- The block walk goes on behind a block that is not zero. -/
theorem tdpropLoop_step {size : Nat} (h : tdpropLoop stream size (fuel + 1) cur last walked = .ok r)
    (hcur : cur < size) :
    cur + 4 ≤ size ∧ frameWords stream cur ≠ 0 ∧ tdpropLoop stream size fuel
        (cur + ((frameWords stream cur <<< 2 + 0xf) &&& 0x3ff0)) cur
        (walked + 1) = .ok r := by
  rw [tdpropLoop, if_neg (by omega)] at h
  split at h
  · exact absurd h (by simp [fail])
  next hfit =>
  simp only [show le16 stream (cur + 2) &&& 0x7ff = frameWords stream cur from rfl] at h
  split at h
  · exact absurd h (by simp [fail])
  · next hwords => exact ⟨by omega, hwords, h⟩

/-- The split goes on behind a task, and the gap behind it is zero. -/
theorem splitLoop_step {off : Nat}
    (h : splitLoop stream stream.length cap (fuel + 1) off acc = .ok tasks)
    (hfit : off + 4 ≤ stream.length) (hwords : frameWords stream off ≠ 0) :
    let stop := min ((off + frameWords stream off * 4 + 15) / 16 * 16) stream.length
    anyNonzero stream (off + frameWords stream off * 4) stop = false ∧
      splitLoop stream stream.length cap fuel stop
        (acc ++ [⟨off, frameWords stream off⟩]) = .ok tasks := by
  rw [splitLoop, if_neg (by omega), if_neg (by omega)] at h
  simp only [show le16 stream (off + 2) &&& 0x7ff = frameWords stream off
    from rfl, if_neg hwords] at h
  split at h
  · exact absurd h (by simp [fail])
  split at h
  · exact absurd h (by simp [fail])
  split at h
  · exact absurd h (by simp [fail])
  next hgap =>
  split at h
  · exact absurd h (by simp [fail])
  · exact ⟨by simpa using hgap, h⟩

/-! ## The walks -/

/-- The block walk counts what it visits. -/
theorem tdpropLoop_visits {size : Nat} (h : tdpropLoop stream size fuel cur last walked = .ok r) :
    r.2 = walked + (tdpropVisits stream size fuel cur).length := by
  induction fuel generalizing cur last walked with
  | zero =>
    cases h
    rfl
  | succ fuel ih =>
    rw [tdpropVisits]
    by_cases hend : size ≤ cur
    · rw [tdpropLoop, if_pos hend] at h
      cases h
      rw [if_pos hend]
      rfl
    · obtain ⟨-, -, hrest⟩ := tdpropLoop_step h (Nat.lt_of_not_le hend)
      rw [if_neg hend, ih hrest, length_cons]
      omega

/-- What the two walks have in common from `cur` on, where the split has found
the tasks `acc` before: they visit the same offsets, and what lies between the
tasks is zero. -/
def Agree (stream : List UInt8) (cur : Nat) (acc tasks : List Task)
    (visits : List Nat) : Prop :=
  ∃ rest, tasks = acc ++ rest ∧ rest.map Task.off = visits ∧
    ∀ i, cur ≤ i → i < stream.length → (∀ t ∈ rest, ¬t.Covers i) →
      u8 stream i = 0

/-- Behind the end of the stream there is nothing. -/
theorem agree_end {fuel' : Nat} (hend : stream.length ≤ cur)
    (hsplit : splitLoop stream stream.length cap fuel (min cur stream.length) acc = .ok tasks) :
    Agree stream cur acc tasks (tdpropVisits stream stream.length fuel' cur) := by
  have htasks : tasks = acc := by
    cases fuel with
    | zero => exact (Except.ok.inj hsplit).symm
    | succ fuel =>
      rw [splitLoop, if_pos (by omega)] at hsplit
      exact (Except.ok.inj hsplit).symm
  refine ⟨[], by rw [htasks, append_nil], ?_, fun i hlo hhi => ?_⟩
  · cases fuel' with
    | zero => rfl
    | succ fuel' =>
      rw [tdpropVisits, if_pos hend]
      rfl
  · omega

/-- Both walks go from frame to frame in step. -/
theorem walks_agree {fuel' : Nat} (hcur : cur % 16 = 0)
    (hsplit : splitLoop stream stream.length cap fuel (min cur stream.length) acc = .ok tasks)
    (hwalk : tdpropLoop stream stream.length fuel' cur last walked = .ok r)
    (hfuel : stream.length ≤ cur + fuel) (hfuel' : stream.length ≤ cur + fuel') :
    Agree stream cur acc tasks (tdpropVisits stream stream.length fuel' cur) := by
  induction fuel generalizing fuel' cur last walked acc with
  | zero => exact agree_end hfuel hsplit
  | succ fuel ih =>
    by_cases hend : stream.length ≤ cur
    · exact agree_end hend hsplit
    obtain ⟨fuel', rfl⟩ : ∃ n, fuel' = n + 1 := Nat.exists_eq_succ_of_ne_zero (by omega)
    obtain ⟨hfit, hwords, hrest⟩ := tdpropLoop_step hwalk (Nat.lt_of_not_le hend)
    rw [Nat.min_eq_left (by omega)] at hsplit
    obtain ⟨hgap, hrest'⟩ := splitLoop_step hsplit hfit hwords
    have hpos : 0 < frameWords stream cur := Nat.pos_of_ne_zero hwords
    rw [blockEnd_eq (frameWords_lt stream cur) hcur] at hrest
    obtain ⟨rest, rfl, hoffs, hzero⟩ := ih (by omega) hrest' hrest (by omega) (by omega)
    refine ⟨⟨cur, frameWords stream cur⟩ :: rest, by simp, ?_, ?_⟩
    · rw [tdpropVisits, if_neg hend, map_cons, hoffs, blockEnd_eq (frameWords_lt stream cur) hcur]
    · intro i hlo hhi hout
      obtain ⟨hfirst, hothers⟩ := forall_mem_cons.mp hout
      by_cases hnext : (cur + frameWords stream cur * 4 + 15) / 16 * 16 ≤ i
      · exact hzero i hnext hhi hothers
      · have hafter : cur + frameWords stream cur * 4 ≤ i :=
          Nat.le_of_not_lt fun hlt => hfirst ⟨hlo, hlt⟩
        exact u8_of_anyNonzero hgap hafter (by omega)

/-! ## The descriptor -/

/-- The frame in front is zero, so both walks start behind it. -/
theorem le32_of_frame (h : anyNonzero stream 0 frameBytes = false) :
    le32 stream 0 = 0 ∧ frameWords stream 0 = 0 := by
  have hbyte : ∀ i < 16, u8 stream i = 0 := fun i hi =>
    u8_of_anyNonzero h (Nat.zero_le i) hi
  constructor
  · simp [le32, le16, hbyte]
  · simp [frameWords, le16, hbyte]

/-- A descriptor that both walks accept. -/
theorem framing_of_walks {blocks : Nat} (hframe : anyNonzero stream 0 frameBytes = false)
    (hlen : frameBytes ≤ stream.length)
    (hsplit : splitH14Tasks stream cap = .ok tasks)
    (hwalk : tdpropBlockCount stream = .ok blocks) :
    blocks = tasks.length ∧ tdpropOffsets stream = tasks.map Task.off ∧
      ∀ i < stream.length, (∀ t ∈ tasks, ¬t.Covers i) → u8 stream i = 0 := by
  rw [frameBytes] at hlen
  obtain ⟨hw0, hwords⟩ := le32_of_frame hframe
  obtain ⟨n, hn⟩ : ∃ n, stream.length = n + 1 := Nat.exists_eq_succ_of_ne_zero (by omega)
  -- The split skips the frame in front.
  have hsplit' : splitLoop stream stream.length cap n (min 16 stream.length) [] = .ok tasks := by
    rw [splitH14Tasks] at hsplit
    nth_rewrite 2 [hn] at hsplit
    rw [splitLoop, if_neg (by omega), if_neg (by omega)] at hsplit
    simp only [show le16 stream (0 + 2) &&& 0x7ff = frameWords stream 0
      from rfl, hwords, if_true] at hsplit
    exact hsplit
  simp only [tdpropBlockCount, hw0, bind_eq_ok, refuse_eq_ok, pure_eq_ok, Prod.exists] at hwalk
  obtain ⟨-, -, last, walked, hloop, -, -, -, -, rfl⟩ := hwalk
  rw [if_neg (by decide)] at hloop
  obtain ⟨rest, rfl, hoffs, hzero⟩ := walks_agree (by decide) hsplit' hloop (by omega) (by omega)
  have hvisits : tdpropOffsets stream = tdpropVisits stream stream.length stream.length 16 := by
    rw [tdpropOffsets, hw0]
    rfl
  refine ⟨?_, ?_, fun i hi hout => ?_⟩
  · have hcount := tdpropLoop_visits hloop
    rw [← hoffs] at hcount
    simpa using hcount
  · rw [hvisits, ← hoffs]
  · by_cases hfront : i < 16
    · exact u8_of_anyNonzero hframe (Nat.zero_le i) hfront
    · exact hzero i (by omega) hi (by simpa using hout)

/-! ## The builders -/

/-- The task count of the header. -/
def headerTaskCount (anec : List UInt8) : Nat := le32 anec 0x0c

/-- The block count of a TDPROP section. -/
def blockNbr (tdp : List UInt8) : Nat := le32 tdp 0x0c

/-- The walks over the DESCRIPTOR section and what the TDPROP section says of
it. -/
structure Framed (anec : List UInt8) (secs : Sections) (tasks : List Task) :
    Prop where
  split : ∃ cap, splitH14Tasks (secs 2).val cap = .ok tasks
  count : blockNbr (secs 5).val = tasks.length
  header : headerTaskCount anec = tasks.length
  offsets : tdpropOffsets (secs 2).val = tasks.map Task.off
  zero : ∀ i < (secs 2).val.length, (∀ t ∈ tasks, ¬t.Covers i) →
    u8 (secs 2).val i = 0

theorem emitIoSections_tdprop {gen oper proc tdp : Blob}
    (h : emitIoSections calloc m desc = .ok (gen, oper, proc, tdp)) :
    ∃ blocks, tdpropBlockCount desc = .ok blocks ∧ blockNbr tdp.val = blocks % 2 ^ 32 := by
  simp only [emitIoSections, bind_eq_ok, refuse_eq_ok, pure_eq_ok] at h
  obtain ⟨_, -, _, -, _, -, blocks, hblocks, _, -, t, htdp, heq⟩ := h
  cases heq
  refine ⟨blocks, hblocks, ?_⟩
  rw [blockNbr, secAlloc_eq_ok htdp, tdpropSection,
    le32_putLe64_ne (by omega), le32_putLe32 (by simp)]

theorem framed_of_walks {gen oper proc : Blob}
    (hframe : anyNonzero (secs 2).val 0 frameBytes = false)
    (hlen : frameBytes ≤ (secs 2).val.length)
    (hsplit : splitH14Tasks (secs 2).val cap = .ok tasks)
    (hcount : tasks.length = headerTaskCount anec)
    (hemit : emitIoSections calloc m (secs 2).val = .ok (gen, oper, proc, secs 5)) :
    Framed anec secs tasks := by
  obtain ⟨blocks, hblocks, hnbr⟩ := emitIoSections_tdprop hemit
  obtain ⟨rfl, hoffs, hzero⟩ := framing_of_walks hframe hlen hsplit hblocks
  refine ⟨⟨cap, hsplit⟩, ?_, hcount.symm, hoffs, hzero⟩
  rw [hnbr, Nat.mod_eq_of_lt]
  rw [hcount]
  exact le32_lt _ _

theorem readDerivedHeader_fit (h : readDerivedHeader anec = .ok hdr) :
    hdr.tskSize ≤ (anec.drop anecHeaderSize).length ∧ hdr.taskCount = headerTaskCount anec := by
  simp only [readDerivedHeader, bind_eq_ok, refuse_eq_ok, pure_eq_ok, exists_const] at h
  obtain ⟨-, hpayload, -, -, hkrn, -, htsk, rfl⟩ := h
  refine ⟨?_, rfl⟩
  rw [length_drop]
  show le64 anec 0x10 ≤ _
  omega

theorem splitStream_count (h : splitStream desc hdr = .ok tasks) :
    tasks.length = hdr.taskCount := by
  simp only [splitStream, bind_eq_ok] at h
  obtain ⟨tasks', -, hrest⟩ := h
  cases tasks' with
  | nil => exact absurd hrest (by simp [fail])
  | cons first rest =>
    simp only [bind_eq_ok, refuse_eq_ok, pure_eq_ok, not_not] at hrest
    obtain ⟨_, hcount, _, -, rfl⟩ := hrest
    exact hcount

theorem checkStream_count (h : checkStream desc hdr m = .ok ()) :
    ∃ tasks, splitH14Tasks desc hdr.taskCount = .ok tasks ∧ tasks.length = hdr.taskCount := by
  simp only [checkStream, bind_eq_ok, refuse_eq_ok] at h
  obtain ⟨_, -, tasks, hsplit, hrest⟩ := h
  cases tasks with
  | nil => exact absurd hrest (by simp [fail])
  | cons first rest =>
    simp only [bind_eq_ok, refuse_eq_ok, not_not] at hrest
    obtain ⟨_, hcount, -⟩ := hrest
    exact ⟨_, hsplit, hcount⟩

theorem programBuild_framed (h : programBuild calloc anec = .ok (m, secs)) :
    ∃ tasks, Framed anec secs tasks := by
  simp only [programBuild, bind_eq_ok, refuse_eq_ok, pure_eq_ok, exists_const, Prod.exists] at h
  obtain ⟨hdr, hhdr, io, -, hlen, desc, hdesc, hframe, tasks, hstream, refs,
    used, -, io', index, -, kern, -, gen, oper, proc, tdp, hemit, heq⟩ := h
  cases heq
  obtain ⟨hfit, hheader⟩ := readDerivedHeader_fit hhdr
  refine ⟨tasks, framed_of_walks (by simpa using hframe) ?_
    (splitStream_ok hstream) ((splitStream_count hstream).trans hheader) hemit⟩
  change frameBytes ≤ desc.val.length
  rw [secAlloc_eq_ok hdesc, length_take]
  omega

theorem Built.framed {ports : List PortSpec} (h : Built calloc anec ports hdr m secs) :
    ∃ tasks, Framed anec secs tasks := by
  obtain ⟨tasks, hsplit, hcount⟩ := checkStream_count h.stream
  have hheader : hdr.taskCount = headerTaskCount anec := by
    have hread := h.header
    simp only [readHeader, bind_eq_ok, refuse_eq_ok, pure_eq_ok, exists_const] at hread
    obtain ⟨-, -, -, -, -, -, rfl⟩ := hread
    rfl
  have hfit := readHeader_ok h.header
  have hframe := h.frame
  refine ⟨tasks, framed_of_walks h.frame_zero ?_ hsplit (hcount.trans hheader) h.emitted⟩
  rw [h.desc, length_take]
  omega

/-- In a file that a builder accepts the split and the block walk of the
firmware visit the same offsets.  Their number stands in the header and in the
TDPROP section, and every byte outside of the tasks is zero. -/
theorem framing_agrees
    (h : programBuild calloc anec = .ok (m, secs) ∨
      ∃ ports, programBuildPorts calloc anec ports = .ok (m, secs)) :
    ∃ tasks, Framed anec secs tasks := by
  obtain hbuild | ⟨ports, hbuild⟩ := h
  · exact programBuild_framed hbuild
  · obtain ⟨hdr, hbuilt⟩ := programBuildPorts_built hbuild
    exact hbuilt.framed

/-- The file with one task. -/
theorem framing_agrees_oneRef : ∃ m secs tasks, programBuildPorts (fun _ => true) (oneRefAnec 0x100)
        oneRefPorts = .ok (m, secs) ∧
      Framed (oneRefAnec 0x100) secs tasks ∧ tasks.length = 1 := by
  have hbuild : (programBuildPorts (fun _ => true) (oneRefAnec 0x100)
      oneRefPorts).isOk = true := by decide +kernel
  cases hres : programBuildPorts (fun _ => true) (oneRefAnec 0x100)
      oneRefPorts with
  | error e => simp [hres, Except.isOk, Except.toBool] at hbuild
  | ok r =>
    obtain ⟨tasks, hframed⟩ := framing_agrees (.inr ⟨oneRefPorts, hres⟩)
    refine ⟨r.1, r.2, tasks, rfl, hframed, ?_⟩
    rw [← hframed.header]
    decide +kernel

end OmarchyAne.Libane
