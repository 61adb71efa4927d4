import OmarchyAne.H13.IoLayout

/-!
# Loading an H13 program (libane/ane.c)

`ane_model_init` reads the header of a file, and `ane_chan_init` makes a buffer
object for each channel and one for the bootstrap channel.  The direct load puts
the payload straight into channel 0 and parses it there.  The staged load reads
it into a staging buffer, parses it, and copies it to channel 0.  Both copy the
first task descriptor to the bootstrap channel.

The model keeps a list of the copies (`Access`).  A copy that leaves its buffer
is only recorded, so that it can be said which loads have one.  The header has
no check of the sizes: `load_inside_iff` and `load_channels_iff` say what it
would have to check.
-/

namespace OmarchyAne.H13

open Lib Libane List

/-! ## The load -/

/-- `ANEC_HEADER_SIZE`. -/
def anecHeaderSize : Nat := 0x1000

/-- The header that `ane_fread` leaves.  What a short file does not have stays
zero. -/
def anecOf (file : List UInt8) : Anec where
  size := .ofNat (le64 file 0)
  tdSize := .ofNat (le32 file 8)
  tdCount := .ofNat (le32 file 0xc)
  srcCount := .ofNat (le32 file 0x20)
  dstCount := .ofNat (le32 file 0x24)
  tiles := fun channel => .ofNat (le32 file (0x28 + 4 * channel))
  nchw := fun channel i => .ofNat (le64 file (0xa8 + 8 * (6 * channel + i)))

/-- How a program is loaded, and what the system answers. -/
structure LoadEnv where
  /-- `ANE_LOAD_STAGED`. -/
  staged : Bool
  /-- `LIBANE_CONFIG_STRICT_BIND`. -/
  strict : Bool
  tileShift : Nat
  /-- The buffer object of a channel can be made and mapped. -/
  channelBo : Nat → Bool
  /-- The same for the bootstrap channel. -/
  btspBo : Bool
  /-- The staging buffer can be allocated. -/
  stagingBuffer : Bool

/-- The buffers that a load copies from and to.  The program is the staging
buffer, or the front of channel 0 in a direct load. -/
inductive Buf where
  | chan0
  | btsp
  | program
  deriving DecidableEq, Repr

/-- The bytes of a buffer that a copy touches. -/
structure Access where
  buf : Buf
  off : Nat
  len : Nat
  deriving DecidableEq, Repr

/-- `tile_align`. -/
def tileAlign (n : Nat) : Nat := (n + 0x3fff) / 0x4000 * 0x4000

/-- The size of a buffer.  A channel without tiles has none. -/
def bufSize (anec : Anec) (tileShift : Nat) : Buf → Option Nat
  | .chan0 =>
    if anec.tile 0 = 0 then none else some (tileBytes anec tileShift 0)
  | .btsp => some (tileAlign anec.tdSize.toNat)
  | .program => some anec.size.toNat

/-- The copy lies inside its buffer. -/
def Access.inside (anec : Anec) (tileShift : Nat) (a : Access) : Bool :=
  match bufSize anec tileShift a.buf with
  | none => false
  | some size => a.off + a.len ≤ size

/-- The bytes of the payload that the file has. -/
def payload (file : List UInt8) (size : Nat) : List UInt8 :=
  (file.drop anecHeaderSize).take size

/-- The payload with its zero tail. -/
def program (file : List UInt8) (size : Nat) : List UInt8 :=
  payload file size ++ List.replicate (size - (payload file size).length) 0

/-- The copies of a load. -/
def loadAccesses (staged : Bool) (anec : Anec) (got : Nat) : List Access :=
  let size := anec.size.toNat
  let td := anec.tdSize.toNat
  -- The first task and the word of `set_nid`.
  let bootstrap := [⟨.program, 0, td⟩, ⟨.btsp, 0, td⟩, ⟨.btsp, 0, 4⟩]
  if staged then
    [⟨.program, 0, got⟩, ⟨.program, got, size - got⟩, ⟨.program, 0, size⟩,
      ⟨.chan0, 0, size⟩] ++ bootstrap
  else [⟨.chan0, 0, got⟩, ⟨.chan0, got, size - got⟩] ++ bootstrap

/-- A program that is loaded. -/
structure Loaded where
  bind : Bind
  accesses : List Access
  deriving DecidableEq, Repr

/-- The map of the program, if the checks of the task stream accept it. -/
def bindProgram (env : LoadEnv) (anec : Anec) (stream : List UInt8) :
    Option Bind :=
  if env.strict ∧ ¬ (bindInit anec stream).1 then none
  else if (bindOverrun anec stream env.tileShift).isSome then none
  else some (bindInit anec stream).2

/-- Every channel with tiles gets a buffer object. -/
def channelsOk (env : LoadEnv) (anec : Anec) : Bool :=
  (List.range tileCount).all (fun channel =>
    anec.tile channel = 0 ∨
      tileBytes anec env.tileShift channel ≠ 0 ∧ env.channelBo channel)

/-- `ane_init_common` on the M1 path, as far as it is about the file:
`ane_model_init` and `ane_chan_init`. -/
def load (env : LoadEnv) (file : List UInt8) : Option Loaded :=
  let anec := anecOf file
  let size := anec.size.toNat
  if env.tileShift = 0 ∨ 20 < env.tileShift then none
  else if size = 0 then none
  else if env.staged ∧ ¬ env.stagingBuffer then none
  else if ¬ channelsOk env anec then none
  else if tileAlign anec.tdSize.toNat = 0 ∨ ¬ env.btspBo then none
  else do
    let bind ← bindProgram env anec (program file size)
    some {
      bind := bind
      accesses := loadAccesses env.staged anec (payload file size).length }

/-! ## The copies -/

variable {env : LoadEnv} {file : List UInt8} {l : Loaded} {anec : Anec} {tileShift off len : Nat}

theorem le_tileAlign (n : Nat) : n ≤ tileAlign n := by
  rw [tileAlign]
  omega

theorem payload_length_le (file : List UInt8) (size : Nat) : (payload file size).length ≤ size := by
  rw [payload, length_take]
  omega

theorem load_some (h : load env file = some l) :
    bindProgram env (anecOf file) (program file (anecOf file).size.toNat) = some l.bind ∧
      l.accesses = loadAccesses env.staged (anecOf file)
        (payload file (anecOf file).size.toNat).length ∧
      (anecOf file).size.toNat ≠ 0 ∧ 0 < (anecOf file).tdSize.toNat := by
  rw [load] at h
  split at h
  · cases h
  split at h
  · cases h
  next hsize =>
  split at h
  · cases h
  split at h
  · cases h
  split at h
  · cases h
  next hbtsp =>
  obtain ⟨bind, hbind, heq⟩ := Option.bind_eq_some_iff.1 h
  cases heq
  refine ⟨hbind, rfl, hsize, ?_⟩
  rw [not_or, tileAlign] at hbtsp
  omega

/-- What the header has to say for the copies of a load to stay in their
buffers: channel 0 exists and holds the program, and the program holds the
first task. -/
structure SizesOk (anec : Anec) (tileShift : Nat) : Prop where
  chan0 : anec.tile 0 ≠ 0
  payload : anec.size.toNat ≤ tileBytes anec tileShift 0
  task : anec.tdSize.toNat ≤ anec.size.toNat

theorem inside_chan0 : Access.inside anec tileShift ⟨.chan0, off, len⟩ = true ↔
      anec.tile 0 ≠ 0 ∧ off + len ≤ tileBytes anec tileShift 0 := by
  rw [Access.inside, bufSize]
  by_cases hzero : anec.tile 0 = 0 <;> simp [hzero]

theorem inside_program : Access.inside anec tileShift ⟨.program, off, len⟩ = true ↔
      off + len ≤ anec.size.toNat := by
  simp [Access.inside, bufSize]

theorem inside_btsp : Access.inside anec tileShift ⟨.btsp, off, len⟩ = true ↔
      off + len ≤ tileAlign anec.tdSize.toNat := by
  simp [Access.inside, bufSize]

/-- The bootstrap copy. -/
theorem bootstrap_inside (tileShift : Nat) (hpos : 0 < anec.tdSize.toNat) :
    (∀ a ∈ ([⟨.program, 0, anec.tdSize.toNat⟩, ⟨.btsp, 0, anec.tdSize.toNat⟩,
      ⟨.btsp, 0, 4⟩] : List Access), a.inside anec tileShift = true) ↔
        anec.tdSize.toNat ≤ anec.size.toNat := by
  have hfour : 4 ≤ tileAlign anec.tdSize.toNat := by
    rw [tileAlign]
    omega
  have htd := le_tileAlign anec.tdSize.toNat
  simp only [forall_mem_cons, inside_program, inside_btsp, Nat.zero_add,
    not_mem_nil, false_imp_iff, implies_true, and_true]
  exact ⟨fun h => h.1, fun h => ⟨h, htd, hfour⟩⟩

/-- A load that is accepted stays inside its buffers if and only if the header
fits. -/
theorem load_inside_iff (h : load env file = some l) :
    (∀ a ∈ l.accesses, a.inside (anecOf file) env.tileShift = true) ↔
      SizesOk (anecOf file) env.tileShift := by
  obtain ⟨-, hacc, hsize, htd⟩ := load_some h
  have hgot := payload_length_le file (anecOf file).size.toNat
  have hboot := bootstrap_inside env.tileShift htd
  rw [hacc, loadAccesses]
  split
  · rw [forall_mem_append, hboot]
    simp only [forall_mem_cons, inside_program, inside_chan0,
      not_mem_nil, false_imp_iff, implies_true, and_true]
    constructor
    · rintro ⟨⟨-, -, -, hchan, hfit⟩, htask⟩
      exact ⟨hchan, by omega, htask⟩
    · rintro ⟨hchan, hfit, htask⟩
      exact ⟨⟨by omega, by omega, by omega, hchan, by omega⟩, htask⟩
  · rw [forall_mem_append, hboot]
    simp only [forall_mem_cons, inside_chan0, not_mem_nil,
      false_imp_iff, implies_true, and_true]
    constructor
    · rintro ⟨⟨-, hchan, hfit⟩, htask⟩
      exact ⟨hchan, by omega, htask⟩
    · rintro ⟨hchan, hfit, htask⟩
      exact ⟨⟨⟨hchan, by omega⟩, hchan, by omega⟩, htask⟩

/-- A load in which every buffer can be made. -/
def plainEnv (staged : Bool) (tileShift : Nat) : LoadEnv where
  staged := staged
  strict := false
  tileShift := tileShift
  channelBo := fun _ => true
  btspBo := true
  stagingBuffer := true

/-- The header of a file with these sizes and counts. -/
def sizesFile (size tdSize srcCount tiles0 : Nat) : List UInt8 :=
  leBytes 8 size ++ leBytes 4 tdSize ++ leBytes 4 1 ++ leBytes 8 0 ++
    leBytes 8 0 ++ leBytes 4 srcCount ++ leBytes 4 0 ++ leBytes 4 tiles0

/-- A program of 256 bytes for a channel of 128 bytes is accepted, and the copy
of its payload leaves the mapping. -/
theorem payload_leaves_chan0 : ∃ l, load (plainEnv false 1) (sizesFile 256 64 0 64) = some l ∧
      ∃ a ∈ l.accesses, a.buf = .chan0 ∧ a.inside (anecOf (sizesFile 256 64 0 64)) 1 = false := by
  have hload : (load (plainEnv false 1) (sizesFile 256 64 0 64)).map
      (·.accesses) = some (loadAccesses false
        (anecOf (sizesFile 256 64 0 64)) 0) := by decide +kernel
  obtain ⟨l, hl, hacc⟩ := Option.map_eq_some_iff.1 hload
  refine ⟨l, hl, ⟨.chan0, 0, 256⟩, ?_, rfl, by decide +kernel⟩
  rw [hacc]
  decide +kernel

/-- A program that fits, in a staged load. -/
theorem load_inside_fits : ∃ l, load (plainEnv true 1) (sizesFile 256 64 0 128) = some l ∧
      ∀ a ∈ l.accesses, a.inside (anecOf (sizesFile 256 64 0 128)) 1 = true := by
  have hload : (load (plainEnv true 1) (sizesFile 256 64 0 128)).isSome = true := by decide +kernel
  obtain ⟨l, hl⟩ := Option.isSome_iff_exists.1 hload
  have hfits : SizesOk (anecOf (sizesFile 256 64 0 128)) 1 :=
    ⟨by decide +kernel, by decide +kernel, by decide +kernel⟩
  exact ⟨l, hl, (load_inside_iff hl).2 hfits⟩

/-! ## The channels of the indices -/

/-- `src_bdx`.  Nothing is a read outside the array. -/
def Loaded.srcBdx (l : Loaded) (idx : Nat) : Option Nat :=
  l.bind.src[idx]?.map UInt8.toNat

/-- `dst_bdx`. -/
def Loaded.dstBdx (l : Loaded) (idx : Nat) : Option Nat :=
  l.bind.dst[idx]?.map UInt8.toNat

/-- Every index below a count names a channel. -/
def NamesChannels (bdx : Nat → Option Nat) (count : Nat) : Prop :=
  ∀ idx < count, ∃ channel, bdx idx = some channel ∧ channel < tileCount

theorem bindProgram_bind {stream : List UInt8} {bind : Bind}
    (h : bindProgram env anec stream = some bind) :
    bind = (bindInit anec stream).2 := by
  rw [bindProgram] at h
  split at h
  · cases h
  split at h
  · cases h
  · exact (Option.some.inj h).symm

/-- The first entries of a derived list are channels. -/
theorem namesChannels_of_take {bytes : List UInt8} {count : Nat}
    (hlen : ((bytes.take count).map UInt8.toNat).length = count)
    (hlt : ∀ c ∈ (bytes.take count).map UInt8.toNat, c < tileCount) :
    NamesChannels (fun idx => bytes[idx]?.map UInt8.toNat) count := by
  intro idx hidx
  have hget : ((bytes.take count).map UInt8.toNat)[idx]? = bytes[idx]?.map UInt8.toNat := by
    rw [getElem?_map, getElem?_take_of_lt hidx]
  have hin : idx < ((bytes.take count).map UInt8.toNat).length := by omega
  refine ⟨_, hget.symm.trans (getElem?_eq_getElem hin), ?_⟩
  exact hlt _ (getElem_mem hin)

theorem bindPositional_dst (anec : Anec) {idx : Nat} (h : idx < tileCount) :
    (bindPositional anec).dst[idx]?.map UInt8.toNat = some (4 + idx) := by
  rw [bindPositional, getElem?_map, getElem?_range h]
  rw [tileCount] at h
  exact congrArg some (Nat.mod_eq_of_lt (by rw [firstSurface]; omega))

theorem bindPositional_src (anec : Anec) {idx : Nat} (h : idx < tileCount)
    (hdst : anec.dstCount.toNat ≤ 28) :
    (bindPositional anec).src[idx]?.map UInt8.toNat = some (4 + anec.dstCount.toNat + idx) := by
  rw [bindPositional, getElem?_map, getElem?_range h]
  rw [tileCount] at h
  refine congrArg some ?_
  show (firstSurface + anec.dstCount.toNat + idx) % 2 ^ 32 % 256 = _
  rw [firstSurface, Nat.mod_eq_of_lt (by omega), Nat.mod_eq_of_lt (by omega)]

/-- In the positional map every index names a channel if and only if there are
as many surfaces as indices. -/
theorem bindPositional_iff (anec : Anec) :
    NamesChannels (fun idx => (bindPositional anec).src[idx]?.map UInt8.toNat) anec.srcCount.toNat ∧
      NamesChannels (fun idx => (bindPositional anec).dst[idx]?.map UInt8.toNat)
        anec.dstCount.toNat ↔
      anec.srcCount.toNat + anec.dstCount.toNat ≤ 28 := by
  have hcount : tileCount = 32 := rfl
  constructor
  · rintro ⟨hsrc, hdst⟩
    have hle : anec.dstCount.toNat ≤ 28 := by
      apply Nat.not_lt.1
      intro hlt
      obtain ⟨c, hc, hclt⟩ := hdst 28 hlt
      have hlast := bindPositional_dst anec (show 28 < tileCount by decide)
      have heq := Option.some.inj (hlast.symm.trans hc)
      omega
    apply Nat.not_lt.1
    intro hlt
    obtain ⟨c, hc, hclt⟩ := hsrc (28 - anec.dstCount.toNat) (by omega)
    have hlast := bindPositional_src anec
      (show 28 - anec.dstCount.toNat < tileCount by omega) hle
    have heq := Option.some.inj (hlast.symm.trans hc)
    omega
  · intro hle
    constructor
    · intro idx hidx
      exact ⟨_, bindPositional_src anec (by omega) (by omega), by omega⟩
    · intro idx hidx
      exact ⟨_, bindPositional_dst anec (by omega), by omega⟩

/-- Every index below the counts of the header names a channel if and only if
the counts fit the surfaces. -/
theorem load_channels_iff (h : load env file = some l) :
    NamesChannels l.srcBdx (anecOf file).srcCount.toNat ∧
        NamesChannels l.dstBdx (anecOf file).dstCount.toNat ↔
      (anecOf file).srcCount.toNat + (anecOf file).dstCount.toNat ≤ 28 := by
  obtain ⟨hbind, -, -, -⟩ := load_some h
  change NamesChannels (fun idx => l.bind.src[idx]?.map UInt8.toNat) _ ∧
    NamesChannels (fun idx => l.bind.dst[idx]?.map UInt8.toNat) _ ↔ _
  rw [bindProgram_bind hbind]
  cases hder : (bindInit (anecOf file)
      (program file (anecOf file).size.toNat)).1 with
  | false =>
    rw [bindInit_positional hder]
    exact bindPositional_iff _
  | true =>
    obtain ⟨_, _, _, _, hr⟩ := bindInit_derived hder
    have hle := hr.counts_le
    refine ⟨fun _ => by omega, fun _ => ⟨?_, ?_⟩⟩
    · exact namesChannels_of_take hr.src_length fun c hc =>
        (hr.allocated c (mem_append_right _ hc)).lt
    · exact namesChannels_of_take hr.dst_length fun c hc =>
        (hr.allocated c (mem_append_left _ hc)).lt

/-- A header with 29 inputs is accepted, and the last one is behind the channel
table. -/
theorem index_leaves_table : ∃ l, load (plainEnv false 1) (sizesFile 256 64 29 128) = some l ∧
      l.srcBdx 28 = some 32 := by
  have hload : (load (plainEnv false 1) (sizesFile 256 64 29 128)).map
      (·.srcBdx 28) = some (some 32) := by decide +kernel
  obtain ⟨l, hl, hbdx⟩ := Option.map_eq_some_iff.1 hload
  exact ⟨l, hl, hbdx⟩

theorem load_channels_two : ∃ l, load (plainEnv false 1) (sizesFile 256 64 2 128) = some l ∧
      NamesChannels l.srcBdx 2 := by
  have hload : (load (plainEnv false 1) (sizesFile 256 64 2 128)).isSome = true := by decide +kernel
  obtain ⟨l, hl⟩ := Option.isSome_iff_exists.1 hload
  exact ⟨l, hl, ((load_channels_iff hl).2 (by decide +kernel)).1⟩

end OmarchyAne.H13
