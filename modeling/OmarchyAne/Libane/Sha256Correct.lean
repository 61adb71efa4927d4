import OmarchyAne.Lib.Absorb
import OmarchyAne.Lib.Fips
import OmarchyAne.Libane.Sha256

/-!
# The SHA-256 of libane is that of the standard

First the block function: the machine words of the C code are the words of the
standard (`ShaRegs.words`), the array `w` is the message schedule
(`shaSchedule_getD`), and so a block does what `Fips.compress` does
(`sha256Block_words`).  The table of constants has the fractions of the cube
roots (`shaK_eq`).

Then the context.  `Holds` says that it has taken a message: the chaining value
is that of the full blocks, the buffer starts with the rest, and the counter is
the length.  Each update keeps this, however the message is cut
(`Holds.update`), and at the end there is the padded message
(`Holds.final`).
-/

namespace OmarchyAne.Libane

open Lib List

variable {t : Nat} {c : ShaCtx} {msg : Bytes}

/-! ## The constants -/

/-- A test for primes. -/
def isPrime (p : Nat) : Bool :=
  decide (2 ≤ p) && (List.range p).all fun m => decide (m < 2) || p % m != 0

theorem isPrime_iff (p : Nat) : isPrime p = true ↔ p.Prime := by
  rw [Nat.prime_def_lt]
  simp only [isPrime, Bool.and_eq_true, decide_eq_true_eq, all_eq_true,
    mem_range, Bool.or_eq_true, bne_iff_ne]
  refine and_congr_right fun hp => ?_
  constructor
  · intro h m hm hdvd
    rcases h m hm with hsmall | hmod
    · have hne : m ≠ 0 := by
        rintro rfl
        exact absurd (Nat.eq_zero_of_zero_dvd hdvd) (by omega)
      omega
    · exact absurd (Nat.mod_eq_zero_of_dvd hdvd) hmod
  · intro h m hm
    by_cases hsmall : m < 2
    · exact .inl hsmall
    · refine .inr fun hmod => hsmall ?_
      rw [h m hm (Nat.dvd_of_mod_eq_zero hmod)]
      decide

/-- A word is the fraction of a root: a test. -/
def isFracRoot (r p k : Nat) : Bool :=
  (List.range 20).any fun n =>
    decide ((n * 2 ^ 32 + k) ^ r ≤ p * 2 ^ (32 * r)) &&
      decide (p * 2 ^ (32 * r) < (n * 2 ^ 32 + k + 1) ^ r)

theorem fracRoot_of_test {r p : Nat} (hr : r ≠ 0) {k : UInt32}
    (h : isFracRoot r p k.toNat = true) : Fips.fracRoot r p = k.toBitVec := by
  rw [isFracRoot, any_eq_true] at h
  obtain ⟨n, -, h⟩ := h
  rw [Bool.and_eq_true, decide_eq_true_eq, decide_eq_true_eq] at h
  rw [Fips.fracRoot_eq hr h.1 h.2]
  apply BitVec.eq_of_toNat_eq
  rw [BitVec.toNat_ofNat, UInt32.toNat_toBitVec, Nat.mod_eq_of_lt k.toNat_lt]

/-- The first 64 primes. -/
def primes64 : List Nat := (List.range 312).filter isPrime

theorem nth_prime_eq {p : Nat} (h : primes64[t]? = some p) : Nat.nth Nat.Prime t = p :=
  Fips.nth_eq_of_filter_range isPrime_iff h

/-- The table of the source has the constants of the standard. -/
theorem shaK_eq (ht : t < 64) : (shaK.getD t 0).toBitVec = Fips.K t := by
  have htable : ∀ t < 64, ∃ p ∈ primes64[t]?, isFracRoot 3 p (shaK.getD t 0).toNat = true := by
    decide +kernel
  obtain ⟨p, hp, hroot⟩ := htable t ht
  rw [Fips.K, nth_prime_eq hp, fracRoot_of_test (by decide) hroot]

/-! ## The block function -/

/-- The machine words as words of the standard. -/
def ShaRegs.words (r : ShaRegs) : Fips.Vars where
  a := r.a.toBitVec
  b := r.b.toBitVec
  c := r.c.toBitVec
  d := r.d.toBitVec
  e := r.e.toBitVec
  f := r.f.toBitVec
  g := r.g.toBitVec
  h := r.h.toBitVec

theorem shaStart_words : shaStart.words = Fips.H0 := by
  have hroot : ∀ {t p : Nat} {k : UInt32}, primes64[t]? = some p → isFracRoot 2 p k.toNat = true →
      k.toBitVec = Fips.fracRoot 2 (Nat.nth Nat.Prime t) := by
    intro t p k hp htest
    rw [nth_prime_eq hp, fracRoot_of_test (by decide) htest]
  have hprimes : primes64.take 8 = [2, 3, 5, 7, 11, 13, 17, 19] := by
    decide +kernel
  have hat : ∀ t < 8, primes64[t]? = [2, 3, 5, 7, 11, 13, 17, 19][t]? := by
    intro t ht
    rw [← hprimes, getElem?_take, if_pos ht]
  simp only [ShaRegs.words, shaStart, Fips.H0, Fips.Vars.mk.injEq]
  exact ⟨hroot (hat 0 (by decide)) (by decide +kernel),
    hroot (hat 1 (by decide)) (by decide +kernel),
    hroot (hat 2 (by decide)) (by decide +kernel),
    hroot (hat 3 (by decide)) (by decide +kernel),
    hroot (hat 4 (by decide)) (by decide +kernel),
    hroot (hat 5 (by decide)) (by decide +kernel),
    hroot (hat 6 (by decide)) (by decide +kernel),
    hroot (hat 7 (by decide)) (by decide +kernel)⟩

theorem rotr_toBitVec (x : UInt32) {n : Nat} (hpos : 0 < n) (hlt : n < 32) :
    (rotr x n).toBitVec = Fips.rotr n x.toBitVec := by
  have hshift : ∀ k < 32, (UInt32.ofNat k).toBitVec % 32 = BitVec.ofNat 32 k := by
    intro k hk
    have hwidth : (32 : BitVec 32).toNat = 32 := rfl
    apply BitVec.eq_of_toNat_eq
    rw [BitVec.toNat_umod, UInt32.toNat_toBitVec, UInt32.toNat_ofNat', BitVec.toNat_ofNat, hwidth]
    omega
  have hword : ∀ k < 32, (BitVec.ofNat 32 k).toNat = k := by
    intro k hk
    rw [BitVec.toNat_ofNat, Nat.mod_eq_of_lt (by omega)]
  rw [rotr, UInt32.toBitVec_or, UInt32.toBitVec_shiftRight,
    UInt32.toBitVec_shiftLeft, hshift n hlt, hshift (32 - n) (by omega),
    Fips.rotr, BitVec.rotateRight_def, Nat.mod_eq_of_lt hlt,
    BitVec.ushiftRight_eq', BitVec.shiftLeft_eq', hword n hlt,
    hword (32 - n) (by omega)]

theorem shr_toBitVec (x : UInt32) {n : UInt32} (hlt : n.toNat < 32) :
    (x >>> n).toBitVec = Fips.shr n.toNat x.toBitVec := by
  have hwidth : (32 : BitVec 32).toNat = 32 := rfl
  rw [UInt32.toBitVec_shiftRight, Fips.shr, BitVec.ushiftRight_eq',
    BitVec.toNat_umod, hwidth, UInt32.toNat_toBitVec, Nat.mod_eq_of_lt hlt]

theorem byteShift_toNat (b : UInt8) {k : UInt32} (hk : k.toNat ≤ 24) :
    (b.toUInt32 <<< k).toNat = b.toNat <<< k.toNat := by
  have hb := b.toNat_lt
  have hle : b.toNat <<< k.toNat < 2 ^ 32 := by
    rw [Nat.shiftLeft_eq]
    calc b.toNat * 2 ^ k.toNat
        < 2 ^ 8 * 2 ^ k.toNat := Nat.mul_lt_mul_of_pos_right hb (Nat.two_pow_pos _)
      _ ≤ 2 ^ 8 * 2 ^ 24 := Nat.mul_le_mul_left _ (Nat.pow_le_pow_right (by decide) hk)
      _ = 2 ^ 32 := by decide
  rw [UInt32.toNat_shiftLeft, UInt8.toNat_toUInt32,
    Nat.mod_eq_of_lt (show k.toNat < 32 by omega), Nat.mod_eq_of_lt hle]

/-- A word of the first loop. -/
theorem loadWord_toBitVec (b0 b1 b2 b3 : UInt8) :
    ((b0.toUInt32 <<< 24) ||| (b1.toUInt32 <<< 16) ||| (b2.toUInt32 <<< 8) |||
      b3.toUInt32).toBitVec =
      b0.toBitVec ++ b1.toBitVec ++ b2.toBitVec ++ b3.toBitVec := by
  apply BitVec.eq_of_toNat_eq
  rw [UInt32.toNat_toBitVec, UInt32.toNat_or, UInt32.toNat_or, UInt32.toNat_or,
    byteShift_toNat _ (by decide), byteShift_toNat _ (by decide),
    byteShift_toNat _ (by decide), UInt8.toNat_toUInt32, BitVec.toNat_append,
    BitVec.toNat_append, BitVec.toNat_append, Nat.shiftLeft_or_distrib,
    Nat.shiftLeft_or_distrib, Nat.shiftLeft_or_distrib, ← Nat.shiftLeft_add,
    ← Nat.shiftLeft_add, ← Nat.shiftLeft_add]
  rfl

theorem shaLoad_getD (p : Bytes) (ht : t < 16) :
    ((shaLoad p).getD t 0).toBitVec = Fips.blockWord p t := by
  rw [shaLoad, getD_eq_getElem?_getD, getElem?_map,
    getElem?_range ht, Option.map_some, Option.getD_some,
    loadWord_toBitVec, Fips.blockWord, Nat.mul_comm t 4]

/-- The words of an array are the schedule. -/
def IsSchedule (p : Bytes) (w : List UInt32) : Prop :=
  ∀ t < w.length, (w.getD t 0).toBitVec = Fips.W p t

theorem IsSchedule.extend {p : Bytes} {w : List UInt32} (h : IsSchedule p w)
    (hlen : 16 ≤ w.length) : IsSchedule p (w ++ [shaExtend w w.length]) := by
  intro t ht
  rw [length_append, length_singleton] at ht
  rw [getD_eq_getElem?_getD]
  by_cases hlast : t < w.length
  · rw [getElem?_append_left hlast, ← getD_eq_getElem?_getD]
    exact h t hlast
  · obtain rfl : t = w.length := by omega
    rw [getElem?_concat_length, Option.getD_some, Fips.W, if_neg (Nat.not_lt.2 hlen), shaExtend]
    simp only [UInt32.toBitVec_add, UInt32.toBitVec_xor, Fips.smallSigma0, Fips.smallSigma1]
    rw [rotr_toBitVec _ (by decide) (by decide), rotr_toBitVec _ (by decide) (by decide),
      rotr_toBitVec _ (by decide) (by decide),
      rotr_toBitVec _ (by decide) (by decide), shr_toBitVec _ (by decide),
      shr_toBitVec _ (by decide), h _ (by omega), h _ (by omega),
      h _ (by omega), h _ (by omega)]
    change _ + (_ ^^^ _ ^^^ Fips.shr 3 _) + _ + (_ ^^^ _ ^^^ Fips.shr 10 _) = _
    ac_rfl

/-- The second loop extends the schedule by one word in each turn. -/
theorem shaSchedule_prefix (p : Bytes) (n : Nat) :
    IsSchedule p ((List.range' 16 n).foldl (fun w i => w ++ [shaExtend w i]) (shaLoad p)) ∧
    ((List.range' 16 n).foldl (fun w i => w ++ [shaExtend w i]) (shaLoad p)).length = 16 + n := by
  have hload : (shaLoad p).length = 16 := by simp [shaLoad]
  induction n with
  | zero =>
    refine ⟨?_, hload⟩
    intro t ht
    change t < (shaLoad p).length at ht
    rw [hload] at ht
    rw [Fips.W, if_pos ht]
    exact shaLoad_getD p ht
  | succ n ih =>
    obtain ⟨hsched, hlen⟩ := ih
    rw [range'_concat, foldl_append, Nat.one_mul]
    have hstep := hsched.extend (by omega)
    rw [hlen] at hstep
    refine ⟨hstep, ?_⟩
    rw [foldl_cons, foldl_nil, length_append, hlen]
    rfl

theorem shaSchedule_getD (p : Bytes) (ht : t < 64) :
    ((shaSchedule p).getD t 0).toBitVec = Fips.W p t := by
  obtain ⟨hsched, hlen⟩ := shaSchedule_prefix p 48
  exact hsched t (by rw [hlen]; exact ht)

theorem shaRound_words (k w : UInt32) (r : ShaRegs) :
    (shaRound k w r).words = Fips.round k.toBitVec w.toBitVec r.words := by
  simp only [shaRound, ShaRegs.words, Fips.round, Fips.bigSigma0,
    Fips.bigSigma1, Fips.ch, Fips.maj, UInt32.toBitVec_add,
    UInt32.toBitVec_xor, UInt32.toBitVec_and, UInt32.toBitVec_not]
  rw [rotr_toBitVec _ (by decide) (by decide), rotr_toBitVec _ (by decide) (by decide),
    rotr_toBitVec _ (by decide) (by decide),
    rotr_toBitVec _ (by decide) (by decide),
    rotr_toBitVec _ (by decide) (by decide),
    rotr_toBitVec _ (by decide) (by decide)]

/-- The third loop. -/
theorem shaRounds_words (p : Bytes) (st : ShaRegs) {n : Nat} (hn : n ≤ 64) :
    ((List.range n).foldl (fun r i => shaRound (shaK.getD i 0) ((shaSchedule p).getD i 0) r)
      st).words =
    (List.range n).foldl (fun v t => Fips.round (Fips.K t) (Fips.W p t) v) st.words := by
  induction n with
  | zero => rfl
  | succ n ih =>
    rw [range_succ, foldl_append, foldl_append, ← ih (by omega)]
    simp only [foldl_cons, foldl_nil]
    rw [shaRound_words, shaK_eq (by omega), shaSchedule_getD p (by omega)]

/-- A block does what the standard says. -/
theorem sha256Block_words (st : ShaRegs) (p : Bytes) :
    (sha256Block st p).words = Fips.compress st.words p := by
  have hrounds := shaRounds_words p st (Nat.le_refl 64)
  rw [Fips.compress, ← hrounds]
  simp only [sha256Block, ShaRegs.words, UInt32.toBitVec_add, Fips.Vars.mk.injEq]
  exact ⟨BitVec.add_comm _ _, BitVec.add_comm _ _, BitVec.add_comm _ _,
    BitVec.add_comm _ _, BitVec.add_comm _ _, BitVec.add_comm _ _,
    BitVec.add_comm _ _, BitVec.add_comm _ _⟩

/-! ## The context -/

/-- The context has taken a message. -/
structure Holds (c : ShaCtx) (msg : Bytes) : Prop where
  buf : c.buf.length = 64
  blocks : absorb sha256Block 64 shaStart msg = (c.st, c.buf.take c.buflen)
  buflen : c.buflen = msg.length % 64
  total : c.total = msg.length % 2 ^ 64

theorem sha256Blocks_eq (st : ShaRegs) (p : Bytes) :
    sha256Blocks st p = absorb sha256Block 64 st p := by
  induction hlen : p.length using Nat.strongRecOn generalizing st p with
  | ind len ih =>
    rw [sha256Blocks]
    split
    next hle =>
      rw [ih (p.length - 64) (by omega) _ _ length_drop, absorb_of_le (by decide) hle]
    next hlt => rw [absorb_of_lt (Nat.not_le.1 hlt)]

/-- A buffer that is filled from its start. -/
theorem take_blit (src : Bytes) {buf : Bytes} {off : Nat} (hoff : off ≤ buf.length) :
    (blit buf off src).take (off + src.length) = buf.take off ++ src := by
  have hlen : (buf.take off ++ src).length = off + src.length := by
    rw [length_append, length_take, Nat.min_eq_left hoff]
  rw [blit, ← hlen, take_left]

theorem Holds.init (hbuf : c.buf.length = 64) : Holds (sha256Init c) [] where
  buf := hbuf
  blocks := absorb_of_lt (by decide)
  buflen := rfl
  total := rfl

/-- The bytes that come to an empty buffer. -/
theorem sha256Rest_holds {data : Bytes} (hbuf : c.buf.length = 64)
    (hblocks : absorb sha256Block 64 shaStart msg =
      absorb sha256Block 64 c.st data) (htotal : c.total = msg.length % 2 ^ 64) :
    Holds (sha256Rest c data) msg := by
  have hrest : (absorb sha256Block 64 shaStart msg).2.length =
      msg.length % 64 := absorb_rest_length (by decide) shaStart msg
  rw [sha256Rest, sha256Blocks_eq, ← hblocks]
  have hlt : msg.length % 64 < 64 := Nat.mod_lt _ (by decide)
  refine ⟨?_, ?_, hrest, htotal⟩
  · exact (blit_length (by omega)).trans hbuf
  · have htake := take_blit (absorb sha256Block 64 shaStart msg).2 (Nat.zero_le c.buf.length)
    rw [Nat.zero_add, take_zero, nil_append] at htake
    simp only [htake]

theorem Holds.update (h : Holds c msg) (data : Bytes) :
    Holds (sha256Update c data) (msg ++ data) := by
  have hbuf := h.buf
  have hbuflen := h.buflen
  have hlt : msg.length % 64 < 64 := Nat.mod_lt _ (by decide)
  have hrest : (c.buf.take c.buflen).length = c.buflen := by
    rw [length_take]
    omega
  have htotal : (c.total + data.length) % 2 ^ 64 = (msg ++ data).length % 2 ^ 64 := by
    rw [h.total, length_append, Nat.mod_add_mod]
  have happend : absorb sha256Block 64 shaStart (msg ++ data) =
      absorb sha256Block 64 c.st (c.buf.take c.buflen ++ data) := by
    rw [absorb_append (by decide), h.blocks]
  rw [sha256Update]
  simp only
  split
  next hsome =>
    split
    next hshort =>
      -- The block is still not full.
      refine ⟨?_, ?_, ?_, htotal⟩
      · exact (blit_length (by omega)).trans hbuf
      · rw [happend, absorb_of_lt (by rw [length_append]; omega)]
        change _ = (c.st, (blit c.buf c.buflen data).take _)
        rw [take_blit _ (by omega)]
      · change c.buflen + data.length = _
        rw [length_append]
        omega
    next hfull =>
      have htake : (data.take (64 - c.buflen)).length = 64 - c.buflen := by
        rw [length_take]
        omega
      have hblock : blit c.buf c.buflen (data.take (64 - c.buflen)) =
          c.buf.take c.buflen ++ data.take (64 - c.buflen) := by
        rw [blit, htake, drop_eq_nil_of_le (by omega), append_nil]
      refine sha256Rest_holds ?_ ?_ htotal
      · exact (blit_length (by omega)).trans hbuf
      · change _ = absorb sha256Block 64
          (sha256Block c.st (blit c.buf c.buflen _)) _
        rw [happend, hblock, ← absorb_block_append (by decide)
          (by rw [length_append]; omega), append_assoc,
          take_append_drop]
  next hnone =>
    have hzero : c.buflen = 0 := not_not.1 hnone
    refine sha256Rest_holds hbuf ?_ htotal
    rw [happend, hzero, take_zero, nil_append]

/-- The updates of a message that is cut in pieces. -/
theorem Holds.foldl_update (h : Holds c msg) (chunks : List Bytes) :
    Holds (chunks.foldl sha256Update c) (msg ++ chunks.flatten) := by
  induction chunks generalizing c msg with
  | nil =>
    rw [flatten_nil, append_nil]
    exact h
  | cons data chunks ih =>
    rw [foldl_cons, flatten_cons, ← append_assoc]
    exact ih (h.update data)

/-! ## The end -/

/-- The length is written over the last eight bytes of a block. -/
theorem putBits_eq {l : Bytes} (hl : l.length = 64) (bits : Nat) :
    putBits l bits = l.take 56 ++ Fips.be64 bits := by
  obtain ⟨front, back, rfl, hfront⟩ : ∃ front back, l = front ++ back ∧ front.length = 56 :=
    ⟨l.take 56, l.drop 56, (take_append_drop 56 l).symm, by simp [hl]⟩
  have hback : back.length = 8 := by
    rw [length_append] at hl
    omega
  obtain ⟨x0, x1, x2, x3, x4, x5, x6, x7, rfl⟩ : ∃ x0 x1 x2 x3 x4 x5 x6 x7,
      back = [x0, x1, x2, x3, x4, x5, x6, x7] := by
    rcases back with _ | ⟨x0, _ | ⟨x1, _ | ⟨x2, _ | ⟨x3, _ | ⟨x4, _ | ⟨x5,
      _ | ⟨x6, _ | ⟨x7, _ | ⟨x8, back⟩⟩⟩⟩⟩⟩⟩⟩⟩ <;> simp at hback
    exact ⟨x0, x1, x2, x3, x4, x5, x6, x7, rfl⟩
  rw [← hfront, take_left, putBits, Fips.be64]
  simp only [range_succ, range_zero, nil_append,
    cons_append, foldl_cons, foldl_nil, set_append, hfront,
    Nat.reduceLT, if_false, Nat.reduceSub, set_cons_succ,
    set_cons_zero, map_cons, map_nil, Nat.reduceMul,
    Nat.reducePow]

theorem stBytes_eq (w : UInt32) : stBytes w = Fips.wordBytes w.toBitVec := by
  have hbyte : ∀ {k : UInt32} {n : Nat}, k.toNat = n → n < 32 →
      (w >>> k).toUInt8 = ⟨w.toBitVec.extractLsb' n 8⟩ := by
    intro k n hk hn
    apply UInt8.toNat_inj.1
    rw [UInt32.toNat_toUInt8, UInt32.toNat_shiftRight, hk, Nat.mod_eq_of_lt hn]
    exact (BitVec.extractLsb'_toNat n 8 w.toBitVec).symm
  have hlow : w.toUInt8 = ⟨w.toBitVec.extractLsb' 0 8⟩ := by
    apply UInt8.toNat_inj.1
    rw [UInt32.toNat_toUInt8]
    exact (BitVec.extractLsb'_toNat 0 8 w.toBitVec).symm
  rw [stBytes, Fips.wordBytes, hbyte (n := 24) rfl (by decide),
    hbyte (n := 16) rfl (by decide), hbyte (n := 8) rfl (by decide), hlow]

/-- The block with the byte `0x80` behind the rest of a message. -/
theorem tail_eq {rest : Bytes} (h : rest.length < 64) :
    (blit (List.replicate 64 0) 0 rest).set rest.length 0x80 =
      rest ++ [0x80] ++ List.replicate (63 - rest.length) 0 := by
  have hrest : (List.replicate 64 (0 : UInt8)).drop (0 + rest.length) =
      0 :: List.replicate (63 - rest.length) 0 := by
    rw [Nat.zero_add, drop_replicate,
      show 64 - rest.length = (63 - rest.length) + 1 by omega,
      replicate_succ]
  rw [blit, hrest, take_zero, nil_append, set_append_right _ _ le_rfl, Nat.sub_self,
    set_cons_zero, append_assoc, singleton_append]

/-- The blocks of the padded message: those of the context and one or two
more. -/
theorem Holds.absorb_pad (h : Holds c msg) (hlen : msg.length < 2 ^ 61) :
    (absorb sha256Block 64 shaStart (Fips.pad msg)).1 =
      let bits := c.total * 2 ^ 3 % 2 ^ 64
      let tail := (blit (List.replicate 64 0) 0 (c.buf.take c.buflen)).set c.buflen 0x80
      if 56 ≤ c.buflen then
        sha256Block (sha256Block c.st tail) (putBits (List.replicate 64 0) bits)
      else sha256Block c.st (putBits tail bits) := by
  have hbuf := h.buf
  have hbuflen := h.buflen
  have hlt : msg.length % 64 < 64 := Nat.mod_lt _ (by decide)
  obtain ⟨rest, hrest⟩ : ∃ rest, c.buf.take c.buflen = rest := ⟨_, rfl⟩
  have hrestlen : rest.length = c.buflen := by
    rw [← hrest, length_take]
    omega
  have hbits : c.total * 2 ^ 3 % 2 ^ 64 = 8 * msg.length := by
    rw [h.total, Nat.mod_eq_of_lt (by omega), Nat.mod_eq_of_lt (by omega)]
    omega
  have hbe : (Fips.be64 (8 * msg.length)).length = 8 := by simp [Fips.be64]
  have hpad : absorb sha256Block 64 shaStart (Fips.pad msg) =
      absorb sha256Block 64 c.st (rest ++ ([0x80] ++ List.replicate (Fips.padZeros msg.length) 0 ++
        Fips.be64 (8 * msg.length))) := by
    rw [Fips.pad, append_assoc, append_assoc,
      absorb_append (by decide), h.blocks, hrest, ← append_assoc [0x80]]
  rw [hpad, hbits, hrest]
  simp only
  rw [← hrestlen, tail_eq (by omega)]
  split
  next hlong =>
    -- The length does not fit behind the rest.
    have hzeros : Fips.padZeros msg.length = (63 - rest.length) + 56 := by
      rw [Fips.padZeros]
      omega
    have hsplit : rest ++ ([0x80] ++ List.replicate (Fips.padZeros msg.length) 0 ++
          Fips.be64 (8 * msg.length)) =
        (rest ++ [0x80] ++ List.replicate (63 - rest.length) 0) ++
          ((List.replicate 56 0 ++ Fips.be64 (8 * msg.length)) ++ []) := by
      rw [hzeros, replicate_add]
      simp only [append_assoc, append_nil]
    rw [hsplit, absorb_block_append (by decide) (by simp; omega),
      absorb_block_append (by decide) (by simp [hbe]),
      absorb_of_lt (by decide), putBits_eq (by simp), take_replicate]
    rfl
  next hshort =>
    have hzeros : 63 - rest.length = Fips.padZeros msg.length + 8 := by
      rw [Fips.padZeros]
      omega
    have htail : (rest ++ [0x80] ++ List.replicate (63 - rest.length) (0 : UInt8)).take 56 =
        rest ++ [0x80] ++ List.replicate (Fips.padZeros msg.length) 0 := by
      have hfront : (rest ++ [0x80] ++ List.replicate
          (Fips.padZeros msg.length) (0 : UInt8)).length = 56 := by
        simp
        omega
      rw [hzeros, replicate_add, ← append_assoc, ← hfront, take_left]
    rw [putBits_eq (by simp; omega), htail]
    have hsplit : rest ++ ([0x80] ++ List.replicate (Fips.padZeros msg.length) 0 ++
          Fips.be64 (8 * msg.length)) =
        (rest ++ [0x80] ++ List.replicate (Fips.padZeros msg.length) 0 ++
          Fips.be64 (8 * msg.length)) ++ [] := by
      simp only [append_assoc, append_nil]
    rw [hsplit, absorb_block_append (by decide) (by simp [hbe]; omega), absorb_of_lt (by decide)]

theorem Holds.final (h : Holds c msg) (hlen : msg.length < 2 ^ 61) :
    sha256Final c = Fips.sha256 msg := by
  have hpad := h.absorb_pad hlen
  have hwords : (absorb sha256Block 64 shaStart (Fips.pad msg)).1.words =
      (List.range ((Fips.pad msg).length / 64)).foldl
        (fun H i => Fips.compress H (slice (Fips.pad msg) (64 * i) 64))
        Fips.H0 := by
    rw [absorb_eq_foldl (by decide), ← shaStart_words]
    refine (foldl_hom ShaRegs.words ?_).symm
    intro st i
    exact (sha256Block_words st _).symm
  rw [Fips.sha256, ← hwords, hpad, sha256Final]
  simp only [Fips.Vars.bytes, ShaRegs.words, flatMap_cons, flatMap_nil, stBytes_eq]

/-- The digest does not depend on how the message is cut, and it is that of the
standard. -/
theorem sha256_chunks {c : ShaCtx} (hbuf : c.buf.length = 64)
    {chunks : List Bytes} (hlen : chunks.flatten.length < 2 ^ 61) :
    sha256Final (chunks.foldl sha256Update (sha256Init c)) = Fips.sha256 chunks.flatten := by
  have h := (Holds.init hbuf).foldl_update chunks
  rw [nil_append] at h
  exact h.final hlen

/-- A context whose memory has not been set. -/
def freshCtx : ShaCtx where
  st := { a := 1, b := 2, c := 3, d := 4, e := 5, f := 6, g := 7, h := 8 }
  buf := List.replicate 64 0xaa
  buflen := 17
  total := 1000

theorem sha256_chunks_abc :
    sha256Final ([ascii "ab", [], ascii "c"].foldl sha256Update
      (sha256Init freshCtx)) = Fips.sha256 (ascii "abc") :=
  sha256_chunks (by decide) (by decide)

end OmarchyAne.Libane
