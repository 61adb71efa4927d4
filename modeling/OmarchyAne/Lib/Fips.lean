import Mathlib.Data.Nat.Nth
import Mathlib.Data.Nat.Prime.Basic
import OmarchyAne.Lib.Bytes

/-!
# SHA-256 as FIPS 180-4 has it

The functions on words, the constants, the message schedule, the compression
function, the padding and the digest, under the names of the standard.  A
message is a string of bytes.

The constants are not a table here.  `K` has the first 32 bits of the fractional
parts of the cube roots of the first primes, and the initial hash value those of
the square roots.  `fracRoot_eq` and `nth_eq_of_filter_range` are what a program
with a table needs to show that it has these numbers.
-/

namespace OmarchyAne.Lib.Fips

open List

variable {r n k : Nat} {p : Nat → Prop} {q : Nat → Bool}

abbrev Word := BitVec 32

/-! ## Functions -/

def rotr (n : Nat) (x : Word) : Word := x.rotateRight n

def shr (n : Nat) (x : Word) : Word := x >>> n

def ch (x y z : Word) : Word := (x &&& y) ^^^ (~~~x &&& z)

def maj (x y z : Word) : Word := (x &&& y) ^^^ (x &&& z) ^^^ (y &&& z)

/-- The functions that the standard writes with a capital sigma. -/
def bigSigma0 (x : Word) : Word := rotr 2 x ^^^ rotr 13 x ^^^ rotr 22 x

def bigSigma1 (x : Word) : Word := rotr 6 x ^^^ rotr 11 x ^^^ rotr 25 x

/-- The functions with a small sigma. -/
def smallSigma0 (x : Word) : Word := rotr 7 x ^^^ rotr 18 x ^^^ shr 3 x

def smallSigma1 (x : Word) : Word := rotr 17 x ^^^ rotr 19 x ^^^ shr 10 x

/-! ## Constants -/

/-- The integer part of a root. -/
def root (r n : Nat) : Nat := Nat.findGreatest (fun k => k ^ r ≤ n) n

/-- The first 32 bits of the fractional part of a root. -/
def fracRoot (r p : Nat) : Word := BitVec.ofNat 32 (root r (p * 2 ^ (32 * r)))

/-- The constant of a round. -/
noncomputable def K (t : Nat) : Word := fracRoot 3 (Nat.nth Nat.Prime t)

/-- The eight words of a hash value, and the working variables. -/
structure Vars where
  a : Word
  b : Word
  c : Word
  d : Word
  e : Word
  f : Word
  g : Word
  h : Word

/-- The initial hash value. -/
noncomputable def H0 : Vars where
  a := fracRoot 2 (Nat.nth Nat.Prime 0)
  b := fracRoot 2 (Nat.nth Nat.Prime 1)
  c := fracRoot 2 (Nat.nth Nat.Prime 2)
  d := fracRoot 2 (Nat.nth Nat.Prime 3)
  e := fracRoot 2 (Nat.nth Nat.Prime 4)
  f := fracRoot 2 (Nat.nth Nat.Prime 5)
  g := fracRoot 2 (Nat.nth Nat.Prime 6)
  h := fracRoot 2 (Nat.nth Nat.Prime 7)

/-! ## The compression function -/

/-- A word of a message block. -/
def blockWord (block : Bytes) (t : Nat) : Word :=
  (block.getD (4 * t) 0).toBitVec ++ (block.getD (4 * t + 1) 0).toBitVec ++
    (block.getD (4 * t + 2) 0).toBitVec ++ (block.getD (4 * t + 3) 0).toBitVec

/-- The message schedule. -/
def W (block : Bytes) (t : Nat) : Word :=
  if t < 16 then blockWord block t
  else smallSigma1 (W block (t - 2)) + W block (t - 7) +
    smallSigma0 (W block (t - 15)) + W block (t - 16)
termination_by t

/-- A round with its constant and its word of the schedule. -/
def round (k w : Word) (v : Vars) : Vars :=
  let t1 := v.h + bigSigma1 v.e + ch v.e v.f v.g + k + w
  let t2 := bigSigma0 v.a + maj v.a v.b v.c
  { a := t1 + t2, b := v.a, c := v.b, d := v.c, e := v.d + t1, f := v.e,
    g := v.f, h := v.g }

/-- The next hash value. -/
noncomputable def compress (H : Vars) (block : Bytes) : Vars :=
  let v := (List.range 64).foldl (fun v t => round (K t) (W block t) v) H
  { a := v.a + H.a, b := v.b + H.b, c := v.c + H.c, d := v.d + H.d,
    e := v.e + H.e, f := v.f + H.f, g := v.g + H.g, h := v.h + H.h }

/-! ## Padding and digest -/

/-- The bytes of zeros behind the byte `0x80`. -/
def padZeros (len : Nat) : Nat := (119 - len % 64) % 64

/-- A number in eight bytes, the highest first. -/
def be64 (n : Nat) : Bytes :=
  (List.range 8).map fun i => UInt8.ofNat (n / 256 ^ (7 - i))

/-- The padded message: a bit `1`, zeros, and the length in bits. -/
def pad (msg : Bytes) : Bytes :=
  msg ++ [0x80] ++ List.replicate (padZeros msg.length) 0 ++
    be64 (8 * msg.length)

/-- The bytes of a word, the highest first. -/
def wordBytes (w : Word) : Bytes :=
  [⟨w.extractLsb' 24 8⟩, ⟨w.extractLsb' 16 8⟩, ⟨w.extractLsb' 8 8⟩, ⟨w.extractLsb' 0 8⟩]

def Vars.bytes (v : Vars) : Bytes :=
  [v.a, v.b, v.c, v.d, v.e, v.f, v.g, v.h].flatMap wordBytes

/-- The digest. -/
noncomputable def sha256 (msg : Bytes) : Bytes :=
  ((List.range ((pad msg).length / 64)).foldl
    (fun H i => compress H (slice (pad msg) (64 * i) 64)) H0).bytes

/-! ## How to find the constants -/

theorem root_eq (hr : r ≠ 0) (hle : k ^ r ≤ n) (hlt : n < (k + 1) ^ r) : root r n = k := by
  rw [root, Nat.findGreatest_eq_iff]
  refine ⟨(Nat.le_self_pow hr k).trans hle, fun _ => hle, ?_⟩
  intro m hm _ hpow
  have hmono := Nat.pow_le_pow_left (show k + 1 ≤ m by omega) r
  omega

/-- A word is the fraction of a root if some integer part goes with it. -/
theorem fracRoot_eq {p : Nat} (hr : r ≠ 0) (hle : (n * 2 ^ 32 + k) ^ r ≤ p * 2 ^ (32 * r))
    (hlt : p * 2 ^ (32 * r) < (n * 2 ^ 32 + k + 1) ^ r) :
    fracRoot r p = BitVec.ofNat 32 k := by
  rw [fracRoot, root_eq hr hle hlt]
  apply BitVec.eq_of_toNat_eq
  rw [BitVec.toNat_ofNat, BitVec.toNat_ofNat, Nat.mul_add_mod_self_right]

theorem length_filter_range [DecidablePred p] (hq : ∀ m, q m = true ↔ p m) (n : Nat) :
    ((List.range n).filter q).length = Nat.count p n := by
  induction n with
  | zero => simp
  | succ n ih =>
    rw [range_succ, filter_append, length_append, ih, Nat.count_succ]
    by_cases hp : p n
    · simp [(hq n).2 hp, hp]
    · simp [show q n = false by simpa [hp] using (hq n).not, hp]

/-- The numbers below a bound that have a property, in order. -/
theorem nth_eq_of_filter_range (hq : ∀ m, q m = true ↔ p m) {t m : Nat}
    (h : ((List.range n).filter q)[t]? = some m) : Nat.nth p t = m := by
  classical
  induction n with
  | zero => simp at h
  | succ n ih =>
    rw [range_succ, filter_append] at h
    by_cases hin : t < ((List.range n).filter q).length
    · rw [getElem?_append_left hin] at h
      exact ih h
    · rw [getElem?_append_right (Nat.not_lt.1 hin)] at h
      cases hqn : q n with
      | false => simp [hqn] at h
      | true =>
        rw [filter_cons_of_pos hqn, filter_nil, getElem?_singleton] at h
        split at h
        next hzero =>
          obtain rfl := Option.some.inj h
          have hcount := length_filter_range hq n
          rw [show t = Nat.count p n by omega]
          exact Nat.nth_count ((hq n).1 hqn)
        next => cases h

end OmarchyAne.Lib.Fips
