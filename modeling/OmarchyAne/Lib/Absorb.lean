import OmarchyAne.Lib.Bytes

/-!
# A message taken block by block

`absorb` takes the full blocks of a message into a state and leaves the rest.
A message in two pieces is taken like the whole, if the rest of the first piece
is put before the second (`absorb_append`).  So a program that keeps the rest
need not know how its message was cut.
-/

namespace OmarchyAne.Lib

open List

variable {σ : Type} (block : σ → Bytes → σ) {n : Nat}

/-- The state after the full blocks of `n` bytes, and the rest. -/
def absorb (n : Nat) (st : σ) (msg : Bytes) : σ × Bytes :=
  if 0 < n ∧ n ≤ msg.length then
    absorb n (block st (msg.take n)) (msg.drop n)
  else (st, msg)
termination_by msg.length
decreasing_by
  rw [length_drop]
  omega

variable {block} {st : σ} {msg : Bytes}

theorem absorb_of_lt (h : msg.length < n) : absorb block n st msg = (st, msg) := by
  rw [absorb, if_neg (by omega)]

theorem absorb_of_le (hn : 0 < n) (h : n ≤ msg.length) : absorb block n st msg =
      absorb block n (block st (msg.take n)) (msg.drop n) := by
  rw [absorb, if_pos ⟨hn, h⟩]

/-- One block before the rest of a message. -/
theorem absorb_block_append (hn : 0 < n) {b : Bytes} (hb : b.length = n) :
    absorb block n st (b ++ msg) = absorb block n (block st b) msg := by
  rw [absorb_of_le hn (by rw [length_append]; omega), ← hb, take_left, drop_left]

theorem absorb_append (hn : 0 < n) (st : σ) (xs ys : Bytes) :
    absorb block n st (xs ++ ys) = absorb block n (absorb block n st xs).1
        ((absorb block n st xs).2 ++ ys) := by
  induction hlen : xs.length using Nat.strongRecOn generalizing st xs with
  | ind len ih =>
    by_cases hle : n ≤ xs.length
    · have hrest := ih (xs.length - n) (by omega) (block st (xs.take n))
        (xs.drop n) (length_drop)
      rw [absorb_of_le hn hle, ← hrest, absorb_of_le hn (by rw [length_append]; omega),
        take_append_of_le_length hle, drop_append_of_le_length hle]
    · rw [absorb_of_lt (Nat.not_le.1 hle)]

theorem absorb_rest_length (hn : 0 < n) (st : σ) (msg : Bytes) :
    (absorb block n st msg).2.length = msg.length % n := by
  induction hlen : msg.length using Nat.strongRecOn generalizing st msg with
  | ind len ih =>
    by_cases hle : n ≤ msg.length
    · rw [absorb_of_le hn hle, ih (msg.length - n) (by omega) _ _
        length_drop, ← hlen, Nat.mod_eq_sub_mod hle]
    · rw [absorb_of_lt (Nat.not_le.1 hle), ← hlen, Nat.mod_eq_of_lt (Nat.not_le.1 hle)]

/-- The blocks one after the other. -/
theorem absorb_eq_foldl (hn : 0 < n) (st : σ) (msg : Bytes) :
    (absorb block n st msg).1 = (List.range (msg.length / n)).foldl
        (fun st i => block st (slice msg (n * i) n)) st := by
  induction hlen : msg.length using Nat.strongRecOn generalizing st msg with
  | ind len ih =>
    by_cases hle : n ≤ msg.length
    · have hcount : len / n = (msg.length - n) / n + 1 := by
        rw [← hlen, Nat.div_eq_sub_div hn hle]
      rw [absorb_of_le hn hle, ih (msg.length - n) (by omega) _ _
        length_drop, hcount, range_succ_eq_map, foldl_cons,
        foldl_map]
      simp only [slice, Nat.mul_zero, drop_zero, drop_drop, Nat.mul_succ, Nat.add_comm]
    · rw [absorb_of_lt (Nat.not_le.1 hle), ← hlen, Nat.div_eq_of_lt (Nat.not_le.1 hle)]
      rfl

end OmarchyAne.Lib
