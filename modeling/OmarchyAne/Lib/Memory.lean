import OmarchyAne.Lib.Bytes

/-!
# Memory that a program writes and reads

A buffer is the byte at each offset.  `poke` writes bytes at an offset and
`peek` reads some.  What was written is read back (`peek_poke`), and a write
does not change what is read elsewhere (`poke_of_outside`).

`pokeAll` makes many writes, and if they are apart each is read back
(`peek_pokeAll`).

`leBytes` are the bytes of a number, lowest first, and `leValue` reads them
back (`leValue_leBytes`).
-/

namespace OmarchyAne.Lib

open List

/-! ## Numbers in bytes -/

/-- The `k` lowest bytes of a number, lowest first. -/
def leBytes : Nat → Nat → Bytes
  | 0, _ => []
  | k + 1, v => UInt8.ofNat v :: leBytes k (v / 256)

@[simp] theorem leBytes_length (k v : Nat) : (leBytes k v).length = k := by
  induction k generalizing v with
  | zero => rfl
  | succ k ih => rw [leBytes, length_cons, ih]

theorem leValue_leBytes {k v : Nat} (h : v < 256 ^ k) : leValue (leBytes k v) = v := by
  induction k generalizing v with
  | zero =>
    rw [Nat.pow_zero] at h
    have hzero : v = 0 := by omega
    rw [hzero]
    rfl
  | succ k ih =>
    have hrest : v / 256 < 256 ^ k := by
      rw [Nat.pow_succ] at h
      exact Nat.div_lt_of_lt_mul (by omega)
    have hcons : leValue (leBytes (k + 1) v) =
        (UInt8.ofNat v).toNat + 256 * leValue (leBytes k (v / 256)) := rfl
    rw [hcons, ih hrest, UInt8.toNat_ofNat']
    omega

/-! ## Reads and writes -/

/-- The byte at each offset. -/
abbrev Mem := Nat → UInt8

def poke (m : Mem) (off : Nat) (src : Bytes) : Mem := fun i =>
  if off ≤ i ∧ i < off + src.length then src.getD (i - off) 0 else m i

def peek (m : Mem) (off n : Nat) : Bytes := (List.range n).map fun i => m (off + i)

/-- The number in `k` bytes. -/
def peekLe (m : Mem) (off k : Nat) : Nat := leValue (peek m off k)

@[simp] theorem peek_length (m : Mem) (off n : Nat) : (peek m off n).length = n := by
  rw [peek, length_map, length_range]

@[simp] theorem peek_zero (m : Mem) (off : Nat) : peek m off 0 = [] := rfl

theorem peek_succ (m : Mem) (off n : Nat) : peek m off (n + 1) = m off :: peek m (off + 1) n := by
  rw [peek, range_succ_eq_map, map_cons, map_map, peek]
  congr 1
  apply map_congr_left
  intro i _
  show m (off + (i + 1)) = m (off + 1 + i)
  congr 1
  omega

theorem peek_add (m : Mem) (off n k : Nat) :
    peek m off (n + k) = peek m off n ++ peek m (off + n) k := by
  rw [peek, range_add, map_append, map_map, peek, peek]
  congr 1
  apply map_congr_left
  intro i _
  show m (off + (n + i)) = m (off + n + i)
  rw [Nat.add_assoc]

variable {m : Mem} {off : Nat} {ws : List (Nat × Bytes)}

theorem poke_of_outside {i : Nat} {src : Bytes}
    (h : i < off ∨ off + src.length ≤ i) : poke m off src i = m i := by
  rw [poke, if_neg]
  omega

/-- A read depends on the bytes that it reads only. -/
theorem peek_congr {m' : Mem} {n : Nat} (h : ∀ i, off ≤ i → i < off + n → m' i = m i) :
    peek m' off n = peek m off n := by
  apply map_congr_left
  intro i hi
  rw [mem_range] at hi
  exact h (off + i) (by omega) (by omega)

theorem peek_poke (m : Mem) (off : Nat) (src : Bytes) :
    peek (poke m off src) off src.length = src := by
  apply ext_getElem
  · rw [peek_length]
  · intro i hi hsrc
    have hin : off ≤ off + i ∧ off + i < off + src.length := by omega
    simp only [peek, poke, getElem_map, getElem_range, if_pos hin]
    rw [Nat.add_sub_cancel_left, getD_eq_getElem?_getD,
      getElem?_eq_getElem hsrc, Option.getD_some]

/-! ## Many writes -/

/-- Two ranges, each an offset and a length, that do not overlap. -/
def Separate (a b : Nat × Nat) : Prop := a.1 + a.2 ≤ b.1 ∨ b.1 + b.2 ≤ a.1

instance decidableSeparate : DecidableRel Separate :=
  fun a b => inferInstanceAs (Decidable (a.1 + a.2 ≤ b.1 ∨ b.1 + b.2 ≤ a.1))

theorem Separate.symm {a b : Nat × Nat} (h : Separate a b) : Separate b a :=
  h.elim .inr .inl

/-- A part of a range is apart from what the range is apart from. -/
theorem Separate.part {a b c : Nat × Nat} (h : Separate a b)
    (hlow : a.1 ≤ c.1) (hhigh : c.1 + c.2 ≤ a.1 + a.2) : Separate c b := by
  unfold Separate at h ⊢
  omega

/-- The range of a write. -/
def extent (w : Nat × Bytes) : Nat × Nat := (w.1, w.2.length)

/-- Writes, one after the other. -/
def pokeAll (m : Mem) (ws : List (Nat × Bytes)) : Mem :=
  ws.foldl (fun m w => poke m w.1 w.2) m

theorem pokeAll_cons (m : Mem) (w : Nat × Bytes) (ws : List (Nat × Bytes)) :
    pokeAll m (w :: ws) = pokeAll (poke m w.1 w.2) ws := rfl

theorem pokeAll_append (m : Mem) (ws ws' : List (Nat × Bytes)) :
    pokeAll m (ws ++ ws') = pokeAll (pokeAll m ws) ws' :=
  foldl_append

theorem pokeAll_of_outside {i : Nat}
    (h : ∀ w ∈ ws, i < w.1 ∨ w.1 + w.2.length ≤ i) : pokeAll m ws i = m i := by
  induction ws generalizing m with
  | nil => rfl
  | cons w ws ih =>
    obtain ⟨hw, hws⟩ := forall_mem_cons.1 h
    rw [pokeAll_cons, ih hws, poke_of_outside hw]

/-- What writes that are apart have written is read back. -/
theorem peek_pokeAll (hsep : (ws.map extent).Pairwise Separate) {w : Nat × Bytes} (hw : w ∈ ws) :
    peek (pokeAll m ws) w.1 w.2.length = w.2 := by
  induction ws generalizing m with
  | nil => cases hw
  | cons v ws ih =>
    rw [map_cons, pairwise_cons] at hsep
    rw [pokeAll_cons]
    rcases mem_cons.1 hw with rfl | hmem
    · refine (peek_congr fun i hlow hhigh => ?_).trans (peek_poke m w.1 w.2)
      refine pokeAll_of_outside fun v hv => ?_
      have hfar : w.1 + w.2.length ≤ v.1 ∨ v.1 + v.2.length ≤ w.1 :=
        hsep.1 (extent v) (mem_map_of_mem hv)
      omega
    · exact ih hsep.2 hmem

theorem peekLe_pokeAll (hsep : (ws.map extent).Pairwise Separate) {k v : Nat}
    (hw : (off, leBytes k v) ∈ ws) (hv : v < 256 ^ k) :
    peekLe (pokeAll m ws) off k = v := by
  have hread := peek_pokeAll (m := m) hsep hw
  rw [leBytes_length] at hread
  rw [peekLe, hread, leValue_leBytes hv]

end OmarchyAne.Lib
