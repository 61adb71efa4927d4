import OmarchyAne.Libane.Ports
import Mathlib.Data.List.GetD

/-!
# Reading the emitted sections back

The firmware resolves a BAR slot through the bytes of the OPERATION section
and finds the size of a buffer in the GENERIC section.  `operationRefs` and
`genericIo` read these bytes the way the firmware does.  Both give back what
the model of the program holds (`operationRefs_section`,
`genericIo_section`), so a fact about the emitted bytes is a fact about the
model.

The lemmas go from one byte to one word, from a word in a block to the same
word in a sequence of blocks (`le32_flatMap`), and from there to the two
sections.
-/

namespace OmarchyAne.Libane

open Lib List

/-! ## Bytes and words -/

variable {a b : List UInt8} {i : Nat} {d : List UInt8} {j v k : Nat} {m : Model}

theorem u8_append_left (h : i < a.length) : u8 (a ++ b) i = u8 a i := by
  simp only [u8, getD_append _ _ _ _ h]

theorem u8_append_right (a b : List UInt8) (i : Nat) : u8 (a ++ b) (a.length + i) = u8 b i := by
  have h := getD_append_right a b 0 (a.length + i) (Nat.le_add_right _ _)
  rw [u8, h, Nat.add_sub_cancel_left, u8]

theorem u8_set_self {v : UInt8} (h : i < d.length) : u8 (d.set i v) i = v.toNat := by
  simp [u8, getD_eq_getElem?_getD, h]

theorem u8_set_ne {v : UInt8} (h : i ≠ j) : u8 (d.set i v) j = u8 d j := by
  simp [u8, getD_eq_getElem?_getD, getElem?_set_ne h]

/-- A word depends on its four bytes only. -/
theorem le32_congr {e : List UInt8} (h : ∀ k < 4, u8 d (i + k) = u8 e (j + k)) :
    le32 d i = le32 e j := by
  have h0 := h 0 (by omega)
  have h1 := h 1 (by omega)
  have h2 := h 2 (by omega)
  have h3 := h 3 (by omega)
  simp only [Nat.add_zero] at h0
  simp only [le32, le16, Nat.add_assoc, Nat.reduceAdd, h0, h1, h2, h3]

theorem le32_append_left (h : i + 4 ≤ a.length) : le32 (a ++ b) i = le32 a i :=
  le32_congr (fun k hk => u8_append_left (by omega))

theorem le32_append_right {n : Nat} (h : a.length = n) : le32 (a ++ b) (n + i) = le32 b i :=
  le32_congr (fun k _ => by rw [← h, Nat.add_assoc, u8_append_right])

/-- The bytes of a word that was just written. -/
theorem u8_putLe32 (h : i + 4 ≤ d.length) (hk : k < 4) :
    u8 (putLe32 d i v) (i + k) = (v >>> (8 * k)) % 256 := by
  have hcases : k = 0 ∨ k = 1 ∨ k = 2 ∨ k = 3 := by omega
  simp only [putLe32]
  obtain rfl | rfl | rfl | rfl := hcases
  · rw [u8_set_ne (by omega), u8_set_ne (by omega), u8_set_ne (by omega),
      Nat.add_zero, u8_set_self (by omega)]
    rfl
  · rw [u8_set_ne (by omega), u8_set_ne (by omega),
      u8_set_self (by simp only [length_set]; omega)]
    rfl
  · rw [u8_set_ne (by omega),
      u8_set_self (by simp only [length_set]; omega)]
    rfl
  · rw [u8_set_self (by simp only [length_set]; omega)]
    rfl

/-- Four bytes of a number make up the number below `2 ^ 32`. -/
theorem four_bytes (v : Nat) :
    ((v % 256 ||| (v >>> 8 % 256) <<< 8) |||
      (v >>> 16 % 256 ||| (v >>> 24 % 256) <<< 8) <<< 16) = v % 2 ^ 32 := by
  apply Nat.eq_of_testBit_eq
  intro i
  have h256 : (256 : Nat) = 2 ^ 8 := rfl
  simp only [h256, Nat.testBit_or, Nat.testBit_shiftLeft,
    Nat.testBit_mod_two_pow, Nat.testBit_shiftRight]
  -- Which of the four bytes the bit lies in.
  rcases Nat.lt_or_ge i 8 with h | h
  · simp [h, show ¬ 8 ≤ i by omega, show ¬ 16 ≤ i by omega,
      show i < 32 by omega]
  rcases Nat.lt_or_ge i 16 with h' | h'
  · simp [h, show ¬ i < 8 by omega, show ¬ 16 ≤ i by omega,
      show i < 32 by omega, show i - 8 < 8 by omega,
      show 8 + (i - 8) = i by omega]
  rcases Nat.lt_or_ge i 24 with h'' | h''
  · simp [h, h', show ¬ i < 8 by omega, show ¬ i - 8 < 8 by omega,
      show i < 32 by omega, show i - 16 < 8 by omega,
      show 16 + (i - 16) = i by omega, show ¬ 8 ≤ i - 16 by omega]
  · simp [h, h', show ¬ i < 8 by omega, show ¬ i - 8 < 8 by omega,
      show ¬ i - 16 < 8 by omega, show 8 ≤ i - 16 by omega,
      show 24 + (i - 16 - 8) = i by omega,
      show (i - 16 - 8 < 8) = (i < 32) from propext (by omega)]

theorem le32_putLe32 (h : i + 4 ≤ d.length) : le32 (putLe32 d i v) i = v % 2 ^ 32 := by
  have h0 := u8_putLe32 (v := v) h (k := 0) (by omega)
  have h1 := u8_putLe32 (v := v) h (k := 1) (by omega)
  have h2 := u8_putLe32 (v := v) h (k := 2) (by omega)
  have h3 := u8_putLe32 (v := v) h (k := 3) (by omega)
  simp only [Nat.add_zero, Nat.mul_zero, Nat.shiftRight_zero] at h0
  simp only [le32, le16, Nat.add_assoc, Nat.reduceAdd, h0, h1, h2, h3]
  exact four_bytes v

theorem le32_putLe32_ne (h : j + 4 ≤ i ∨ i + 4 ≤ j) : le32 (putLe32 d i v) j = le32 d j := by
  refine le32_congr (fun k hk => ?_)
  simp only [putLe32]
  rw [u8_set_ne (by omega), u8_set_ne (by omega), u8_set_ne (by omega), u8_set_ne (by omega)]

theorem le64_putLe64 (h : i + 8 ≤ d.length) : le64 (putLe64 d i v) i = v % 2 ^ 64 := by
  have hlow : i + 4 ≤ d.length := by omega
  have hhigh : i + 4 + 4 ≤ (putLe32 d i v).length := by
    rw [putLe32_length]
    omega
  rw [le64, putLe64, le32_putLe32 hhigh, le32_putLe32_ne (by omega),
    le32_putLe32 hlow, or_shiftLeft_eq_add (Nat.mod_lt _ (by decide)),
    Nat.shiftRight_eq_div_pow]
  omega

theorem le64_putLe32_ne (h : j + 8 ≤ i ∨ i + 4 ≤ j) : le64 (putLe32 d i v) j = le64 d j := by
  rw [le64, le32_putLe32_ne (by omega), le32_putLe32_ne (by omega), le64]

theorem le32_putLe64_ne (h : j + 4 ≤ i ∨ i + 8 ≤ j) : le32 (putLe64 d i v) j = le32 d j := by
  rw [putLe64, le32_putLe32_ne (by omega), le32_putLe32_ne (by omega)]

theorem le64_append_right {n : Nat} (h : a.length = n) : le64 (a ++ b) (n + i) = le64 b i := by
  rw [le64, Nat.add_assoc, le32_append_right h, le32_append_right h, le64]

/-! ## Blocks of one size -/

section Blocks

variable {α : Type} {f : α → List UInt8} {n : Nat} {l : List α} {j i : Nat}

theorem u8_flatMap (hf : ∀ a ∈ l, (f a).length = n) (hj : j < l.length) (hi : i < n) :
    u8 (l.flatMap f) (n * j + i) = u8 (f l[j]) i := by
  induction l generalizing j with
  | nil => exact absurd hj (Nat.not_lt_zero _)
  | cons a l ih =>
    have ha := hf a mem_cons_self
    rw [flatMap_cons]
    cases j with
    | zero =>
      rw [Nat.mul_zero, Nat.zero_add, u8_append_left (by rw [ha]; exact hi)]
      rfl
    | succ j =>
      have hshift : n * (j + 1) + i = (f a).length + (n * j + i) := by
        rw [ha, Nat.mul_succ]
        omega
      have htail : ∀ b ∈ l, (f b).length = n :=
        fun b hb => hf b (mem_cons_of_mem _ hb)
      rw [hshift, u8_append_right, ih htail (Nat.lt_of_succ_lt_succ hj)]
      rfl

/-- A word of the `j`-th block. -/
theorem le32_flatMap (hf : ∀ a ∈ l, (f a).length = n) (hj : j < l.length) (hi : i + 4 ≤ n) :
    le32 (l.flatMap f) (n * j + i) = le32 (f l[j]) i := by
  refine le32_congr (fun k hk => ?_)
  rw [Nat.add_assoc, u8_flatMap hf hj (by omega)]

theorem le64_flatMap (hf : ∀ a ∈ l, (f a).length = n) (hj : j < l.length) (hi : i + 8 ≤ n) :
    le64 (l.flatMap f) (n * j + i) = le64 (f l[j]) i := by
  rw [le64, le32_flatMap hf hj (by omega), Nat.add_assoc, le32_flatMap hf hj (by omega), le64]

/-- Reading every entry of a list back gives the list. -/
theorem map_range_eq {β : Type} {l : List β} {g : Nat → β}
    (h : ∀ j (hj : j < l.length), g j = l[j]) :
    (List.range l.length).map g = l := by
  apply ext_getElem
  · simp
  · intro j hj hj'
    rw [getElem_map, getElem_range]
    exact h j hj'

end Blocks

/-! ## The OPERATION section -/

/-- The references of call `k` as the OPERATION section states them: their
number and then pairs of a slot and a tag. -/
def operationRefs (sec : List UInt8) (k : Nat) : List Ref :=
  (List.range (le32 sec (4 + (0x40c * k + 0x08)))).map (fun j =>
    { slot := le32 sec (4 + (0x40c * k + (0x0c + 8 * j)))
      tag := le32 sec (4 + (0x40c * k + (0x0c + (8 * j + 4)))) })

/-- The values of a model fit the fields of the sections. -/
structure Model.Fits (m : Model) : Prop where
  ios : m.io.length < 2 ^ 32
  ids : ∀ io ∈ m.io, io.bufferId < 2 ^ 32
  sizes : ∀ io ∈ m.io, io.size < 2 ^ 64
  refs : ∀ refs ∈ m.calls, refs.length ≤ 128
  slots : ∀ refs ∈ m.calls, ∀ r ∈ refs, r.slot < 2 ^ 32
  tags : ∀ refs ∈ m.calls, ∀ r ∈ refs, r.tag < 2 ^ 32

/-- The pair of a reference. -/
private def refPair (r : Ref) : List UInt8 :=
  putLe32 (putLe32 (zeros 8) 0 r.slot) 4 r.tag

private theorem refPair_length (r : Ref) : (refPair r).length = 8 := by
  simp [refPair]

private theorem refPairs_length (refs : List Ref) :
    (refs.flatMap refPair).length = 8 * refs.length := by
  induction refs with
  | nil => rfl
  | cons r refs ih =>
    rw [flatMap_cons, length_append, refPair_length, ih, length_cons]
    omega

private theorem refPair_slot (r : Ref) : le32 (refPair r) 0 = r.slot % 2 ^ 32 := by
  rw [refPair, le32_putLe32_ne (by omega), le32_putLe32 (by simp)]

private theorem refPair_tag (r : Ref) : le32 (refPair r) 4 = r.tag % 2 ^ 32 := by
  rw [refPair, le32_putLe32 (by simp)]

theorem operationRecord_length {refs : List Ref} (h : refs.length ≤ 128) :
    (operationRecord refs).length = 0x40c := by
  have hpairs := refPairs_length refs
  show (putLe32 (zeros 0x0c) 0x08 refs.length ++ refs.flatMap refPair ++
    zeros (0x400 - (refs.flatMap refPair).length)).length = 0x40c
  rw [length_append, length_append, putLe32_length, zeros_length, zeros_length]
  omega

private theorem operationRecord_count (refs : List Ref) (h : refs.length ≤ 128) :
    le32 (operationRecord refs) 0x08 = refs.length := by
  have hhead : (putLe32 (zeros 0x0c) 0x08 refs.length).length = 0x0c := by
    simp
  rw [operationRecord, append_assoc, le32_append_left (by omega),
    le32_putLe32 (by simp), Nat.mod_eq_of_lt (by omega)]

/-- A word of the `j`-th pair of a record. -/
private theorem operationRecord_pair {refs : List Ref} (hj : j < refs.length) (hi : i + 4 ≤ 8) :
    le32 (operationRecord refs) (0x0c + (8 * j + i)) = le32 (refPair refs[j]) i := by
  have hhead : (putLe32 (zeros 0x0c) 0x08 refs.length).length = 0x0c := by
    simp
  have hpairs := refPairs_length refs
  show le32 (putLe32 (zeros 0x0c) 0x08 refs.length ++ refs.flatMap refPair ++ _) _ = _
  rw [append_assoc, le32_append_right hhead, le32_append_left (by omega),
    le32_flatMap (fun r _ => refPair_length r) hj hi]

private theorem operationSection_word (hm : m.Fits) (hk : k < m.calls.length) (hi : i + 4 ≤ 0x40c) :
    le32 (operationSection m) (4 + (0x40c * k + i)) = le32 (operationRecord m.calls[k]) i := by
  have hhead : (putLe32 (zeros 4) 0 m.calls.length).length = 4 := by simp
  rw [operationSection, le32_append_right hhead,
    le32_flatMap (fun refs hr => operationRecord_length (hm.refs refs hr)) hk hi]

/-- The OPERATION section states the references of every call. -/
theorem operationRefs_section (hm : m.Fits) (hk : k < m.calls.length) :
    operationRefs (operationSection m) k = m.calls[k] := by
  have hmem : m.calls[k] ∈ m.calls := getElem_mem hk
  have hsize := hm.refs _ hmem
  rw [operationRefs, operationSection_word hm hk (by omega), operationRecord_count _ hsize]
  refine map_range_eq (fun j hj => ?_)
  have href : m.calls[k][j] ∈ m.calls[k] := getElem_mem hj
  have hslot := operationSection_word hm hk (i := 0x0c + 8 * j) (by omega)
  have htag := operationSection_word hm hk (i := 0x0c + (8 * j + 4)) (by omega)
  have hslot' := operationRecord_pair hj (i := 0) (by omega)
  simp only [Nat.add_zero] at hslot'
  rw [hslot, hslot', refPair_slot, htag, operationRecord_pair hj (by omega),
    refPair_tag, Nat.mod_eq_of_lt (hm.slots _ hmem _ href),
    Nat.mod_eq_of_lt (hm.tags _ hmem _ href)]

/-! ## The GENERIC section -/

/-- The id and the size of every buffer, as the GENERIC section states
them. -/
def genericIo (sec : List UInt8) : List (Nat × Nat) :=
  (List.range (le32 sec 0x204)).map (fun j =>
    (le32 sec (0x208 + (0x30 * j + 0x04)), le64 sec (0x208 + (0x30 * j + 0x20))))

private theorem genericEntry_length (io : Io) : (genericEntry io).length = 0x30 := by
  simp [genericEntry]

private theorem genericEntry_id (io : Io) : le32 (genericEntry io) 0x04 = io.bufferId % 2 ^ 32 := by
  simp only [genericEntry]
  rw [le32_putLe32_ne (by omega), le32_putLe64_ne (by omega),
    le32_putLe32_ne (by omega), le32_putLe32_ne (by omega),
    le32_putLe32 (by simp)]

private theorem genericEntry_size (io : Io) : le64 (genericEntry io) 0x20 = io.size % 2 ^ 64 := by
  simp only [genericEntry]
  rw [le64_putLe32_ne (by omega), le64_putLe64 (by simp)]

/-- The GENERIC section states every io record. -/
theorem genericIo_section (hm : m.Fits) : genericIo (genericSection m) =
      m.io.map (fun io => (io.bufferId, io.size)) := by
  have hhead : (putLe32 (putLe32 (putLe32 (zeros 0x208) 0x00 1) 0x04 0x10)
      0x204 m.io.length).length = 0x208 := by simp
  have hcount : le32 (genericSection m) 0x204 = m.io.length := by
    simp only [genericSection]
    rw [le32_append_left (by omega), le32_putLe32 (by simp), Nat.mod_eq_of_lt hm.ios]
  have hlen : m.io.length = (m.io.map (fun io =>
      (io.bufferId, io.size))).length := by simp
  rw [genericIo, hcount, hlen]
  refine map_range_eq (fun j hj => ?_)
  rw [← hlen] at hj
  have hio : m.io[j] ∈ m.io := getElem_mem hj
  simp only [genericSection]
  rw [le32_append_right hhead, le64_append_right hhead,
    le32_flatMap (fun io _ => genericEntry_length io) hj (by omega),
    le64_flatMap (fun io _ => genericEntry_length io) hj (by omega),
    genericEntry_id, genericEntry_size, Nat.mod_eq_of_lt (hm.ids _ hio),
    Nat.mod_eq_of_lt (hm.sizes _ hio), getElem_map]

end OmarchyAne.Libane
