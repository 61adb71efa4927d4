import OmarchyAne.Adt.Walk
import OmarchyAne.Lib.Memory

/-!
# Where the two readers agree

Both readers take the first child of the root that passes a test for `/arm-io`,
and then its first child that passes a test for the engine.  The tests differ:
the H16 reader does not look at the case of a name, and it wants the whole name
in the property.  They find the same node exactly if the first child that passes
one of the two tests passes both (`FirstChild`).

The segments differ where the last of four words has more than 32 bits: the H16
reader clears what is above, the H15 reader does not.

`readers_agree_iff` puts this together (`Agree`).
-/

namespace OmarchyAne.Adt

open Lib

/-! ## The first child that passes a test -/

/-- The first child of a node that passes a test is at an offset. -/
def FirstChild (b : Blob) (n : Node) (p : Nat → Prop) (off : Nat) : Prop :=
  ∃ i, ChildAt b n i off ∧ p off ∧ ∀ j < i, ∀ o, ChildAt b n j o → ¬ p o

section First

variable {b : Blob} {n : Node} {place : Nat → Nat} {p q : Nat → Prop}
  {off off' : Nat}

theorem Kids.firstChild_iff (h : Kids b n place) :
    FirstChild b n p off ↔ ∃ i < n.nchildren, off = place i ∧ p (place i) ∧
      ∀ j < i, ¬ p (place j) := by
  constructor
  · rintro ⟨i, hchild, hp, hbefore⟩
    obtain ⟨hi, rfl⟩ := (h.childAt i off).1 hchild
    refine ⟨i, hi, rfl, hp, ?_⟩
    intro j hj
    exact hbefore j hj _ ((h.childAt j _).2 ⟨by omega, rfl⟩)
  · rintro ⟨i, hi, rfl, hp, hbefore⟩
    refine ⟨i, (h.childAt i _).2 ⟨hi, rfl⟩, hp, ?_⟩
    intro j hj o ho
    obtain ⟨-, rfl⟩ := (h.childAt j o).1 ho
    exact hbefore j hj

theorem Kids.firstChild_unique (h : Kids b n place)
    (hfirst : FirstChild b n p off) (hfirst' : FirstChild b n p off') :
    off = off' := by
  obtain ⟨i, -, rfl, hp, hbefore⟩ := h.firstChild_iff.1 hfirst
  obtain ⟨j, -, rfl, hp', hbefore'⟩ := h.firstChild_iff.1 hfirst'
  rcases Nat.lt_trichotomy i j with hlt | rfl | hgt
  · exact absurd hp (hbefore' i hlt)
  · rfl
  · exact absurd hp' (hbefore j hgt)

/-- Two tests find the same child exactly if the first child that passes one of
them passes both. -/
theorem Kids.firstChild_eq_iff (h : Kids b n place)
    (hfirst : FirstChild b n p off) (hfirst' : FirstChild b n q off') :
    off = off' ↔ ∀ o, FirstChild b n (fun o => p o ∨ q o) o → p o ∧ q o := by
  obtain ⟨i, hi, rfl, hp, hbefore⟩ := h.firstChild_iff.1 hfirst
  obtain ⟨j, hj, rfl, hq, hbefore'⟩ := h.firstChild_iff.1 hfirst'
  constructor
  · intro heq o ho
    obtain rfl := h.place_inj hi hj heq
    have hboth : FirstChild b n (fun o => p o ∨ q o) (place i) := by
      rw [h.firstChild_iff]
      refine ⟨i, hi, rfl, .inl hp, ?_⟩
      rintro k hk (hpk | hqk)
      · exact hbefore k hk hpk
      · exact hbefore' k hk hqk
    rw [h.firstChild_unique ho hboth]
    exact ⟨hp, hq⟩
  · intro hboth
    rcases Nat.lt_trichotomy i j with hlt | rfl | hgt
    · refine absurd (hboth (place i) ?_).2 (hbefore' i hlt)
      rw [h.firstChild_iff]
      refine ⟨i, hi, rfl, .inl hp, ?_⟩
      rintro k hk (hpk | hqk)
      · exact hbefore k hk hpk
      · exact hbefore' k (by omega) hqk
    · rfl
    · refine absurd (hboth (place j) ?_).1 (hbefore j hgt)
      rw [h.firstChild_iff]
      refine ⟨j, hj, rfl, .inr hq, ?_⟩
      rintro k hk (hpk | hqk)
      · exact hbefore k (by omega) hpk
      · exact hbefore' k hk hqk

end First

/-! ## The tests -/

/-- The H15 reader takes the node at an offset for `/arm-io`. -/
def ArmIo15 (b : Blob) (off : Nat) : Prop :=
  isNamed15 b armIoText (b.node off) = true

def ArmIo16 (b : Blob) (off : Nat) : Prop := isArmIo16 b (b.node off) = true

/-- The H15 reader takes the node at an offset for the engine. -/
def Ane15 (b : Blob) (aneType off : Nat) : Prop :=
  isAne15 b aneType (b.node off) = .ok true

def Ane16 (b : Blob) (aneType off : Nat) : Prop :=
  isAne16 b aneType (b.node off) = true

section Find

variable {b : Blob} (hlen : b.len ≤ adtMaxLen) {n : Node} {place : Nat → Nat} {fuel : Nat}
  {c : Node} {aneType : Nat} {p : Nat → Prop} {off : Nat}

include hlen

theorem Kids.child15_ok (h : Kids b n place) {i : Nat} (hchild : child15 b fuel n i = .ok c) :
    i < n.nchildren ∧ c = b.node (place i) := by
  obtain ⟨off, hoff, hc⟩ := bind_eq_ok.1 hchild
  obtain ⟨hi, rfl⟩ := (h.childAt i off).1 ⟨fuel, hoff⟩
  obtain ⟨-, rfl⟩ := nodeAt15_ok (h.small hlen hi) hc
  exact ⟨hi, rfl⟩

/-- A loop of the H15 reader over the children of a node. -/
theorem Kids.find15_ok (h : Kids b n place) (test : Node → Except Err15 Bool)
    (hfind : firstM (fun i => do
      let c ← child15 b fuel n i
      let yes ← test c
      return if yes then some c else none) n.nchildren 0 = .ok (some c)) :
    ∃ off, c = b.node off ∧ FirstChild b n (fun o => test (b.node o) = .ok true) off := by
  obtain ⟨i, -, hi, hbefore⟩ := firstM_some hfind
  rw [Nat.zero_add] at hi
  obtain ⟨d, hd, hi⟩ := bind_eq_ok.1 hi
  obtain ⟨hin, rfl⟩ := h.child15_ok hlen hd
  obtain ⟨yes, hyes, htest⟩ := bind_eq_ok.1 hi
  have htest := pure_eq_ok.1 htest
  cases yes with
  | false => cases htest
  | true =>
    cases htest
    refine ⟨place i, rfl, h.firstChild_iff.2 ⟨i, hin, rfl, hyes, ?_⟩⟩
    intro k hk hk'
    have hnone := hbefore k hk
    rw [Nat.zero_add] at hnone
    obtain ⟨e, he, hnone⟩ := bind_eq_ok.1 hnone
    obtain ⟨-, rfl⟩ := h.child15_ok hlen he
    obtain ⟨yes, hyes', htest'⟩ := bind_eq_ok.1 hnone
    obtain rfl := Except.ok.inj (hk'.symm.trans hyes')
    cases pure_eq_ok.1 htest'

theorem Kids.findChild16_ok (h : Kids b n place) {test : Node → Bool}
    (hempty : test (nodeAt16 b b.len) = false)
    (hfind : findChild16 b fuel n test = .ok c) :
    ∃ off, c = b.node off ∧ FirstChild b n (fun o => test (b.node o) = true) off := by
  obtain ⟨found, hfound, hres⟩ := bind_eq_ok.1 hfind
  cases found with
  | none => cases hres
  | some c' =>
    cases hres
    obtain ⟨i, hin, hi, hbefore⟩ := firstM_some hfound
    rw [Nat.zero_add] at hi
    obtain ⟨d, hd, htest⟩ := bind_eq_ok.1 hi
    have htest := pure_eq_ok.1 htest
    split at htest
    next hyes =>
      obtain rfl := Option.some.inj htest
      have hne : d ≠ nodeAt16 b b.len := by
        rintro rfl
        rw [hempty] at hyes
        exact Bool.false_ne_true hyes
      have hreal : ∀ {j d'}, j ≤ i → child16 b fuel n j = .ok d' → d' = b.node (place j) :=
        fun hj hd' => h.child16_cases hlen hin hd hne hj hd'
      have hplace := hreal (Nat.le_refl i) hd
      refine ⟨place i, hplace, h.firstChild_iff.2 ⟨i, hin, rfl, ?_, ?_⟩⟩
      · rw [← hplace]
        exact hyes
      · intro k hk hk'
        have hnone := hbefore k hk
        rw [Nat.zero_add] at hnone
        obtain ⟨e, he, htest'⟩ := bind_eq_ok.1 hnone
        obtain rfl := hreal (by omega) he
        rw [if_pos hk'] at htest'
        cases pure_eq_ok.1 htest'
    next => cases htest

omit hlen in
theorem prop16_empty (b : Blob) (name : Bytes) :
    prop16 b (nodeAt16 b b.len) name = .error .ENOENT := by
  rw [nodeAt16, if_pos (by omega)]
  rfl

/-- Where the H15 reader finds the engine. -/
theorem findAne15_ok (h : findAne15 b fuel aneType = .ok c) :
    8 ≤ b.len ∧ (∃ e, Ends b (b.node 0) e) ∧
      ∃ armIo off, FirstChild b (b.node 0) (ArmIo15 b) armIo ∧
        FirstChild b (b.node armIo) (Ane15 b aneType) off ∧ c = b.node off := by
  rw [findAne15] at h
  split at h
  · cases h
  next hmin =>
  obtain ⟨root, hroot, h⟩ := bind_eq_ok.1 h
  obtain ⟨hin, rfl⟩ := nodeAt15_ok (show 0 < 2 ^ 32 - 64 by decide) hroot
  obtain ⟨e, hend, h⟩ := bind_eq_ok.1 h
  have hends : Ends b (b.node 0) e := ⟨fuel, hend⟩
  obtain ⟨place, hkids, -⟩ := exists_kids hlen hin hends
  obtain ⟨armIo, hnamed, h⟩ := bind_eq_ok.1 h
  obtain ⟨found, hfound, hres⟩ := bind_eq_ok.1 hnamed
  cases found with
  | none => cases hres
  | some armIo' =>
    cases hres
    obtain ⟨off, rfl, hfirst⟩ := hkids.find15_ok hlen
      (fun c => .ok (isNamed15 b armIoText c)) hfound
    simp only [Except.ok.injEq] at hfirst
    obtain ⟨i, hi, rfl, -⟩ := hkids.firstChild_iff.1 hfirst
    have hinside := (hkids.inside hi).2
    have hlast := hkids.last
    obtain ⟨-, hends'⟩ := hkids.child hlen hi
    obtain ⟨place', hkids', -⟩ := exists_kids hlen (show place i + 8 ≤ b.len by omega) hends'
    obtain ⟨found, hfound, hres⟩ := bind_eq_ok.1 h
    cases found with
    | none => cases hres
    | some c' =>
      cases hres
      obtain ⟨off, hoff, hfirst'⟩ := hkids'.find15_ok hlen (isAne15 b aneType) hfound
      exact ⟨hin, ⟨e, hends⟩, place i, off, hfirst, hfirst', hoff⟩

/-- Where the H16 reader finds the engine, in a tree that the H15 reader
accepts. -/
theorem findAne16_ok {e : Nat} (hin : 8 ≤ b.len) (hends : Ends b (b.node 0) e)
    (h : findAne16 b fuel aneType = .ok c) :
    ∃ armIo off, FirstChild b (b.node 0) (ArmIo16 b) armIo ∧
      FirstChild b (b.node armIo) (Ane16 b aneType) off ∧ c = b.node off := by
  obtain ⟨place, hkids, -⟩ := exists_kids hlen (show 0 + 8 ≤ b.len by omega) hends
  obtain ⟨armIo, hnamed, h⟩ := bind_eq_ok.1 h
  rw [nodeAt16, if_neg (by omega)] at hnamed
  obtain ⟨off, rfl, hfirst⟩ := hkids.findChild16_ok hlen (by rw [isArmIo16, prop16_empty]) hnamed
  obtain ⟨i, hi, rfl, -⟩ := hkids.firstChild_iff.1 hfirst
  have hinside := (hkids.inside hi).2
  have hlast := hkids.last
  obtain ⟨-, hends'⟩ := hkids.child hlen hi
  obtain ⟨place', hkids', -⟩ := exists_kids hlen (show place i + 8 ≤ b.len by omega) hends'
  obtain ⟨off, hoff, hfirst'⟩ := hkids'.findChild16_ok hlen (by rw [isAne16, prop16_empty]) h
  exact ⟨place i, off, hfirst, hfirst', hoff⟩

/-- The kids of a child of the root. -/
theorem exists_kids_of_firstChild (hkids : Kids b n place) (h : FirstChild b n p off) :
    ∃ i < n.nchildren, off = place i ∧ ∃ place', Kids b (b.node off) place' ∧
      place' (b.node off).nchildren = place (i + 1) := by
  obtain ⟨i, hi, rfl, -⟩ := hkids.firstChild_iff.1 h
  have hinside := (hkids.inside hi).2
  have hlast := hkids.last
  obtain ⟨-, hends⟩ := hkids.child hlen hi
  exact ⟨i, hi, rfl, exists_kids hlen (show place i + 8 ≤ b.len by omega) hends⟩

omit hlen in
theorem Kids.firstChild_inside (h : Kids b n place) (hfirst : FirstChild b n p off) :
    n.off + 8 ≤ off ∧ off + 8 ≤ place n.nchildren := by
  obtain ⟨i, hi, rfl, -⟩ := h.firstChild_iff.1 hfirst
  exact h.inside hi

/-- The two readers find the same node exactly if the first candidates of both
steps pass both tests. -/
theorem found_eq_iff (hkids : Kids b n place) {p' q q' : Nat → Prop}
    {a a' off' : Nat} (ha : FirstChild b n p a) (ha' : FirstChild b n p' a')
    (hoff : FirstChild b (b.node a) q off)
    (hoff' : FirstChild b (b.node a') q' off') :
    off = off' ↔ (∀ o, FirstChild b n (fun o => p o ∨ p' o) o → p o ∧ p' o) ∧
        ∀ o, FirstChild b (b.node a) (fun o => q o ∨ q' o) o → q o ∧ q' o := by
  obtain ⟨i, hi, rfl, place₁, hkids₁, hend₁⟩ := exists_kids_of_firstChild hlen hkids ha
  obtain ⟨j, hj, rfl, place₂, hkids₂, hend₂⟩ := exists_kids_of_firstChild hlen hkids ha'
  have hin := hkids₁.firstChild_inside hoff
  have hin' := hkids₂.firstChild_inside hoff'
  rw [hend₁] at hin
  rw [hend₂] at hin'
  change place i + 8 ≤ off ∧ _ at hin
  change place j + 8 ≤ off' ∧ _ at hin'
  rw [← hkids.firstChild_eq_iff ha ha']
  constructor
  · intro heq
    -- The subtrees of two children do not touch each other.
    have hsame : i = j := by
      rcases Nat.lt_trichotomy i j with hlt | hsame | hgt
      · have hle := hkids.place_le (show i + 1 ≤ j by omega) (by omega)
        omega
      · exact hsame
      · have hle := hkids.place_le (show j + 1 ≤ i by omega) (by omega)
        omega
    subst hsame
    exact ⟨rfl, (hkids₁.firstChild_eq_iff hoff hoff').1 heq⟩
  · rintro ⟨hsame, hboth⟩
    obtain rfl := hkids.place_inj hi hj hsame
    exact (hkids₁.firstChild_eq_iff hoff hoff').2 hboth

end Find

/-! ## The segments -/

/-- The record at `row` has the words of the record at `row'`: the physical
address, the address of the coprocessor and the size.  Above the size of four
words are flags. -/
def SameRecord (b : Blob) (row stride row' stride' : Nat) : Prop :=
  b.le64 row = b.le64 row' ∧
  b.le64 (row + (stride - 16)) = b.le64 (row' + (stride' - 16)) ∧
  b.le32 (row + (stride - 8)) = b.le32 (row' + (stride' - 8)) ∧
  b.le32 (row + (stride - 4)) =
    if stride' = 32 then 0 else b.le32 (row' + (stride' - 4))

/-- The two readers get the same segments from a node. -/
def SameSegments (b : Blob) (n : Node) : Prop :=
  ∀ data size data' size',
    prop15 b n segmentRangesText = .ok (data, size) →
    prop16 b n segmentRangesText = .ok (data', size') →
    if data = data' then
      -- One property: records of four words have no flags.
      size = 64 → b.le32 (data + 28) = 0 ∧ b.le32 (data + 60) = 0
    else
      -- A property whose name has another case comes first.
      SameRecord b data (size / 2) data' (size' / 2) ∧
        SameRecord b (data + size / 2) (size / 2) (data' + size' / 2)
          (size' / 2)

section Segments

variable {b : Blob} {n : Node} {data size : Nat} {name : Bytes} {k off stride data' : Nat}
  {segs : Seg × Seg} {textExpect dataMin : Nat}

theorem propLoop15_size (h : propLoop15 b name k off = .ok (data, size)) :
    size = b.propLen (data - 36) := by
  induction k generalizing off with
  | zero => cases h
  | succ k ih =>
    rw [propLoop15] at h
    split at h
    · cases h
    split at h
    · cases h
    split at h
    · cases h
      rw [Nat.add_sub_cancel]
    · exact ih h

theorem propLoop16_size (h : propLoop16 b name k off = .ok (data, size)) :
    size = b.propLen (data - 36) := by
  induction k generalizing off with
  | zero => cases h
  | succ k ih =>
    rw [propLoop16] at h
    split at h
    · cases h
    split at h
    · cases h
    split at h
    · cases h
      rw [Nat.add_sub_cancel]
    split at h
    · cases h
    · exact ih h

theorem le32_lt (b : Blob) (off : Nat) : b.le32 off < 2 ^ 32 := by
  have h0 := (b.byte off).toNat_lt
  have h1 := (b.byte (off + 1)).toNat_lt
  have h2 := (b.byte (off + 2)).toNat_lt
  have h3 := (b.byte (off + 3)).toNat_lt
  simp only [Blob.le32, leValue, List.foldr_cons, List.foldr_nil]
  omega

/-- The two readers decode the same segment exactly if the records have the
same words. -/
theorem entry_eq_iff (b : Blob) {stride' : Nat} (hstride : stride = 24 ∨ stride = 32)
    (hstride' : stride' = 24 ∨ stride' = 32) (i : Nat) :
    entry15 b data stride i = entry16 b data' stride' i ↔
      SameRecord b (data + i * stride) stride (data' + i * stride') stride' := by
  obtain ⟨row, hrow⟩ : ∃ row, data + i * stride = row := ⟨_, rfl⟩
  obtain ⟨row', hrow'⟩ : ∃ row', data' + i * stride' = row' := ⟨_, rfl⟩
  rw [entry15, entry16, SameRecord, Seg.mk.injEq, hrow, hrow']
  have hword : ∀ off off', b.le64 off = b.le64 off' ↔
      b.le32 off = b.le32 off' ∧ b.le32 (off + 4) = b.le32 (off' + 4) := by
    intro off off'
    have hlow := le32_lt b off
    have hlow' := le32_lt b off'
    rw [Blob.le64, Blob.le64]
    omega
  have hmasked : ∀ off off', b.le64 off = b.le64 off' % 4294967296 ↔
      b.le32 off = b.le32 off' ∧ b.le32 (off + 4) = 0 := by
    intro off off'
    have hlow := le32_lt b off
    have hlow' := le32_lt b off'
    rw [Blob.le64, Blob.le64]
    omega
  rcases hstride with rfl | rfl <;> rcases hstride' with rfl | rfl
  · simp [hword]
  · simp [hmasked]
  · simp [hword]
  · simp [hmasked]

/-- A record has its own words exactly if it has no flags. -/
theorem sameRecord_self_iff (b : Blob) (row : Nat) : SameRecord b row stride row stride ↔
      (stride = 32 → b.le32 (row + 28) = 0) := by
  rw [SameRecord, and_iff_right rfl, and_iff_right rfl, and_iff_right rfl]
  by_cases hfour : stride = 32
  · subst hfour
    simp
  · simp [hfour]

theorem segment15_ok {i : Nat} {s : Seg} (h : segment15 b data stride i = .ok s) :
    s = entry15 b data stride i := by
  rw [segment15] at h
  split at h
  · cases h
  simp only at h
  split at h
  · cases h
  split at h
  · cases h
  · exact (Except.ok.inj h).symm

theorem segments15_ok (h : segments15 b n textExpect dataMin = .ok segs) :
    ∃ data size, prop15 b n segmentRangesText = .ok (data, size) ∧ (size = 48 ∨ size = 64) ∧
      segs = (entry15 b data (size / 2) 0, entry15 b data (size / 2) 1) := by
  obtain ⟨⟨data, size⟩, hprop, h⟩ := bind_eq_ok.1 h
  simp only at h
  split at h
  · cases h
  next heven =>
  split at h
  · cases h
  next hstride =>
  obtain ⟨text, htext, h⟩ := bind_eq_ok.1 h
  obtain ⟨dat, hdat, h⟩ := bind_eq_ok.1 h
  split at h
  · cases h
  split at h
  · cases h
  cases h
  rw [segment15_ok htext, segment15_ok hdat]
  exact ⟨data, size, hprop, by omega, rfl⟩

theorem segDecode16_ok (h : segDecode16 b data size = .ok segs) : (size = 48 ∨ size = 64) ∧
      segs = (entry16 b data (size / 2) 0, entry16 b data (size / 2) 1) := by
  rw [segDecode16] at h
  split at h
  · cases h
  next hsize =>
  exact ⟨by omega, (Except.ok.inj h).symm⟩

theorem sameSegments_iff {size' : Nat} {segs' : Seg × Seg}
    (h : segments15 b n textExpect dataMin = .ok segs)
    (hprop' : prop16 b n segmentRangesText = .ok (data', size'))
    (h' : segDecode16 b data' size' = .ok segs') :
    segs = segs' ↔ SameSegments b n := by
  obtain ⟨data, size, hprop, hsize, rfl⟩ := segments15_ok h
  obtain ⟨hsize', rfl⟩ := segDecode16_ok h'
  have hunique : SameSegments b n ↔ if data = data' then
      size = 64 → b.le32 (data + 28) = 0 ∧ b.le32 (data + 60) = 0
    else SameRecord b data (size / 2) data' (size' / 2) ∧
      SameRecord b (data + size / 2) (size / 2) (data' + size' / 2)
        (size' / 2) := by
    constructor
    · intro hsame
      exact hsame data size data' size' hprop hprop'
    · intro hsame d s d' s' hd hd'
      obtain ⟨rfl, rfl⟩ := Prod.mk.inj (Except.ok.inj (hprop.symm.trans hd))
      obtain ⟨rfl, rfl⟩ := Prod.mk.inj (Except.ok.inj (hprop'.symm.trans hd'))
      exact hsame
  have hstride : size / 2 = 24 ∨ size / 2 = 32 := by omega
  have hstride' : size' / 2 = 24 ∨ size' / 2 = 32 := by omega
  rw [hunique, Prod.mk.injEq, entry_eq_iff b hstride hstride',
    entry_eq_iff b hstride hstride', Nat.zero_mul, Nat.zero_mul, Nat.one_mul,
    Nat.one_mul, Nat.add_zero, Nat.add_zero]
  by_cases hdata : data = data'
  · subst hdata
    obtain rfl : size = size' := (propLoop15_size hprop).trans (propLoop16_size hprop').symm
    rw [if_pos rfl, sameRecord_self_iff, sameRecord_self_iff]
    rcases hsize with rfl | rfl
    · simp
    · simp [Nat.add_assoc]
  · rw [if_neg hdata]

end Segments

/-! ## The readers -/

/-- The readers agree on a blob. -/
structure Agree (b : Blob) (aneType : Nat) : Prop where
  armIo : ∀ o, FirstChild b (b.node 0) (fun o => ArmIo15 b o ∨ ArmIo16 b o) o →
    ArmIo15 b o ∧ ArmIo16 b o
  ane : ∀ armIo o, FirstChild b (b.node 0) (ArmIo15 b) armIo →
    FirstChild b (b.node armIo) (fun o => Ane15 b aneType o ∨ Ane16 b aneType o)
      o → Ane15 b aneType o ∧ Ane16 b aneType o
  segments : ∀ armIo o, FirstChild b (b.node 0) (ArmIo15 b) armIo →
    FirstChild b (b.node armIo) (Ane15 b aneType) o → SameSegments b (b.node o)

/-- Where both readers succeed, they find the same node and the same segments
exactly if `Agree` holds. -/
theorem readers_agree_iff {b : Blob} {fuel fuel' aneType textExpect dataMin : Nat} {ane ane' : Node}
    {segs segs' : Seg × Seg}
    (h : read15 b fuel aneType textExpect dataMin = .ok (ane, segs))
    (h' : read16 b fuel' aneType = .ok (ane', segs')) :
    ane = ane' ∧ segs = segs' ↔ Agree b aneType := by
  rw [read16] at h'
  split at h'
  · cases h'
  next hmax =>
  have hlen : b.len ≤ adtMaxLen := Nat.le_of_not_lt hmax
  split at h'
  · cases h'
  obtain ⟨found, hfind, h⟩ := bind_eq_ok.1 h
  obtain ⟨s, hsegs, h⟩ := bind_eq_ok.1 h
  obtain ⟨rfl, rfl⟩ := Prod.mk.inj (pure_eq_ok.1 h)
  obtain ⟨found', hfind', h'⟩ := bind_eq_ok.1 h'
  obtain ⟨⟨data', size'⟩, hprop', h'⟩ := bind_eq_ok.1 h'
  obtain ⟨s', hsegs', h'⟩ := bind_eq_ok.1 h'
  obtain ⟨rfl, rfl⟩ := Prod.mk.inj (pure_eq_ok.1 h')
  obtain ⟨hin, ⟨e, hends⟩, armIo, off, harm, hane, rfl⟩ :=
    findAne15_ok hlen hfind
  obtain ⟨armIo', off', harm', hane', rfl⟩ :=
    findAne16_ok hlen hin hends hfind'
  obtain ⟨place, hkids, -⟩ := exists_kids hlen
    (show 0 + 8 ≤ b.len by omega) hends
  obtain ⟨i, -, -, place₁, hkids₁, -⟩ :=
    exists_kids_of_firstChild hlen hkids harm
  have hnode : b.node off = b.node off' ↔ off = off' :=
    ⟨fun heq => congrArg Node.off heq, fun heq => heq ▸ rfl⟩
  have hfound := found_eq_iff hlen hkids harm harm' hane hane'
  rw [hnode]
  constructor
  · rintro ⟨heq, hsame⟩
    obtain ⟨harmIo, hboth⟩ := hfound.1 heq
    subst heq
    refine ⟨harmIo, ?_, ?_⟩
    · intro a o ha ho
      obtain rfl := hkids.firstChild_unique harm ha
      exact hboth o ho
    · intro a o ha ho
      obtain rfl := hkids.firstChild_unique harm ha
      obtain rfl := hkids₁.firstChild_unique hane ho
      exact (sameSegments_iff hsegs hprop' hsegs').1 hsame
  · intro hagree
    have heq := hfound.2 ⟨hagree.armIo, fun o ho => hagree.ane armIo o harm ho⟩
    subst heq
    exact ⟨rfl, (sameSegments_iff hsegs hprop' hsegs').2 (hagree.segments armIo off harm hane)⟩

/-- The blob of `ane_h15_adt_test.c`, with the words of two records. -/
def testBlob (words : List Nat) : Blob :=
  let text (n : Nat) (s : String) : Bytes :=
    ascii s ++ List.replicate (n - s.length) 0
  let prop (name : String) (value : Bytes) : Bytes :=
    text 32 name ++ leBytes 4 value.length ++ value ++
      List.replicate (pad4 value.length - value.length) 0
  let bytes := leBytes 4 0 ++ leBytes 4 1 ++
    leBytes 4 1 ++ leBytes 4 1 ++ prop "name" (text 7 "arm-io") ++
    leBytes 4 3 ++ leBytes 4 0 ++ prop "ane-type" (leBytes 4 176) ++
    prop "name" (text 4 "ane") ++
    prop "segment-ranges" (words.flatMap (leBytes 8))
  { byte := fun i => bytes.getD i 0, len := bytes.length }

/-- Both readers accept the blob of the test, and agree. -/
theorem readers_agree_test :
    let b := testBlob [0x10000000000, 0x10000000000, 0xc0000,
      0x10000800000, 0x10000800000, 0x2ac000]
    ∃ ane segs, read15 b 3 176 0xc0000 0x2ac000 = .ok (ane, segs) ∧
      read16 b 5 176 = .ok (ane, segs) ∧ Agree b 176 := by
  have h15 : read15 (testBlob [0x10000000000, 0x10000000000, 0xc0000,
      0x10000800000, 0x10000800000, 0x2ac000]) 3 176 0xc0000 0x2ac000 =
      .ok (⟨60, 3, 0⟩, ⟨0x10000000000, 0x10000000000, 0xc0000⟩,
        ⟨0x10000800000, 0x10000800000, 0x2ac000⟩) := by
    decide +kernel
  have h16 : read16 (testBlob [0x10000000000, 0x10000000000, 0xc0000,
      0x10000800000, 0x10000800000, 0x2ac000]) 5 176 =
      .ok (⟨60, 3, 0⟩, ⟨0x10000000000, 0x10000000000, 0xc0000⟩,
        ⟨0x10000800000, 0x10000800000, 0x2ac000⟩) := by
    decide +kernel
  exact ⟨_, _, h15, h16, (readers_agree_iff h15 h16).1 ⟨rfl, rfl⟩⟩

/-- Records of four words, with a flag in the first: the H15 reader takes the
flag for a part of the size. -/
theorem flags_in_size :
    let b := testBlob [0x10000000000, 0, 0x10000000000, 0x1000c0000,
      0x10000800000, 0xc0000, 0x10000800000, 0x2ac000]
    read15 b 3 176 0 0 =
      .ok (⟨60, 3, 0⟩, ⟨0x10000000000, 0x10000000000, 0x1000c0000⟩,
        ⟨0x10000800000, 0x10000800000, 0x2ac000⟩) ∧
    read16 b 5 176 =
      .ok (⟨60, 3, 0⟩, ⟨0x10000000000, 0x10000000000, 0xc0000⟩,
        ⟨0x10000800000, 0x10000800000, 0x2ac000⟩) := by
  decide +kernel

end OmarchyAne.Adt
