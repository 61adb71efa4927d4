import OmarchyAne.Adt.Reads
import OmarchyAne.Adt.Walk

/-!
# The accesses of the H15 reader (src/ane/h15/ane_h15_adt.h)

The reader of `OmarchyAne.Adt.H15` with its accesses.  It stops with an error of
the code, or with `none` when the fuel of the model has run out.  With
`walkFuel` it does not run out of fuel, and it returns what the reader without
a trace returns (`res_readT15`), so the walk ends on every blob.

The walk, the lookup of a property and the segments stay inside the blob.  The
test of `ane_h15_adt_child_named` compares as many bytes as the wanted name
has, and one more, and the value may be shorter than that.  `readT15_safe_iff`
says for which blobs this goes wrong.
-/

namespace OmarchyAne.Adt

open Lib Traced

/-! ## The reader -/

abbrev Read15 := ReadM (Option Err15)

section Reader

variable (b : Blob)

/-- `ane_h15_adt_node_at`. -/
def nodeAtT15 (off : Nat) : Read15 Node :=
  if b.len < u32 (off + 8) then .fail (some .EFORMAT)
  else do
    let nprops ← read32 b off
    let nchildren ← read32 b (u32 (off + 4))
    if 4096 < nprops ∨ 4096 < nchildren then .fail (some .EFORMAT)
    else return { off := off, nprops := nprops, nchildren := nchildren }

/-- The loop over the properties. -/
def propsEndT15 : Nat → Nat → Read15 Nat
  | 0, off => pure off
  | n + 1, off =>
    if b.len < u32 (off + 36) then .fail (some .EFORMAT)
    else do
      let len ← read32 b (off + 32)
      propsEndT15 n (u32 (off + (36 + pad4 (len % 2 ^ 31))))

/-- `ane_h15_adt_subtree_end`. -/
def subtreeEndT15 : Nat → Node → Read15 Nat
  | 0, _ => .fail none
  | fuel + 1, n => do
    let off ← propsEndT15 b n.nprops (u32 (n.off + 8))
    let off ← repeatT (fun off => do
      let c ← nodeAtT15 b off
      subtreeEndT15 fuel c) n.nchildren off
    if b.len < off then .fail (some .EFORMAT) else return off

/-- The end of the subtree at an offset. -/
def skipT15 (fuel off : Nat) : Read15 Nat := do
  let c ← nodeAtT15 b off
  subtreeEndT15 b fuel c

/-- `ane_h15_adt_nth_child_off`. -/
def nthChildOffT15 (fuel : Nat) (parent : Node) (i : Nat) : Read15 Nat :=
  if parent.nchildren ≤ i then .fail (some .ENOENT)
  else do
    let off ← propsEndT15 b parent.nprops (u32 (parent.off + 8))
    repeatT (skipT15 b fuel) i off

/-- The loop of `ane_h15_adt_prop`. -/
def propLoopT15 (name : Bytes) : Nat → Nat → ReadM Err15 (Nat × Nat)
  | 0, _ => .fail .ENOENT
  | n + 1, off =>
    if b.len < u32 (off + 36) then .fail .EFORMAT
    else do
      let len ← read32 b (off + 32)
      if b.len < u32 (off + 36 + pad4 (len % 2 ^ 31)) then .fail .EFORMAT
      else do
        let same ← readText b id 32 off name
        if same then return (off + 36, len % 2 ^ 31)
        else propLoopT15 name n (u32 (off + (36 + pad4 (len % 2 ^ 31))))

/-- `ane_h15_adt_prop`. -/
def propT15 (n : Node) (name : Bytes) : ReadM Err15 (Nat × Nat) :=
  propLoopT15 b name n.nprops (u32 (n.off + 8))

/-- The comparison of `ane_h15_adt_child_named`, with a value at `nm`. -/
def textT15 (name : Bytes) (nm size : Nat) : Read15 Bool := do
  let same ← readText b id name.length nm name
  if same then do
    readBytes (nm + name.length) 1
    if b.byte (nm + name.length) == 0 then do
      emit (.matched size (name.length + 1))
      return true
    else return false
  else return false

/-- The test of `ane_h15_adt_child_named`. -/
def isNamedT15 (name : Bytes) (c : Node) : Read15 Bool := do
  match ← (propT15 b c nameText).attempt with
  | .error _ => return false
  | .ok (nm, size) => if 0 < size then textT15 b name nm size else return false

/-- The child of a node at an index. -/
def childT15 (fuel : Nat) (parent : Node) (i : Nat) : Read15 Node := do
  let off ← nthChildOffT15 b fuel parent i
  nodeAtT15 b off

/-- A turn of the loop of `ane_h15_adt_child_named`. -/
def tryNamedT15 (fuel : Nat) (parent : Node) (name : Bytes) (i : Nat) :
    Read15 (Option Node) := do
  let c ← childT15 b fuel parent i
  let yes ← isNamedT15 b name c
  return if yes then some c else none

/-- `ane_h15_adt_child_named`. -/
def childNamedT15 (fuel : Nat) (parent : Node) (name : Bytes) :
    Read15 Node := do
  match ← firstT (tryNamedT15 b fuel parent name) parent.nchildren 0 with
  | some c => return c
  | none => .fail (some .ENOENT)

/-- The test of the loop in `ane_h15_adt_find_ane`. -/
def isAneT15 (aneType : Nat) (c : Node) : Read15 Bool := do
  match ← (propT15 b c aneTypeText).attempt with
  | .error .ENOENT => return false
  | .error e => .fail (some e)
  | .ok (data, size) =>
    if 4 ≤ size then do
      let value ← read32 b data
      if value == aneType then do
        emit (.matched size 4)
        return true
      else return false
    else return false

/-- A turn of that loop. -/
def tryAneT15 (fuel aneType : Nat) (armIo : Node) (i : Nat) :
    Read15 (Option Node) := do
  let c ← childT15 b fuel armIo i
  let yes ← isAneT15 b aneType c
  return if yes then some c else none

/-- `ane_h15_adt_find_ane`. -/
def findAneT15 (fuel aneType : Nat) : Read15 Node :=
  if b.len < 8 then .fail (some .EFORMAT)
  else do
    let root ← nodeAtT15 b 0
    let _ ← subtreeEndT15 b fuel root
    let armIo ← childNamedT15 b fuel root armIoText
    match ← firstT (tryAneT15 b fuel aneType armIo) armIo.nchildren 0 with
    | some c => return c
    | none => .fail (some .ENOENT)

/-- A turn of the loop in `ane_h15_adt_segments`. -/
def segmentT15 (data stride i : Nat) : Read15 Seg :=
  if b.len < data + i * stride + stride then .fail (some .EFORMAT)
  else do
    readBytes (data + i * stride) stride
    let s := entry15 b data stride i
    if s.phys = 0 ∨ s.iova = 0 ∨ s.size = 0 then .fail (some .EFORMAT)
    else if s.size % 4 ≠ 0 then .fail (some .EFORMAT)
    else return s

/-- The error of a lookup is that of the caller. -/
def orFail {α : Type} (x : ReadM Err15 α) : Read15 α := do
  match ← x.attempt with
  | .ok a => return a
  | .error e => .fail (some e)

/-- `ane_h15_adt_segments`. -/
def segmentsT15 (ane : Node) (textExpect dataMin : Nat) :
    Read15 (Seg × Seg) := do
  let (data, size) ← orFail (propT15 b ane segmentRangesText)
  if size % 2 ≠ 0 then .fail (some .EFORMAT)
  else
    let stride := size / 2
    if stride ≠ 24 ∧ stride ≠ 32 then .fail (some .EFORMAT)
    else do
      let text ← segmentT15 b data stride 0
      let dat ← segmentT15 b data stride 1
      if textExpect ≠ 0 ∧ text.size ≠ textExpect then .fail (some .EFORMAT)
      else if dataMin ≠ 0 ∧ dat.size < dataMin then .fail (some .EFORMAT)
      else return (text, dat)

/-- The node of the engine and its segments. -/
def readT15 (fuel aneType textExpect dataMin : Nat) :
    Read15 (Node × Seg × Seg) := do
  let ane ← findAneT15 b fuel aneType
  let segs ← segmentsT15 b ane textExpect dataMin
  return (ane, segs)

end Reader

/-! ## The results -/

section Results

variable {α β : Type} {b : Blob}

/-- A result of the reader without a trace. -/
def lift (x : Except Err15 α) : Except (Option Err15) α := x.mapError some

@[simp] theorem lift_ok (a : α) : lift (.ok a) = .ok a := rfl

@[simp] theorem lift_error (e : Err15) : lift (.error e : Except Err15 α) = .error (some e) := rfl

theorem lift_bind (x : Except Err15 α) (f : α → Except Err15 β) :
    lift (x >>= f) = lift x >>= fun a => lift (f a) := by
  cases x with
  | error e => rfl
  | ok a => rfl

theorem lift_eq_ok {x : Except Err15 α} {a : α} : lift x = .ok a ↔ x = .ok a := by
  cases x with
  | error e => simp
  | ok a' => simp

theorem repeatM_lift (f : α → Except Err15 α) (n : Nat) (a : α) :
    repeatM (fun a => lift (f a)) n a = lift (repeatM f n a) := by
  induction n generalizing a with
  | zero => rfl
  | succ n ih =>
    change lift (f a) >>= _ = lift (f a >>= _)
    rw [lift_bind]
    cases f a with
    | error e => rfl
    | ok a' => exact ih a'

theorem firstM_lift (f : Nat → Except Err15 (Option α)) (n i : Nat) :
    firstM (fun i => lift (f i)) n i = lift (firstM f n i) := by
  induction n generalizing i with
  | zero => rfl
  | succ n ih =>
    rw [firstM, firstM]
    cases f i with
    | error e => rfl
    | ok r =>
      cases r with
      | some a => rfl
      | none => exact ih (i + 1)

theorem res_nodeAtT15 (off : Nat) : (nodeAtT15 b off).res = lift (nodeAt15 b off) := by
  rw [nodeAtT15, nodeAt15]
  split
  · rfl
  · rw [res_bind_of_ok (res_read32 _), res_bind_of_ok (res_read32 _)]
    simp only
    split <;> rfl

theorem res_propsEndT15 (n off : Nat) : (propsEndT15 b n off).res = lift (propsEnd15 b n off) := by
  induction n generalizing off with
  | zero => rfl
  | succ n ih =>
    rw [propsEndT15, propsEnd15]
    split
    · rfl
    · rw [res_bind_of_ok (res_read32 _)]
      exact ih _

theorem res_propLoopT15 (name : Bytes) (n off : Nat) :
    (propLoopT15 b name n off).res = propLoop15 b name n off := by
  induction n generalizing off with
  | zero => rfl
  | succ n ih =>
    rw [propLoopT15, propLoop15]
    split
    · rfl
    · rw [res_bind_of_ok (res_read32 _), Blob.propLen]
      split
      · rfl
      · rw [res_bind_of_ok (res_readText _ _ _ _)]
        split
        · rfl
        · exact ih _

/-- With enough fuel for what is left of the blob, the walk does not run out of
it. -/
theorem res_subtreeEndT15 (hlen : b.len ≤ adtMaxLen) (fuel : Nat) {n : Node}
    (hin : n.off + 8 ≤ b.len) (hfuel : b.len < n.off + 8 * fuel) :
    (subtreeEndT15 b fuel n).res = lift (subtreeEnd15 b fuel n) := by
  have hmax : b.len ≤ 2 ^ 30 := hlen
  induction fuel generalizing n with
  | zero => omega
  | succ fuel ih =>
    rw [subtreeEndT15, subtreeEnd15, res_bind, res_propsEndT15]
    cases hp : propsEnd15 b n.nprops (u32 (n.off + 8)) with
    | error e => rfl
    | ok p =>
      rw [u32_of_lt (by omega)] at hp
      obtain ⟨hle, hsmall, -⟩ := propsEnd15_ok hlen (show n.off + 8 < 2 ^ 32 - 64 by omega) hp
      have hskip : ∀ o, n.off + 8 ≤ o ∧ Small o → (nodeAtT15 b o >>= subtreeEndT15 b fuel).res =
            lift (skip15 b fuel o) := by
        rintro o ⟨hlow, hsmall⟩
        rw [res_bind, res_nodeAtT15, skip15]
        cases hc : nodeAt15 b o with
        | error e => rfl
        | ok c =>
          obtain ⟨ho, rfl⟩ := nodeAt15_ok hsmall hc
          exact ih ho (show b.len < o + 8 * fuel by omega)
      have hloop := res_repeatT hskip (fun o o' hat ho => by
        obtain ⟨hstep, hle⟩ := skip15_bounds hlen fuel o o' hat.2 (lift_eq_ok.1 ho)
        exact ⟨by omega, show o' < 2 ^ 32 - 64 by omega⟩) n.nchildren
        ⟨hle, hsmall⟩
      change (repeatT _ n.nchildren p >>= _).res = _
      rw [res_bind, hloop, repeatM_lift]
      change _ = lift (repeatM (skip15 b fuel) n.nchildren p >>= _)
      cases repeatM (skip15 b fuel) n.nchildren p with
      | error e => rfl
      | ok e =>
        change res (if _ then _ else _) = lift (if _ then _ else _)
        split <;> rfl

end Results

section Whole

variable {b : Blob} (hlen : b.len ≤ adtMaxLen) {fuel : Nat} (hfuel : b.len < 8 * fuel) {n : Node}

include hlen hfuel

theorem res_skipT15 {o : Nat} (hsmall : Small o) :
    (skipT15 b fuel o).res = lift (skip15 b fuel o) := by
  rw [skipT15, skip15, res_bind, res_nodeAtT15]
  cases hc : nodeAt15 b o with
  | error e => rfl
  | ok c =>
    obtain ⟨ho, rfl⟩ := nodeAt15_ok hsmall hc
    exact res_subtreeEndT15 hlen fuel ho (show b.len < o + 8 * fuel by omega)

theorem res_childT15 (hin : n.off + 8 ≤ b.len) (i : Nat) :
    (childT15 b fuel n i).res = lift (child15 b fuel n i) := by
  have hmax : b.len ≤ 2 ^ 30 := hlen
  have hnth : (nthChildOffT15 b fuel n i).res =
      lift (nthChildOff15 b fuel n i) := by
    rw [nthChildOffT15, nthChildOff15]
    split
    · rfl
    · rw [res_bind, res_propsEndT15, lift_bind]
      cases hp : propsEnd15 b n.nprops (u32 (n.off + 8)) with
      | error e => rfl
      | ok p =>
        rw [u32_of_lt (by omega)] at hp
        obtain ⟨-, hsmall, -⟩ := propsEnd15_ok hlen (show n.off + 8 < 2 ^ 32 - 64 by omega) hp
        change (repeatT (skipT15 b fuel) i p).res = lift (repeatM (skip15 b fuel) i p)
        rw [← repeatM_lift]
        refine res_repeatT (fun o ho => res_skipT15 hlen hfuel ho) (fun o o' ho ho' => ?_) i hsmall
        have hbounds := skip15_bounds hlen fuel o o' ho (lift_eq_ok.1 ho')
        exact show o' < 2 ^ 32 - 64 by omega
  rw [childT15, child15, res_bind, hnth, lift_bind]
  cases nthChildOff15 b fuel n i with
  | error e => rfl
  | ok off => exact res_nodeAtT15 off

omit hlen hfuel in
theorem res_isNamedT15 (name : Bytes) (c : Node) :
    (isNamedT15 b name c).res = .ok (isNamed15 b name c) := by
  rw [isNamedT15, isNamed15, res_bind_of_ok (res_attempt _), propT15, res_propLoopT15]
  change res (match prop15 b c nameText with
    | .error _ => _
    | .ok (nm, size) => _) = _
  cases prop15 b c nameText with
  | error e => rfl
  | ok r =>
    obtain ⟨nm, size⟩ := r
    simp only
    by_cases hsize : 0 < size
    · rw [if_pos hsize, textT15, res_bind_of_ok (res_readText _ _ _ _)]
      cases hsame : sameText id b.byte name.length nm name with
      | false => simp [hsize]
      | true =>
        rw [if_pos rfl, res_bind_of_ok (res_readBytes _ _)]
        cases hzero : b.byte (nm + name.length) == 0 with
        | false => simp
        | true => simp [hsize]; rfl
    · rw [if_neg hsize]
      simp [hsize]

omit hlen hfuel in
theorem res_isAneT15 (aneType : Nat) (c : Node) :
    (isAneT15 b aneType c).res = lift (isAne15 b aneType c) := by
  rw [isAneT15, isAne15, res_bind_of_ok (res_attempt _), propT15, res_propLoopT15]
  change res (match prop15 b c aneTypeText with
    | .error .ENOENT => _
    | .error e => _
    | .ok (data, size) => _) = _
  cases prop15 b c aneTypeText with
  | error e => cases e <;> rfl
  | ok r =>
    obtain ⟨data, size⟩ := r
    simp only
    by_cases hsize : 4 ≤ size
    · rw [if_pos hsize, res_bind_of_ok (res_read32 _)]
      cases hvalue : b.le32 data == aneType with
      | false => simp
      | true => simp [hsize]; rfl
    · rw [if_neg hsize]
      simp [hsize]

theorem res_tryNamedT15 (hin : n.off + 8 ≤ b.len) (name : Bytes) (i : Nat) :
    (tryNamedT15 b fuel n name i).res = lift (do
      let c ← child15 b fuel n i
      return if isNamed15 b name c then some c else none) := by
  rw [tryNamedT15, res_bind, res_childT15 hlen hfuel hin, lift_bind]
  cases child15 b fuel n i with
  | error e => rfl
  | ok c => exact res_bind_of_ok (res_isNamedT15 name c) _

theorem res_tryAneT15 (hin : n.off + 8 ≤ b.len) (aneType i : Nat) :
    (tryAneT15 b fuel aneType n i).res = lift (do
      let c ← child15 b fuel n i
      let yes ← isAne15 b aneType c
      return if yes then some c else none) := by
  rw [tryAneT15, res_bind, res_childT15 hlen hfuel hin, lift_bind]
  cases child15 b fuel n i with
  | error e => rfl
  | ok c =>
    change (isAneT15 b aneType c >>= _).res = lift (isAne15 b aneType c >>= _)
    rw [res_bind, res_isAneT15, lift_bind]
    cases isAne15 b aneType c with
    | error e => rfl
    | ok yes => rfl

theorem res_childNamedT15 (hin : n.off + 8 ≤ b.len) (name : Bytes) :
    (childNamedT15 b fuel n name).res = lift (childNamed15 b fuel n name) := by
  rw [childNamedT15, childNamed15, res_bind, lift_bind,
    res_firstT (res_tryNamedT15 hlen hfuel hin name), firstM_lift]
  cases firstM (fun i => do
      let c ← child15 b fuel n i
      return if isNamed15 b name c then some c else none) n.nchildren 0 with
  | error e => rfl
  | ok r => cases r <;> rfl

omit hfuel in
/-- The nodes that the reader comes to are in the blob. -/
theorem child15_inside {c : Node} {i : Nat} (hin : n.off + 8 ≤ b.len)
    (h : child15 b fuel n i = .ok c) :
    Small c.off ∧ c.off + 8 ≤ b.len ∧ c = b.node c.off := by
  have hmax : b.len ≤ 2 ^ 30 := hlen
  obtain ⟨off, hoff, hc⟩ := bind_eq_ok.1 h
  rw [nthChildOff15] at hoff
  split at hoff
  · cases hoff
  · obtain ⟨p, hp, hloop⟩ := bind_eq_ok.1 hoff
    rw [u32_of_lt (by omega)] at hp
    obtain ⟨-, hsmall, -⟩ := propsEnd15_ok hlen (show n.off + 8 < 2 ^ 32 - 64 by omega) hp
    have hoff : Small off := by
      refine repeatM_invariant ?_ hsmall hloop
      intro o o' ho hskip
      have hbounds := skip15_bounds hlen fuel o o' ho hskip
      exact show o' < 2 ^ 32 - 64 by omega
    obtain ⟨hin', rfl⟩ := nodeAt15_ok hoff hc
    exact ⟨hoff, hin', rfl⟩

omit hfuel in
theorem childNamed15_inside {c : Node} {name : Bytes} (hin : n.off + 8 ≤ b.len)
    (h : childNamed15 b fuel n name = .ok c) :
    Small c.off ∧ c.off + 8 ≤ b.len := by
  obtain ⟨found, hfound, hres⟩ := bind_eq_ok.1 h
  cases found with
  | none => cases hres
  | some c' =>
    cases hres
    obtain ⟨i, -, hi, -⟩ := firstM_some hfound
    obtain ⟨d, hd, htest⟩ := bind_eq_ok.1 hi
    have htest := pure_eq_ok.1 htest
    split at htest
    · cases htest
      obtain ⟨hsmall, hinside, -⟩ := child15_inside hlen hin hd
      exact ⟨hsmall, hinside⟩
    · cases htest

theorem res_findAneT15 (aneType : Nat) :
    (findAneT15 b fuel aneType).res = lift (findAne15 b fuel aneType) := by
  rw [findAneT15, findAne15]
  split
  · rfl
  rw [res_bind, res_nodeAtT15, lift_bind]
  cases hroot : nodeAt15 b 0 with
  | error e => rfl
  | ok root =>
    obtain ⟨hin, rfl⟩ := nodeAt15_ok (show 0 < 2 ^ 32 - 64 by decide) hroot
    change (subtreeEndT15 b fuel (b.node 0) >>= _).res = _
    rw [res_bind, res_subtreeEndT15 hlen fuel hin (show b.len < 0 + 8 * fuel by omega)]
    change _ = lift (subtreeEnd15 b fuel (b.node 0) >>= _)
    rw [lift_bind]
    cases subtreeEnd15 b fuel (b.node 0) with
    | error e => rfl
    | ok e =>
      change (childNamedT15 b fuel (b.node 0) armIoText >>= _).res =
        lift (childNamed15 b fuel (b.node 0) armIoText >>= _)
      rw [res_bind, res_childNamedT15 hlen hfuel hin, lift_bind]
      cases harm : childNamed15 b fuel (b.node 0) armIoText with
      | error e => rfl
      | ok armIo =>
        obtain ⟨-, hin'⟩ := childNamed15_inside hlen hin harm
        change (firstT _ _ _ >>= _).res = lift (firstM _ _ _ >>= _)
        rw [res_bind, lift_bind, res_firstT (res_tryAneT15 hlen hfuel hin' aneType), firstM_lift]
        cases firstM (fun i => do
            let c ← child15 b fuel armIo i
            let yes ← isAne15 b aneType c
            return if yes then some c else none) armIo.nchildren 0 with
        | error e => rfl
        | ok r => cases r <;> rfl

omit hlen hfuel in
theorem res_segmentT15 (data stride i : Nat) :
    (segmentT15 b data stride i).res = lift (segment15 b data stride i) := by
  rw [segmentT15, segment15]
  split
  · rfl
  · rw [res_bind_of_ok (res_readBytes _ _)]
    simp only
    split
    · rfl
    · split <;> rfl

omit hlen hfuel in
theorem res_orFail {α : Type} (x : ReadM Err15 α) : (orFail x).res = lift x.res := by
  rw [orFail, res_bind_of_ok (res_attempt _)]
  cases x.res <;> rfl

omit hlen hfuel in
theorem res_segmentsT15 (ane : Node) (textExpect dataMin : Nat) :
    (segmentsT15 b ane textExpect dataMin).res = lift (segments15 b ane textExpect dataMin) := by
  rw [segmentsT15, segments15, res_bind, res_orFail, propT15, res_propLoopT15, lift_bind]
  change (lift (prop15 b ane segmentRangesText) >>= _) = _
  cases prop15 b ane segmentRangesText with
  | error e => rfl
  | ok r =>
    obtain ⟨data, size⟩ := r
    change res (if _ then _ else _) = lift (if _ then _ else _)
    split
    · rfl
    simp only
    split
    · rfl
    rw [res_bind, res_segmentT15, lift_bind]
    cases segment15 b data (size / 2) 0 with
    | error e => rfl
    | ok text =>
      change (segmentT15 b data (size / 2) 1 >>= _).res = lift (segment15 b data (size / 2) 1 >>= _)
      rw [res_bind, res_segmentT15, lift_bind]
      cases segment15 b data (size / 2) 1 with
      | error e => rfl
      | ok dat =>
        change res (if _ then _ else _) = lift (if _ then _ else _)
        split
        · rfl
        · split <;> rfl

/-- The trace changes no result, and the walk does not run out of fuel. -/
theorem res_readT15 (aneType textExpect dataMin : Nat) :
    (readT15 b fuel aneType textExpect dataMin).res =
      lift (read15 b fuel aneType textExpect dataMin) := by
  rw [readT15, read15, res_bind, res_findAneT15 hlen hfuel, lift_bind]
  cases findAne15 b fuel aneType with
  | error e => rfl
  | ok ane =>
    change (segmentsT15 b ane textExpect dataMin >>= _).res =
      lift (segments15 b ane textExpect dataMin >>= _)
    rw [res_bind, res_segmentsT15, lift_bind]
    cases segments15 b ane textExpect dataMin with
    | error e => rfl
    | ok segs => rfl

end Whole

end OmarchyAne.Adt
