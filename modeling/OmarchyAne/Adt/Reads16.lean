import OmarchyAne.Adt.H16
import OmarchyAne.Adt.Reads

/-!
# The accesses of the H16 reader (src/ane/h16/ane_h16_main.c)

The reader of `OmarchyAne.Adt.H16` with its accesses.  Each part gives what it
gives without a trace (`res_findAneT16`).  On every blob, every access is in
the blob and every write to the stack of counts is in the stack, and with
`walkFuel` the loop over a subtree comes to an end (`good_readT16`).
-/

namespace OmarchyAne.Adt

open Lib Traced

/-! ## The reader -/

abbrev Read16 := ReadM Err16

section Reader

variable (b : Blob)

/-- `adt_node_at`. -/
def nodeAtT16 (off : Nat) : Read16 Node :=
  if b.len < off + 8 then return { off := off, nprops := 0, nchildren := 0 }
  else do
    let nprops ← read32 b off
    let nchildren ← read32 b (off + 4)
    return { off := off, nprops := nprops, nchildren := nchildren }

/-- The end of the properties, or nothing if they leave the blob. -/
def propsEndT16 : Nat → Nat → Read16 (Option Nat)
  | 0, off => return some off
  | n + 1, off =>
    if b.len < off + 36 then return none
    else do
      let len ← read32 b (off + 32)
      let extent := off + 36 + pad4 (len % 2 ^ 31)
      if b.len < extent then return none else propsEndT16 n extent

/-- The loop of `adt_subtree_end`.  The count at a depth is written when a node
is entered, and that of the next depth when the node has children. -/
def subtreeLoopT16 : Nat → Nat → List Nat → Read16 Nat
  | 0, _, _ => .fail .fuel
  | fuel + 1, off, todo =>
    match popDone todo with
    | [] => return off
    | count :: todo => do
      emit (.push todo.length)
      if b.len < off + 8 then return b.len
      else do
        let nprops ← read32 b off
        let nchildren ← read32 b (off + 4)
        match ← propsEndT16 b nprops (off + 8) with
        | none => return b.len
        | some off' =>
          if nchildren = 0 then subtreeLoopT16 fuel off' ((count - 1) :: todo)
          else if adtMaxDepth ≤ todo.length + 1 then return b.len
          else do
            emit (.push (todo.length + 1))
            subtreeLoopT16 fuel off' (nchildren :: (count - 1) :: todo)

/-- `adt_subtree_end`. -/
def subtreeEndT16 (fuel off : Nat) : Read16 Nat := do
  emit (.push 0)
  subtreeLoopT16 b fuel off [1]

/-- The loop over the properties in `adt_child`. -/
def childPropsT16 : Nat → Nat → Read16 (Option Nat)
  | 0, off => return some off
  | n + 1, off =>
    if b.len < off + 36 then return some off
    else do
      let len ← read32 b (off + 32)
      let extent := off + 36 + pad4 (len % 2 ^ 31)
      if b.len < extent then return none else childPropsT16 n extent

/-- One turn of the loop over the siblings. -/
def skipT16 (fuel off : Nat) : Read16 Nat :=
  if b.len < off + 8 then return off else subtreeEndT16 b fuel off

/-- `adt_child`. -/
def childT16 (fuel : Nat) (n : Node) (idx : Nat) : Read16 Node := do
  match ← childPropsT16 b n.nprops (n.off + 8) with
  | none => nodeAtT16 b b.len
  | some off => do
    let off ← repeatT (skipT16 b fuel) idx off
    nodeAtT16 b off

/-- The loop of `adt_prop`. -/
def propLoopT16 (name : Bytes) : Nat → Nat → Read16 (Nat × Nat)
  | 0, _ => .fail .ENOENT
  | n + 1, off =>
    if b.len < off + 36 then .fail .ENOENT
    else do
      let len ← read32 b (off + 32)
      let extent := off + 36 + pad4 (len % 2 ^ 31)
      if b.len < extent then .fail .EOVERFLOW
      else do
        let same ← readText b tolower 32 off name
        if same then return (off + 36, len % 2 ^ 31)
        else if 2 ^ 32 - 1 < extent then .fail .EOVERFLOW
        else propLoopT16 name n extent

/-- `adt_prop`. -/
def propT16 (n : Node) (name : Bytes) : Read16 (Nat × Nat) :=
  propLoopT16 b name n.nprops (n.off + 8)

/-- The first test of `adt_find_ane`. -/
def isArmIoT16 (c : Node) : Read16 Bool := do
  match ← (propT16 b c nameText).attempt with
  | .error _ => return false
  | .ok (data, size) =>
    if 7 ≤ size then readText b tolower 7 data armIoText else return false

/-- The second test. -/
def isAneT16 (aneType : Nat) (c : Node) : Read16 Bool := do
  match ← (propT16 b c aneTypeText).attempt with
  | .error _ => return false
  | .ok (data, size) =>
    if 4 ≤ size then do
      let value ← read32 b data
      return value == aneType
    else return false

/-- A turn of the search for a child. -/
def tryChildT16 (fuel : Nat) (parent : Node) (test : Node → Read16 Bool)
    (i : Nat) : Read16 (Option Node) := do
  let c ← childT16 b fuel parent i
  let yes ← test c
  return if yes then some c else none

/-- The first child that passes a test. -/
def findChildT16 (fuel : Nat) (parent : Node) (test : Node → Read16 Bool) :
    Read16 Node := do
  match ← firstT (tryChildT16 b fuel parent test) parent.nchildren 0 with
  | some c => return c
  | none => .fail .ENOENT

/-- `adt_find_ane`. -/
def findAneT16 (fuel aneType : Nat) : Read16 Node := do
  let root ← nodeAtT16 b 0
  let armIo ← findChildT16 b fuel root (isArmIoT16 b)
  findChildT16 b fuel armIo (isAneT16 b aneType)

/-- `ane_h16_seg_decode`. -/
def segDecodeT16 (data size : Nat) : Read16 (Seg × Seg) :=
  if size % 2 ≠ 0 ∨ size / 2 ≠ 24 ∧ size / 2 ≠ 32 then .fail .EINVAL
  else do
    readBytes data (size / 2)
    readBytes (data + size / 2) (size / 2)
    return (entry16 b data (size / 2) 0, entry16 b data (size / 2) 1)

/-- The node of the engine and its segments. -/
def readT16 (fuel aneType : Nat) : Read16 (Node × Seg × Seg) :=
  if adtMaxLen < b.len then .fail .EFBIG
  else do
    let root ← nodeAtT16 b 0
    if root.nchildren = 0 then .fail .EINVAL
    else do
      let ane ← findAneT16 b fuel aneType
      let (data, size) ← propT16 b ane segmentRangesText
      let segs ← segDecodeT16 b data size
      return (ane, segs)

end Reader

/-! ## The results -/

section Results

variable {b : Blob}

theorem res_nodeAtT16 (off : Nat) : (nodeAtT16 b off).res = .ok (nodeAt16 b off) := by
  rw [nodeAtT16, nodeAt16]
  split
  · rfl
  · rw [res_bind_of_ok (res_read32 _), res_bind_of_ok (res_read32 _)]
    rfl

theorem res_propsEndT16 (n off : Nat) : (propsEndT16 b n off).res = .ok (propsEnd16 b n off) := by
  induction n generalizing off with
  | zero => rfl
  | succ n ih =>
    rw [propsEndT16, propsEnd16]
    split
    · rfl
    · rw [res_bind_of_ok (res_read32 _), Blob.propLen]
      simp only
      split
      · rfl
      · exact ih _

theorem res_subtreeLoopT16 (fuel off : Nat) (todo : List Nat) :
    (subtreeLoopT16 b fuel off todo).res = subtreeLoop16 b fuel off todo := by
  induction fuel generalizing off todo with
  | zero => rfl
  | succ fuel ih =>
    rw [subtreeLoopT16, subtreeLoop16]
    cases popDone todo with
    | nil => rfl
    | cons count todo =>
      simp only
      rw [res_bind_of_ok (res_emit _)]
      split
      · rfl
      rw [res_bind_of_ok (res_read32 _), res_bind_of_ok (res_read32 _),
        res_bind_of_ok (res_propsEndT16 _ _)]
      cases propsEnd16 b (b.le32 off) (off + 8) with
      | none => rfl
      | some off' =>
        simp only
        split
        · exact ih _ _
        split
        · rfl
        rw [res_bind_of_ok (res_emit _)]
        exact ih _ _

theorem res_subtreeEndT16 (fuel off : Nat) :
    (subtreeEndT16 b fuel off).res = subtreeEnd16 b fuel off := by
  rw [subtreeEndT16, res_bind_of_ok (res_emit _)]
  exact res_subtreeLoopT16 _ _ _

theorem res_childPropsT16 (n off : Nat) :
    (childPropsT16 b n off).res = .ok (childProps16 b n off) := by
  induction n generalizing off with
  | zero => rfl
  | succ n ih =>
    rw [childPropsT16, childProps16]
    split
    · rfl
    · rw [res_bind_of_ok (res_read32 _), Blob.propLen]
      simp only
      split
      · rfl
      · exact ih _

theorem res_skipT16 (fuel off : Nat) : (skipT16 b fuel off).res = skip16 b fuel off := by
  rw [skipT16, skip16]
  split
  · rfl
  · exact res_subtreeEndT16 _ _

theorem res_childT16 (fuel : Nat) (n : Node) (idx : Nat) :
    (childT16 b fuel n idx).res = child16 b fuel n idx := by
  rw [childT16, child16, res_bind_of_ok (res_childPropsT16 _ _)]
  cases childProps16 b n.nprops (n.off + 8) with
  | none => exact res_nodeAtT16 _
  | some off =>
    have hloop : (repeatT (skipT16 b fuel) idx off).res = repeatM (skip16 b fuel) idx off :=
      res_repeatT (I := fun _ => True)
        (fun o _ => res_skipT16 fuel o) (fun _ _ _ _ => trivial) idx trivial
    simp only
    rw [res_bind, hloop]
    cases repeatM (skip16 b fuel) idx off with
    | error e => rfl
    | ok off' => exact res_nodeAtT16 off'

theorem res_propLoopT16 (name : Bytes) (n off : Nat) :
    (propLoopT16 b name n off).res = propLoop16 b name n off := by
  induction n generalizing off with
  | zero => rfl
  | succ n ih =>
    rw [propLoopT16, propLoop16]
    split
    · rfl
    rw [res_bind_of_ok (res_read32 _), Blob.propLen]
    simp only
    split
    · rfl
    rw [res_bind_of_ok (res_readText _ _ _ _)]
    split
    · rfl
    split
    · rfl
    · exact ih _

theorem res_propT16 (c : Node) (name : Bytes) :
    (propT16 b c name).res = prop16 b c name := res_propLoopT16 _ _ _

theorem res_isArmIoT16 (c : Node) : (isArmIoT16 b c).res = .ok (isArmIo16 b c) := by
  rw [isArmIoT16, isArmIo16, res_bind_of_ok (res_attempt _), res_propT16]
  cases prop16 b c nameText with
  | error e => rfl
  | ok r =>
    obtain ⟨data, size⟩ := r
    simp only
    split
    next hsize =>
      rw [res_readText, decide_eq_true hsize, Bool.true_and]
    next hsize =>
      rw [decide_eq_false hsize, Bool.false_and]
      rfl

theorem res_isAneT16 (aneType : Nat) (c : Node) :
    (isAneT16 b aneType c).res = .ok (isAne16 b aneType c) := by
  rw [isAneT16, isAne16, res_bind_of_ok (res_attempt _), res_propT16]
  cases prop16 b c aneTypeText with
  | error e => rfl
  | ok r =>
    obtain ⟨data, size⟩ := r
    simp only
    split
    next hsize =>
      rw [res_bind_of_ok (res_read32 _), decide_eq_true hsize, Bool.true_and]
      rfl
    next hsize =>
      rw [decide_eq_false hsize, Bool.false_and]
      rfl

theorem res_findChildT16 {testT : Node → Read16 Bool} {test : Node → Bool}
    (htest : ∀ c, (testT c).res = .ok (test c)) (fuel : Nat) (parent : Node) :
    (findChildT16 b fuel parent testT).res = findChild16 b fuel parent test := by
  have htry : ∀ i, (tryChildT16 b fuel parent testT i).res = (do
      let c ← child16 b fuel parent i
      return if test c then some c else none) := by
    intro i
    rw [tryChildT16, res_bind, res_childT16]
    cases child16 b fuel parent i with
    | error e => rfl
    | ok c => exact res_bind_of_ok (htest c) _
  rw [findChildT16, findChild16, res_bind, res_firstT htry]
  cases firstM (fun i => do
      let c ← child16 b fuel parent i
      return if test c then some c else none) parent.nchildren 0 with
  | error e => rfl
  | ok r => cases r <;> rfl

theorem res_findAneT16 (fuel aneType : Nat) :
    (findAneT16 b fuel aneType).res = findAne16 b fuel aneType := by
  rw [findAneT16, findAne16, res_bind_of_ok (res_nodeAtT16 _),
    res_bind, res_findChildT16 res_isArmIoT16]
  cases findChild16 b fuel (nodeAt16 b 0) (isArmIo16 b) with
  | error e => rfl
  | ok armIo => exact res_findChildT16 (res_isAneT16 aneType) fuel armIo

end Results

/-! ## The accesses and the end of the walk -/

/-- Every access is safe, and the loop over a subtree has not run out of
fuel. -/
def Good (b : Blob) {α : Type} (x : Read16 α) : Prop :=
  x.Meets (Access.Safe b adtMaxDepth) (· ≠ .fuel)

section Good

variable {b : Blob}

theorem good_read32 {off : Nat} (h : off + 4 ≤ b.len) : Good b (read32 b off) :=
  meets_of_ok (all_read32 h) rfl

theorem good_readText {n off : Nat} (h : off + n ≤ b.len) (name : Bytes) :
    Good b (readText b tolower n off name) :=
  meets_of_ok (all_readText _ _ h) (res_readText _ _ _ _)

theorem good_nodeAtT16 (off : Nat) : Good b (nodeAtT16 b off) := by
  rw [nodeAtT16]
  split
  · exact meets_pure _
  refine meets_bind (good_read32 (by omega)) fun _ _ => ?_
  refine meets_bind (good_read32 (by omega)) fun _ _ => ?_
  exact meets_pure _

theorem good_propsEndT16 (n off : Nat) : Good b (propsEndT16 b n off) := by
  induction n generalizing off with
  | zero => exact meets_pure _
  | succ n ih =>
    rw [propsEndT16]
    split
    · exact meets_pure _
    refine meets_bind (good_read32 (by omega)) fun _ _ => ?_
    simp only
    split
    · exact meets_pure _
    · exact ih _

theorem propsEnd16_le {n off off' : Nat} (h : propsEnd16 b n off = some off') : off ≤ off' := by
  induction n generalizing off with
  | zero => exact Nat.le_of_eq (Option.some.inj h)
  | succ n ih =>
    rw [propsEnd16] at h
    split at h
    · cases h
    split at h
    · cases h
    have hrest := ih h
    omega

theorem popDone_length (todo : List Nat) : (popDone todo).length ≤ todo.length := by
  induction todo with
  | nil => exact le_rfl
  | cons count todo ih =>
    cases count with
    | zero => exact Nat.le_succ_of_le ih
    | succ count => exact le_rfl

/-- A turn takes eight bytes at least, or it is the last. -/
theorem good_subtreeLoopT16 {fuel off : Nat} {todo : List Nat}
    (hdepth : todo.length ≤ adtMaxDepth) (hpos : 0 < fuel)
    (hfuel : b.len < off + 8 * fuel) :
    Good b (subtreeLoopT16 b fuel off todo) := by
  induction fuel generalizing off todo with
  | zero => omega
  | succ fuel ih =>
    have hpop := popDone_length todo
    rw [subtreeLoopT16]
    split
    · exact meets_pure _
    next count todo' htodo =>
    rw [htodo, List.length_cons] at hpop
    refine meets_bind (meets_emit ?_) fun _ _ => ?_
    · exact show todo'.length < adtMaxDepth by omega
    split
    · exact meets_pure _
    refine meets_bind (good_read32 (by omega)) fun nprops _ => ?_
    refine meets_bind (good_read32 (by omega)) fun nchildren _ => ?_
    refine meets_bind (good_propsEndT16 _ _) fun r hr => ?_
    rw [res_propsEndT16] at hr
    cases hr
    split
    · exact meets_pure _
    next off' hend =>
    have hle := propsEnd16_le hend
    split
    · refine ih ?_ (by omega) (by omega)
      rw [List.length_cons]
      omega
    split
    · exact meets_pure _
    refine meets_bind (meets_emit ?_) fun _ _ => ?_
    · exact show todo'.length + 1 < adtMaxDepth by omega
    refine ih ?_ (by omega) (by omega)
    rw [List.length_cons, List.length_cons]
    omega

/-- The loop over a subtree, wherever it starts. -/
theorem good_subtreeEndT16 (off : Nat) : Good b (subtreeEndT16 b (walkFuel b) off) := by
  have hfuel := walkFuel_enough b
  refine meets_bind (meets_emit ?_) fun _ _ => ?_
  · exact show 0 < adtMaxDepth by decide
  · exact good_subtreeLoopT16 (by decide) (Nat.succ_pos _) (by omega)

theorem good_childPropsT16 (n off : Nat) : Good b (childPropsT16 b n off) := by
  induction n generalizing off with
  | zero => exact meets_pure _
  | succ n ih =>
    rw [childPropsT16]
    split
    · exact meets_pure _
    refine meets_bind (good_read32 (by omega)) fun _ _ => ?_
    simp only
    split
    · exact meets_pure _
    · exact ih _

theorem good_childT16 (n : Node) (idx : Nat) : Good b (childT16 b (walkFuel b) n idx) := by
  refine meets_bind (good_childPropsT16 _ _) fun r _ => ?_
  split
  · exact good_nodeAtT16 _
  refine meets_bind (meets_repeatT ?_ _ _) fun off _ => ?_
  · intro off
    rw [skipT16]
    split
    · exact meets_pure _
    · exact good_subtreeEndT16 off
  · exact good_nodeAtT16 off

theorem good_propT16 (c : Node) (name : Bytes) : Good b (propT16 b c name) := by
  have hloop : ∀ n off, Good b (propLoopT16 b name n off) := by
    intro n
    induction n with
    | zero => exact fun _ => meets_fail (by decide)
    | succ n ih =>
      intro off
      rw [propLoopT16]
      split
      · exact meets_fail (by decide)
      refine meets_bind (good_read32 (by omega)) fun len _ => ?_
      simp only
      split
      · exact meets_fail (by decide)
      refine meets_bind (good_readText (by omega) name) fun same _ => ?_
      split
      · exact meets_pure _
      split
      · exact meets_fail (by decide)
      · exact ih _
  exact hloop _ _

/-- The value that a lookup finds is in the blob. -/
theorem prop16_inside {c : Node} {name : Bytes} {data size : Nat}
    (h : prop16 b c name = .ok (data, size)) : data + size ≤ b.len := by
  have hloop : ∀ n off, propLoop16 b name n off = .ok (data, size) → data + size ≤ b.len := by
    intro n
    induction n with
    | zero => exact fun _ h => nomatch h
    | succ n ih =>
      intro off h
      have hpad : b.propLen off ≤ pad4 (b.propLen off) := by
        rw [pad4]
        omega
      rw [propLoop16] at h
      split at h
      · cases h
      split at h
      · cases h
      split at h
      · cases h
        omega
      split at h
      · cases h
      · exact ih _ h
  exact hloop _ _ h

theorem good_isArmIoT16 (c : Node) : Good b (isArmIoT16 b c) := by
  refine meets_bind (meets_attempt (good_propT16 c _).all)
    fun r hr => ?_
  cases hr
  rw [res_propT16]
  split
  · exact meets_pure _
  next data size hfound =>
  have hin := prop16_inside hfound
  split
  · exact good_readText (by omega) _
  · exact meets_pure _

theorem good_isAneT16 (aneType : Nat) (c : Node) : Good b (isAneT16 b aneType c) := by
  refine meets_bind (meets_attempt (good_propT16 c _).all)
    fun r hr => ?_
  cases hr
  rw [res_propT16]
  split
  · exact meets_pure _
  next data size hfound =>
  have hin := prop16_inside hfound
  split
  · exact meets_bind (good_read32 (by omega))
      fun _ _ => meets_pure _
  · exact meets_pure _

theorem good_findChildT16 (parent : Node) {test : Node → Read16 Bool}
    (htest : ∀ c, Good b (test c)) :
    Good b (findChildT16 b (walkFuel b) parent test) := by
  refine meets_bind (meets_firstT (fun i => ?_) _ _)
    fun r _ => ?_
  · refine meets_bind (good_childT16 parent i) fun c _ => ?_
    exact meets_bind (htest c) fun _ _ => meets_pure _
  · split
    · exact meets_pure _
    · exact meets_fail (by decide)

theorem good_findAneT16 (aneType : Nat) : Good b (findAneT16 b (walkFuel b) aneType) := by
  refine meets_bind (good_nodeAtT16 0) fun root _ => ?_
  refine meets_bind (good_findChildT16 root good_isArmIoT16)
    fun armIo _ => ?_
  exact good_findChildT16 armIo (good_isAneT16 aneType)

/-- The whole reader, on any blob. -/
theorem good_readT16 (aneType : Nat) : Good b (readT16 b (walkFuel b) aneType) := by
  rw [readT16]
  split
  · exact meets_fail (by decide)
  refine meets_bind (good_nodeAtT16 0) fun root _ => ?_
  split
  · exact meets_fail (by decide)
  refine meets_bind (good_findAneT16 aneType) fun ane _ => ?_
  refine meets_bind (good_propT16 ane _) fun r hr => ?_
  rw [res_propT16] at hr
  obtain ⟨data, size⟩ := r
  have hin := prop16_inside hr
  refine meets_bind ?_ fun _ _ => meets_pure _
  rw [segDecodeT16]
  split
  · exact meets_fail (by decide)
  refine meets_bind
    (meets_of_ok (all_readBytes (by omega)) rfl) fun _ _ => ?_
  refine meets_bind
    (meets_of_ok (all_readBytes (by omega)) rfl) fun _ _ => ?_
  exact meets_pure _

end Good

end OmarchyAne.Adt
