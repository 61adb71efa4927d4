import OmarchyAne.Adt.Reads16
import OmarchyAne.Adt.Tree
import OmarchyAne.Adt.Walk

/-!
# The H16 reader on encoded trees

On the encoding of a tree with at most 32 levels the reader finds what the tree
has.  The loop over a subtree has a stack of counts.  An encoded tree takes one
from the count on top, and the rest of the stack stays as it is
(`subtreeLoop16_tree`).  So a list of trees takes its length from the count.

A value that has no NUL in its first seven bytes is not `arm-io`, so names need
not be terminated here.
-/

namespace OmarchyAne.Adt

open Lib List

/-- The test on the first bytes of a value, up to the NUL behind the text, is
the test on the text of the value. -/
theorem cstr_take_iff {fold : UInt8 → UInt8} {value text : Bytes} :
    (text.length + 1 ≤ value.length ∧ (cstr (value.take (text.length + 1))).map fold = text) ↔
    (0 ∈ value ∧ (cstr value).map fold = text) := by
  induction value generalizing text with
  | nil => simp
  | cons v vs ih =>
    rw [take_succ_cons, cstr_cons, cstr_cons, length_cons, mem_cons]
    by_cases hv : v = 0
    · subst hv
      simp only [if_true, map_nil, true_or, true_and]
      constructor
      · exact fun h => h.2
      · rintro rfl
        exact ⟨Nat.succ_le_succ (Nat.zero_le _), rfl⟩
    · simp only [if_neg hv, map_cons, Ne.symm hv, false_or]
      cases text with
      | nil => simp
      | cons c text =>
        rw [length_cons, List.cons.injEq, List.cons.injEq]
        have hrest := @ih text
        constructor
        · rintro ⟨hlen, hc, htext⟩
          obtain ⟨hmem, hsame⟩ := hrest.1 ⟨by omega, htext⟩
          exact ⟨hmem, hc, hsame⟩
        · rintro ⟨hmem, hc, hsame⟩
          obtain ⟨hlen, htext⟩ := hrest.2 ⟨hmem, hsame⟩
          exact ⟨by omega, hc, htext⟩

section Props

variable {b : Blob} {off : Nat}

theorem nodeAt16_tree (hlen : b.len ≤ adtMaxLen) {t : Tree} (h : Holds b off t.encode) :
    nodeAt16 b off = t.nodeAt off := by
  obtain ⟨hnode, hin, -, -⟩ := h.tree hlen
  rw [nodeAt16, if_neg (by omega), hnode]

theorem propsEnd16_props {ps : List Property} (h : Holds b off (encodeProps ps)) :
    propsEnd16 b ps.length off = some (off + (encodeProps ps).length) := by
  induction ps generalizing off with
  | nil => rfl
  | cons p ps ih =>
    have hcons : encodeProps (p :: ps) = p.encode ++ encodeProps ps := rfl
    rw [hcons, holds_append] at h
    obtain ⟨hp, hrest⟩ := h
    obtain ⟨hsize, -, -, hin⟩ := hp.prop
    rw [p.encode_length] at hrest
    rw [length_cons, propsEnd16, hsize, if_neg (by omega),
      if_neg (by omega), Nat.add_assoc, ih hrest, hcons, length_append,
      p.encode_length, Nat.add_assoc]

/-- The two loops over properties agree where the first gets through. -/
theorem childProps16_of_propsEnd16 {n o : Nat}
    (h : propsEnd16 b n off = some o) : childProps16 b n off = some o := by
  induction n generalizing off with
  | zero => exact h
  | succ n ih =>
    rw [propsEnd16] at h
    split at h
    · cases h
    next hhead =>
    split at h
    · cases h
    next hbody =>
    rw [childProps16, if_neg hhead, if_neg hbody]
    exact ih h

end Props

mutual

/-- A tree takes one from the count on top of the stack. -/
theorem subtreeLoop16_tree {b : Blob} (hlen : b.len ≤ adtMaxLen) (t : Tree)
    {off fuel count : Nat} {todo : List Nat} (h : Holds b off t.encode)
    (hdepth : todo.length + t.height ≤ adtMaxDepth) :
    subtreeLoop16 b (fuel + t.nodes) off ((count + 1) :: todo) =
      subtreeLoop16 b fuel (off + t.encode.length) (count :: todo) := by
  obtain ⟨hnode, hin, hprops, hall⟩ := h.tree hlen
  have hlength := t.encode_length
  cases t with
  | node ps cs =>
    change Holds b (off + 8 + (encodeProps ps).length) (encodeAll cs) at hall
    change _ = 8 + (encodeProps ps).length + (encodeAll cs).length at hlength
    have hn : b.le32 off = ps.length := congrArg Node.nprops hnode
    have hc : b.le32 (off + 4) = cs.length := congrArg Node.nchildren hnode
    have hend : propsEnd16 b ps.length (off + 8) =
        some (off + 8 + (encodeProps ps).length) := propsEnd16_props hprops
    rw [Tree.height] at hdepth
    rw [hlength, Tree.nodes, ← Nat.add_assoc, subtreeLoop16]
    simp only [popDone]
    rw [if_neg (by omega), hn, hend]
    simp only [hc, Nat.add_sub_cancel]
    cases hcs : cs with
    | nil =>
      subst hcs
      rw [if_pos length_nil, nodesAll, encodeAll]
      congr 1
      rw [length_nil]
      omega
    | cons c rest =>
      rw [← hcs]
      have hpos : 0 < cs.length := by rw [hcs]; exact Nat.succ_pos _
      have hheight : 0 < heightAll cs := by
        have hfirst := height_le_heightAll (show c ∈ cs by simp [hcs])
        cases c
        rw [Tree.height] at hfirst
        omega
      rw [if_neg (by omega), if_neg (by omega),
        subtreeLoop16_trees hlen cs hall (by rw [length_cons]; omega),
        subtreeLoop16_pop]
      congr 1
      omega

/-- A list of trees takes its length from the count. -/
theorem subtreeLoop16_trees {b : Blob} (hlen : b.len ≤ adtMaxLen)
    (ts : List Tree) {off fuel : Nat} {todo : List Nat}
    (h : Holds b off (encodeAll ts))
    (hdepth : todo.length + heightAll ts ≤ adtMaxDepth) :
    subtreeLoop16 b (fuel + nodesAll ts) off (ts.length :: todo) =
      subtreeLoop16 b fuel (off + (encodeAll ts).length) (0 :: todo) := by
  cases ts with
  | nil => rfl
  | cons t ts =>
    rw [encodeAll, holds_append] at h
    rw [heightAll] at hdepth
    rw [nodesAll, Nat.add_comm t.nodes, ← Nat.add_assoc, length_cons,
      subtreeLoop16_tree hlen t h.1 (by omega),
      subtreeLoop16_trees hlen ts h.2 (by omega), encodeAll, length_append,
      Nat.add_assoc]

end

section Encoded

variable {b : Blob} (hlen : b.len ≤ adtMaxLen) {off : Nat} {t : Tree}

include hlen

/-- The end of a subtree. -/
theorem subtreeEnd16_tree {fuel : Nat} (h : Holds b off t.encode)
    (hheight : t.height ≤ adtMaxDepth) (hfuel : t.nodes < fuel) :
    subtreeEnd16 b fuel off = .ok (off + t.encode.length) := by
  obtain ⟨rest, rfl⟩ : ∃ k, fuel = k + 1 + t.nodes :=
    ⟨fuel - 1 - t.nodes, by omega⟩
  rw [subtreeEnd16]
  refine (subtreeLoop16_tree hlen t h ?_).trans rfl
  rw [length_nil]
  omega

theorem repeatM_skip16_trees {ts : List Tree} {fuel : Nat} (h : Holds b off (encodeAll ts))
    (hheight : heightAll ts ≤ adtMaxDepth) (hfuel : nodesAll ts < fuel) :
    repeatM (skip16 b fuel) ts.length off = .ok (off + (encodeAll ts).length) := by
  induction ts generalizing off with
  | nil => rfl
  | cons t ts ih =>
    rw [encodeAll, holds_append] at h
    rw [heightAll] at hheight
    rw [nodesAll] at hfuel
    obtain ⟨-, hin, -, -⟩ := h.1.tree hlen
    refine repeatM_succ_ok.2 ⟨off + t.encode.length, ?_, ?_⟩
    · rw [skip16, if_neg (by omega)]
      exact subtreeEnd16_tree hlen h.1 (by omega) (by omega)
    · rw [ih h.2 (by omega) (by omega), encodeAll, length_append,
        Nat.add_assoc]

/-- Child `i` of a node. -/
theorem child16_tree {fuel : Nat} (h : Holds b off t.encode)
    (hheight : t.height ≤ adtMaxDepth) (hfuel : t.nodes < fuel) {i : Nat}
    {c : Tree} (hc : t.children[i]? = some c) :
    child16 b fuel (t.nodeAt off) i = .ok (c.nodeAt (t.childOff off i)) := by
  obtain ⟨hi, -⟩ := List.getElem?_eq_some_iff.1 hc
  obtain ⟨-, -, hprops, hall⟩ := h.tree hlen
  have hnode := nodeAt16_tree hlen (h.child hlen hc)
  have hhead := propsEnd16_props hprops
  have hlower : heightAll t.children < t.height ∧ nodesAll t.children < t.nodes := by
    cases t
    exact ⟨Nat.lt_succ_self _, Nat.lt_succ_self _⟩
  have hheights := heightAll_take_le t.children i
  have hnodes := nodesAll_take_le t.children i
  rw [← take_append_drop i t.children, encodeAll_append, holds_append] at hall
  have hloop := @repeatM_skip16_trees _ hlen _ _ fuel hall.1 (by omega)
    (by omega)
  rw [length_take, Nat.min_eq_left (Nat.le_of_lt hi)] at hloop
  have hstart : childProps16 b (t.nodeAt off).nprops
      ((t.nodeAt off).off + 8) = some _ := childProps16_of_propsEnd16 hhead
  rw [child16]
  simp only [hstart]
  refine bind_eq_ok.2 ⟨t.childOff off i, hloop, ?_⟩
  rw [hnode]
  rfl

theorem propLoop16_props (name : Bytes) {ps : List Property} (h : Holds b off (encodeProps ps)) :
    propLoop16 b name ps.length off =
      match firstProp (Property.isNamed tolower name) ps with
      | none => .error .ENOENT
      | some (i, p) => .ok (off + (encodeProps (ps.take i)).length + 36,
          p.value.length) := by
  have hmax : b.len ≤ 2 ^ 30 := hlen
  induction ps generalizing off with
  | nil => rfl
  | cons p ps ih =>
    have hcons : ∀ qs, encodeProps (p :: qs) = p.encode ++ encodeProps qs :=
      fun _ => rfl
    rw [hcons, holds_append] at h
    obtain ⟨hp, hrest⟩ := h
    obtain ⟨hsize, hfield, -, hin⟩ := hp.prop
    rw [p.encode_length, ← Nat.add_assoc] at hrest
    have htext : sameText tolower b.byte 32 off name = true ↔ p.isNamed tolower name = true := by
      rw [sameText_iff fold_tolower, hfield, Property.isNamed, beq_iff_eq]
    rw [length_cons, propLoop16, hsize, if_neg (by omega), if_neg (by omega), firstProp]
    by_cases hnamed : p.isNamed tolower name = true
    · rw [if_pos (htext.2 hnamed), if_pos hnamed]
      rfl
    · rw [if_neg (fun hsame => hnamed (htext.1 hsame)), if_neg hnamed,
        if_neg (by omega)]
      refine (ih hrest).trans ?_
      cases firstProp (Property.isNamed tolower name) ps with
      | none => rfl
      | some r =>
        obtain ⟨i, q⟩ := r
        simp only [Option.map_some, take_succ_cons, hcons, length_append, p.encode_length]
        congr 2
        omega

/-- The lookup finds the first property with the name. -/
theorem prop16_tree (h : Holds b off t.encode) (name : Bytes) : prop16 b (t.nodeAt off) name =
      match t.lookup tolower name with
      | none => .error .ENOENT
      | some (i, p) => .ok (t.valueOff off i, p.value.length) := by
  obtain ⟨-, -, hprops, -⟩ := h.tree hlen
  exact propLoop16_props hlen name hprops

/-! ## The engine -/

theorem isArmIo16_tree (h : Holds b off t.encode) :
    isArmIo16 b (t.nodeAt off) = t.isCalled tolower armIoText := by
  rw [isArmIo16, prop16_tree hlen h, Tree.isCalled]
  cases hlookup : t.lookup tolower nameText with
  | none => rfl
  | some r =>
    obtain ⟨i, p⟩ := r
    obtain ⟨hp, -⟩ := firstProp_some hlookup
    have hvalue := h.value hlen hp
    have hfold : armIoText.map tolower = armIoText := by decide
    have hcut : ((cstr armIoText).take 7).map tolower = armIoText := by decide
    have hseven : armIoText.length + 1 = 7 := by decide
    have htext := @cstr_take_iff tolower p.value armIoText
    rw [hseven] at htext
    simp only
    rw [Bool.eq_iff_iff, Bool.and_eq_true, Bool.and_eq_true, decide_eq_true_iff,
      sameText_iff fold_tolower, hcut, contains_iff_mem, beq_iff_eq, hfold,
      ← htext]
    refine and_congr_right fun hsize => ?_
    rw [hvalue.take hsize]

theorem isAne16_tree (h : Holds b off t.encode) (aneType : Nat) :
    isAne16 b aneType (t.nodeAt off) = t.hasType tolower aneType := by
  rw [isAne16, prop16_tree hlen h, Tree.hasType]
  cases hlookup : t.lookup tolower aneTypeText with
  | none => rfl
  | some r =>
    obtain ⟨i, p⟩ := r
    obtain ⟨hp, -⟩ := firstProp_some hlookup
    have hvalue := h.value hlen hp
    simp only
    by_cases hsize : 4 ≤ p.value.length
    · have hword : b.le32 (t.valueOff off i) = leValue (p.value.take 4) := by
        rw [← hvalue.take hsize]
        rfl
      rw [hword]
    · simp [hsize]

/-- A search with a test that says of a node what `test` says of the tree. -/
theorem findChild16_tree {fuel : Nat} (h : Holds b off t.encode)
    (hheight : t.height ≤ adtMaxDepth) (hfuel : t.nodes < fuel)
    {testNode : Node → Bool} {test : Tree → Bool}
    (htest : ∀ o c, Holds b o (Tree.encode c) → testNode (c.nodeAt o) = test c) :
    findChild16 b fuel (t.nodeAt off) testNode =
      match t.firstChild test off with
      | none => .error .ENOENT
      | some (o, c) => .ok (c.nodeAt o) := by
  have hfind : firstM (fun i => do
      let c ← child16 b fuel (t.nodeAt off) i
      return if testNode c then some c else none)
      (t.nodeAt off).nchildren 0 =
      .ok ((t.firstChild test off).map fun r => r.2.nodeAt r.1) := by
    refine firstM_children t off fun i c hc => ?_
    rw [child16_tree hlen h hheight hfuel hc]
    show Except.ok (if testNode _ then _ else _) = _
    rw [htest _ c (h.child hlen hc)]
  rw [findChild16, hfind]
  cases t.firstChild test off <;> rfl

omit hlen in
theorem nodes_lt_walkFuel (h : Holds b off t.encode) : t.nodes < walkFuel b := by
  have hnodes := t.nodes_le
  have hin := h.inside
  rw [walkFuel]
  omega

/-- The search finds the engine of the tree. -/
theorem findAne16_tree (h : Holds b 0 t.encode) (hheight : t.height ≤ adtMaxDepth) (aneType : Nat) :
    findAne16 b (walkFuel b) aneType =
      match t.findAne tolower aneType with
      | none => .error .ENOENT
      | some (off, c) => .ok (c.nodeAt off) := by
  rw [findAne16, nodeAt16_tree hlen h, findChild16_tree hlen h hheight (nodes_lt_walkFuel h)
      (fun _ _ hc => isArmIo16_tree hlen hc), Tree.findAne]
  cases harm : t.firstChild (Tree.isCalled tolower armIoText) 0 with
  | none => rfl
  | some r =>
    obtain ⟨off, armIo⟩ := r
    obtain ⟨i, hi, rfl⟩ := Tree.firstChild_some harm
    have hchild := h.child hlen hi
    have hlower : armIo.height ≤ adtMaxDepth := by
      have hle := height_le_heightAll (mem_of_getElem? hi)
      have hlt : heightAll t.children < t.height := by
        cases t
        exact Nat.lt_succ_self _
      omega
    exact findChild16_tree hlen hchild hlower (nodes_lt_walkFuel hchild)
      (fun _ _ hc => isAne16_tree hlen hc aneType)

end Encoded

/-- The reader on encoded trees, and its accesses on all bytes. -/
theorem reader16_correct {b : Blob} (hlen : b.len ≤ 2 ^ 30) :
    (∀ off t, Holds b off (Tree.encode t) → t.height ≤ 32 →
      (subtreeEndT16 b (walkFuel b) off).res = .ok (off + t.encode.length) ∧
      ∀ i c, t.children[i]? = some c → (childT16 b (walkFuel b) (t.nodeAt off) i).res =
          .ok (c.nodeAt (t.childOff off i))) ∧
    (∀ t, Holds b 0 (Tree.encode t) → t.height ≤ 32 → ∀ aneType,
      (findAneT16 b (walkFuel b) aneType).res =
        match t.findAne tolower aneType with
        | none => .error .ENOENT
        | some (off, c) => .ok (c.nodeAt off)) ∧
    (∀ off, (subtreeEndT16 b (walkFuel b) off).All (Access.Safe b 32) ∧
      (subtreeEndT16 b (walkFuel b) off).res ≠ .error .fuel) ∧
    (∀ n i, (childT16 b (walkFuel b) n i).All (Access.Safe b 32) ∧
      (childT16 b (walkFuel b) n i).res ≠ .error .fuel) ∧
    ∀ aneType, (readT16 b (walkFuel b) aneType).All (Access.Safe b 32) ∧
      (readT16 b (walkFuel b) aneType).res ≠ .error .fuel := by
  have hgood : ∀ {α : Type} {x : Read16 α}, Good b x →
      x.All (Access.Safe b 32) ∧ x.res ≠ .error .fuel :=
    fun h => ⟨h.all, fun he => h.error _ he rfl⟩
  refine ⟨?_, ?_, fun off => hgood (good_subtreeEndT16 off), fun n i => hgood (good_childT16 n i),
    fun aneType => hgood (good_readT16 aneType)⟩
  · intro off t h hheight
    have hfuel := nodes_lt_walkFuel h
    refine ⟨?_, fun i c hc => ?_⟩
    · rw [res_subtreeEndT16]
      exact subtreeEnd16_tree hlen h hheight hfuel
    · rw [res_childT16]
      exact child16_tree hlen h hheight hfuel hc
  · intro t h hheight aneType
    rw [res_findAneT16]
    exact findAne16_tree hlen h hheight aneType

theorem nameText_fits : nameText.length ≤ 32 := by decide

theorem aneTypeText_fits : aneTypeText.length ≤ 32 := by decide

theorem aneType_fits : (leBytes 4 0xb0).length < 2 ^ 31 := by decide

/-- `/ARM-IO/ane`, behind another child of the root. -/
def upperTree : Tree :=
  .node [] [
    .node [shortProp nameText (ascii "arm-i") nameText_fits (by decide)] [],
    .node [shortProp nameText (ascii "ARM-IO" ++ [0]) nameText_fits
      (by decide)] [
      .node [shortProp aneTypeText (leBytes 4 0xb0) aneTypeText_fits aneType_fits] []]]

theorem reader16_correct_upperTree :
    (findAneT16 (blobOf upperTree.encode) (walkFuel (blobOf upperTree.encode))
      0xb0).res = .ok { off := 112, nprops := 1, nchildren := 0 } :=
  ((reader16_correct (b := blobOf upperTree.encode) (by decide +kernel)).2.1
    upperTree (holds_blobOf _) (by decide +kernel) 0xb0).trans
    (by decide +kernel)

end OmarchyAne.Adt
