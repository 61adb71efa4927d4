import OmarchyAne.Adt.Safe15
import OmarchyAne.Adt.Tree

/-!
# The H15 reader on encoded trees

On the encoding of a tree the reader finds what the tree has: the end of a node
(`subtreeEnd15_tree`), its children (`nthChildOff15_tree`), the first property
with a name (`prop15_tree`), and the engine (`findAne15_tree`).

A tree is well formed for this reader if no node has more than 4096 properties
or children, and if the values of the `name` properties end in a NUL.  The
latter keeps the comparison with the wanted name inside the value.
-/

namespace OmarchyAne.Adt

open Lib List

variable {t : Tree} {b : Blob}

/-- If the property is a `name`, its value ends in a NUL. -/
def Property.Terminated (p : Property) : Prop :=
  p.isNamed id nameText = true → p.value.getLast? = some 0

/-- The counts are at most 4096, and the names are terminated. -/
def Tree.WellFormed (t : Tree) : Prop :=
  t.All fun ps cs => ps.length ≤ 4096 ∧ cs.length ≤ 4096 ∧
    ∀ p ∈ ps, p.Terminated

theorem Tree.WellFormed.node (h : t.WellFormed) : t.props.length ≤ 4096 ∧ t.children.length ≤ 4096 ∧
      (∀ p ∈ t.props, p.Terminated) ∧ ∀ c ∈ t.children, c.WellFormed := by
  cases t with
  | node ps cs =>
    rw [Tree.WellFormed, Tree.All, allIn_iff] at h
    exact ⟨h.1.1, h.1.2.1, h.1.2.2, h.2⟩

section Encoded

variable {b : Blob} (hlen : b.len ≤ adtMaxLen) {off : Nat} {t : Tree} {ps : List Property}
  {name : Bytes} (hwf : t.WellFormed) (h : Holds b off t.encode) {fuel : Nat}
  (hfuel : t.height ≤ fuel)

include hlen

theorem nodeAt15_tree (hwf : t.WellFormed) (h : Holds b off t.encode) :
    nodeAt15 b off = .ok (t.nodeAt off) := by
  have hmax : b.len ≤ 2 ^ 30 := hlen
  obtain ⟨hprops, hkids, -, -⟩ := hwf.node
  obtain ⟨hnode, hin, -, -⟩ := h.tree hlen
  have hn : b.le32 off = t.props.length := congrArg Node.nprops hnode
  have hc : b.le32 (off + 4) = t.children.length := congrArg Node.nchildren hnode
  rw [nodeAt15, u32_of_lt (by omega), u32_of_lt (by omega), if_neg (by omega)]
  simp only [hn, hc]
  rw [if_neg (by omega)]
  rfl

theorem propsEnd15_props (h : Holds b off (encodeProps ps)) :
    propsEnd15 b ps.length off = .ok (off + (encodeProps ps).length) := by
  have hmax : b.len ≤ 2 ^ 30 := hlen
  induction ps generalizing off with
  | nil => rfl
  | cons p ps ih =>
    have hcons : encodeProps (p :: ps) = p.encode ++ encodeProps ps := rfl
    rw [hcons, holds_append] at h
    obtain ⟨hp, hrest⟩ := h
    obtain ⟨hsize, -, -, hin⟩ := hp.prop
    rw [p.encode_length] at hrest
    rw [length_cons, propsEnd15, hsize, u32_of_lt (by omega),
      if_neg (by omega), u32_of_lt (by omega), ih hrest, hcons,
      length_append, p.encode_length]
    congr 1
    omega

mutual

theorem subtreeEnd15_tree (t : Tree) {off fuel : Nat} (hwf : t.WellFormed)
    (h : Holds b off t.encode) (hfuel : t.height ≤ fuel) :
    subtreeEnd15 b fuel (t.nodeAt off) = .ok (off + t.encode.length) := by
  have hmax : b.len ≤ 2 ^ 30 := hlen
  obtain ⟨-, -, -, hkids⟩ := hwf.node
  obtain ⟨-, hin, hprops, hall⟩ := h.tree hlen
  have hend := h.inside
  cases t with
  | node ps cs =>
    change Holds b (off + 8 + (encodeProps ps).length) (encodeAll cs) at hall
    obtain ⟨fuel, rfl⟩ : ∃ k, fuel = k + 1 := by
      refine ⟨fuel - 1, ?_⟩
      rw [Tree.height] at hfuel
      omega
    have hloop := repeatM_skip15_trees cs hkids hall
      (show heightAll cs ≤ fuel by rw [Tree.height] at hfuel; omega)
    have hlength : (Tree.node ps cs).encode.length =
        8 + (encodeProps ps).length + (encodeAll cs).length :=
      Tree.encode_length _
    rw [hlength] at hend ⊢
    rw [subtreeEnd15]
    refine bind_eq_ok.2 ⟨off + 8 + (encodeProps ps).length, ?_, ?_⟩
    · show propsEnd15 b ps.length (u32 (off + 8)) = _
      rw [u32_of_lt (by omega)]
      exact propsEnd15_props hlen hprops
    · refine bind_eq_ok.2 ⟨_, hloop, ?_⟩
      rw [if_neg (by omega)]
      congr 1
      omega

theorem repeatM_skip15_trees (ts : List Tree) {off fuel : Nat}
    (hwf : ∀ t ∈ ts, t.WellFormed) (h : Holds b off (encodeAll ts))
    (hfuel : heightAll ts ≤ fuel) :
    repeatM (skip15 b fuel) ts.length off = .ok (off + (encodeAll ts).length) := by
  cases ts with
  | nil => rfl
  | cons t ts =>
    rw [encodeAll, holds_append] at h
    rw [heightAll] at hfuel
    have hfirst := subtreeEnd15_tree t (hwf t mem_cons_self) h.1
      (show t.height ≤ fuel by omega)
    have hrest := repeatM_skip15_trees ts (fun c hc => hwf c (mem_cons_of_mem t hc)) h.2
      (show heightAll ts ≤ fuel by omega)
    refine repeatM_succ_ok.2 ⟨off + t.encode.length, ?_, ?_⟩
    · exact bind_eq_ok.2 ⟨_, nodeAt15_tree hlen (hwf t mem_cons_self) h.1, hfirst⟩
    · rw [hrest, encodeAll, length_append, Nat.add_assoc]

end

theorem nthChildOff15_tree (hwf : t.WellFormed) (h : Holds b off t.encode)
    {fuel : Nat} (hfuel : t.height ≤ fuel) (i : Nat) :
    nthChildOff15 b fuel (t.nodeAt off) i = if i < t.children.length then .ok (t.childOff off i)
      else .error .ENOENT := by
  have hmax : b.len ≤ 2 ^ 30 := hlen
  obtain ⟨-, -, -, hkids⟩ := hwf.node
  obtain ⟨-, hin, hprops, hall⟩ := h.tree hlen
  have hheight : heightAll t.children < t.height := by
    cases t
    exact Nat.lt_succ_self _
  have htake := heightAll_take_le t.children i
  rw [nthChildOff15]
  by_cases hi : i < t.children.length
  · have hlen' : (t.children.take i).length = i := by
      rw [length_take]
      omega
    rw [← take_append_drop i t.children, encodeAll_append, holds_append] at hall
    have hloop := repeatM_skip15_trees hlen (t.children.take i)
      (fun c hc => hkids c (mem_of_mem_take hc)) hall.1
      (show _ ≤ fuel by omega)
    rw [hlen'] at hloop
    rw [if_pos hi, if_neg (show ¬ (t.nodeAt off).nchildren ≤ i from Nat.not_le.2 hi)]
    refine bind_eq_ok.2 ⟨t.childOff off 0, ?_, hloop⟩
    show propsEnd15 b t.props.length (u32 (off + 8)) = _
    rw [u32_of_lt (by omega)]
    exact propsEnd15_props hlen hprops
  · rw [if_neg hi,
      if_pos (show (t.nodeAt off).nchildren ≤ i from Nat.not_lt.1 hi)]

theorem propLoop15_props (name : Bytes) (h : Holds b off (encodeProps ps)) :
    propLoop15 b name ps.length off =
      match firstProp (Property.isNamed id name) ps with
      | none => .error .ENOENT
      | some (i, p) => .ok (off + (encodeProps (ps.take i)).length + 36,
          p.value.length) := by
  have hmax : b.len ≤ 2 ^ 30 := hlen
  induction ps generalizing off with
  | nil => rfl
  | cons p ps ih =>
    have hcons : ∀ qs, encodeProps (p :: qs) = p.encode ++ encodeProps qs :=
      fun _ => rfl
    rw [hcons, holds_append] at h
    obtain ⟨hp, hrest⟩ := h
    obtain ⟨hsize, hfield, -, hin⟩ := hp.prop
    rw [p.encode_length] at hrest
    have htext : sameText id b.byte 32 off name = true ↔ p.isNamed id name = true := by
      rw [sameText_iff fold_id, hfield, Property.isNamed, beq_iff_eq]
    rw [length_cons, propLoop15, hsize, u32_of_lt (by omega),
      if_neg (by omega), u32_of_lt (by omega), if_neg (by omega),
      u32_of_lt (by omega), firstProp]
    by_cases hnamed : p.isNamed id name = true
    · rw [if_pos (htext.2 hnamed), if_pos hnamed]
      rfl
    · rw [if_neg (fun hsame => hnamed (htext.1 hsame)), if_neg hnamed]
      refine (ih hrest).trans ?_
      cases firstProp (Property.isNamed id name) ps with
      | none => rfl
      | some r =>
        obtain ⟨i, q⟩ := r
        simp only [Option.map_some, take_succ_cons, hcons, length_append, p.encode_length]
        congr 2
        omega

/-- The lookup finds the first property with the name. -/
theorem prop15_tree (h : Holds b off t.encode) (name : Bytes) : prop15 b (t.nodeAt off) name =
      match t.lookup id name with
      | none => .error .ENOENT
      | some (i, p) => .ok (t.valueOff off i, p.value.length) := by
  have hmax : b.len ≤ 2 ^ 30 := hlen
  obtain ⟨-, hin, hprops, -⟩ := h.tree hlen
  rw [prop15]
  show propLoop15 b name t.props.length (u32 (off + 8)) = _
  rw [u32_of_lt (by omega)]
  exact propLoop15_props hlen name hprops

/-! ## The engine -/

theorem isNamed15_tree (hwf : t.WellFormed) (h : Holds b off t.encode) (hname : 0 ∉ name) :
    isNamed15 b name (t.nodeAt off) = t.isCalled id name := by
  obtain ⟨-, -, hterm, -⟩ := hwf.node
  rw [isNamed15, prop15_tree hlen h, Tree.isCalled]
  cases hlookup : t.lookup id nameText with
  | none => rfl
  | some r =>
    obtain ⟨i, p⟩ := r
    obtain ⟨hp, hnamed⟩ := firstProp_some hlookup
    have hend := hterm p (mem_of_getElem? hp) hnamed
    have hvalue := h.value hlen hp
    have hmem : (0 : UInt8) ∈ p.value := mem_of_getLast? hend
    have hpos : 0 < p.value.length := length_pos_of_mem hmem
    have hagree := agree_iff_cstr hend hname hvalue
    have hlast : name.getD name.length 0 = 0 := by simp
    simp only [map_id, hpos, decide_true, Bool.true_and, contains_iff_mem.2 hmem]
    rw [Bool.eq_iff_iff, Bool.and_eq_true, sameText_id_iff hname, beq_iff_eq, beq_iff_eq, ← hagree]
    constructor
    · rintro ⟨hall, hzero⟩ k hk
      rcases Nat.lt_succ_iff_lt_or_eq.1 hk with hlt | rfl
      · exact hall k hlt
      · rw [hzero, hlast]
    · intro hall
      exact ⟨fun k hk => hall k (by omega), (hall name.length (by omega)).trans hlast⟩

theorem isAne15_tree (h : Holds b off t.encode) (aneType : Nat) :
    isAne15 b aneType (t.nodeAt off) = .ok (t.hasType id aneType) := by
  rw [isAne15, prop15_tree hlen h, Tree.hasType]
  cases hlookup : t.lookup id aneTypeText with
  | none => rfl
  | some r =>
    obtain ⟨i, p⟩ := r
    obtain ⟨hp, -⟩ := firstProp_some hlookup
    have hvalue := h.value hlen hp
    simp only
    by_cases hsize : 4 ≤ p.value.length
    · have hword : b.le32 (t.valueOff off i) = leValue (p.value.take 4) := by
        rw [← hvalue.take hsize]
        rfl
      rw [hword]
    · simp [hsize]

include hwf h hfuel

theorem child15_tree {i : Nat} {c : Tree} (hc : t.children[i]? = some c) :
    child15 b fuel (t.nodeAt off) i = .ok (c.nodeAt (t.childOff off i)) := by
  obtain ⟨hi, -⟩ := List.getElem?_eq_some_iff.1 hc
  obtain ⟨-, -, -, hkids⟩ := hwf.node
  refine bind_eq_ok.2 ⟨t.childOff off i, ?_, ?_⟩
  · rw [nthChildOff15_tree hlen hwf h hfuel, if_pos hi]
  · exact nodeAt15_tree hlen (hkids c (mem_of_getElem? hc)) (h.child hlen hc)

theorem childNamed15_tree (hname : 0 ∉ name) : childNamed15 b fuel (t.nodeAt off) name =
      match t.firstChild (Tree.isCalled id name) off with
      | none => .error .ENOENT
      | some (o, c) => .ok (c.nodeAt o) := by
  obtain ⟨-, -, -, hkids⟩ := hwf.node
  have hfind : firstM (fun i => do
      let c ← child15 b fuel (t.nodeAt off) i
      return if isNamed15 b name c then some c else none)
      (t.nodeAt off).nchildren 0 =
      .ok ((t.firstChild (Tree.isCalled id name) off).map fun r =>
        r.2.nodeAt r.1) := by
    refine firstM_children t off fun i c hc => ?_
    rw [child15_tree hlen hwf h hfuel hc]
    show Except.ok (if isNamed15 b name _ then _ else _) = _
    rw [isNamed15_tree hlen (hkids c (mem_of_getElem? hc)) (h.child hlen hc) hname]
  rw [childNamed15, hfind]
  cases t.firstChild (Tree.isCalled id name) off <;> rfl

theorem findType15_tree (aneType : Nat) :
    firstM (fun i => do
      let c ← child15 b fuel (t.nodeAt off) i
      let yes ← isAne15 b aneType c
      return if yes then some c else none) (t.nodeAt off).nchildren 0 =
      .ok ((t.firstChild (Tree.hasType id aneType) off).map fun r =>
        r.2.nodeAt r.1) := by
  refine firstM_children t off fun i c hc => ?_
  rw [child15_tree hlen hwf h hfuel hc]
  show (isAne15 b aneType _ >>= _) = _
  rw [isAne15_tree hlen (h.child hlen hc)]
  rfl

end Encoded

theorem height_le_walkFuel {off : Nat} (h : Holds b off t.encode) : t.height ≤ walkFuel b := by
  have hheight := t.height_le
  have hnodes := t.nodes_le
  have hin := h.inside
  rw [walkFuel]
  omega

/-- The search finds the engine of the tree. -/
theorem findAne15_tree (hlen : b.len ≤ adtMaxLen) (hwf : t.WellFormed)
    (h : Holds b 0 t.encode) (aneType : Nat) :
    findAne15 b (walkFuel b) aneType =
      match t.findAne id aneType with
      | none => .error .ENOENT
      | some (off, c) => .ok (c.nodeAt off) := by
  have hfuel := height_le_walkFuel h
  obtain ⟨-, hin, -, -⟩ := h.tree hlen
  obtain ⟨-, -, -, hkids⟩ := hwf.node
  rw [findAne15, if_neg (by omega), nodeAt15_tree hlen hwf h]
  show (subtreeEnd15 b (walkFuel b) (t.nodeAt 0) >>= _) = _
  rw [subtreeEnd15_tree hlen t hwf h hfuel]
  show (childNamed15 b (walkFuel b) (t.nodeAt 0) armIoText >>= _) = _
  rw [childNamed15_tree hlen hwf h hfuel (by decide), Tree.findAne]
  cases harm : t.firstChild (Tree.isCalled id armIoText) 0 with
  | none => rfl
  | some r =>
    obtain ⟨off, armIo⟩ := r
    obtain ⟨i, hi, rfl⟩ := Tree.firstChild_some harm
    have hchild := h.child hlen hi
    have hfind := findType15_tree hlen (hkids armIo (mem_of_getElem? hi)) hchild
      (height_le_walkFuel hchild) aneType
    show (firstM _ (armIo.nodeAt _).nchildren 0 >>= _) = _
    rw [hfind]
    show _ = match armIo.firstChild (Tree.hasType id aneType)
        (t.childOff 0 i) with
      | none => _
      | some (off, c) => _
    cases armIo.firstChild (Tree.hasType id aneType) (t.childOff 0 i) <;> rfl

/-- The reader on encoded trees, and that its walk ends on all bytes. -/
theorem reader15_correct {b : Blob} (hlen : b.len ≤ 2 ^ 30) :
    (∀ off t, Tree.WellFormed t → Holds b off t.encode →
      subtreeEnd15 b (walkFuel b) (t.nodeAt off) = .ok (off + t.encode.length) ∧
      (∀ i, nthChildOff15 b (walkFuel b) (t.nodeAt off) i =
        if i < t.children.length then .ok (t.childOff off i)
        else .error .ENOENT) ∧
      ∀ name, prop15 b (t.nodeAt off) name =
        match t.lookup id name with
        | none => .error .ENOENT
        | some (i, p) => .ok (t.valueOff off i, p.value.length)) ∧
    (∀ t, Tree.WellFormed t → Holds b 0 t.encode → ∀ aneType, findAne15 b (walkFuel b) aneType =
        match t.findAne id aneType with
        | none => .error .ENOENT
        | some (off, c) => .ok (c.nodeAt off)) ∧
    (∀ n : Node, n.off + 8 ≤ b.len → (subtreeEndT15 b (walkFuel b) n).res ≠ .error none) ∧
    ∀ aneType textExpect dataMin,
      (readT15 b (walkFuel b) aneType textExpect dataMin).res ≠
        .error none := by
  have hlift : ∀ {α : Type} (x : Except Err15 α), lift x ≠ .error none := by
    intro α x
    cases x <;> simp
  refine ⟨?_, fun t hwf h => findAne15_tree hlen hwf h, ?_, ?_⟩
  · intro off t hwf h
    have hfuel := height_le_walkFuel h
    exact ⟨subtreeEnd15_tree hlen t hwf h hfuel,
      nthChildOff15_tree hlen hwf h hfuel, prop15_tree hlen h⟩
  · intro n hin
    have hfuel := walkFuel_enough b
    rw [res_subtreeEndT15 hlen _ hin (by omega)]
    exact hlift _
  · intro aneType textExpect dataMin
    rw [res_readT15 hlen (walkFuel_enough b)]
    exact hlift _

/-- `/arm-io/ane`, behind another child of the root. -/
def smallTree : Tree :=
  .node [] [
    .node [shortProp nameText (ascii "cpus" ++ [0]) (by decide) (by decide)] [],
    .node [shortProp nameText (armIoText ++ [0]) (by decide) (by decide)] [
      .node [shortProp aneTypeText (leBytes 4 0xb0) (by decide) (by decide)]
        []]]

theorem smallTree_wellFormed : smallTree.WellFormed := by
  simp only [Tree.WellFormed, smallTree, Tree.All, AllIn, Property.Terminated]
  decide +kernel

theorem reader15_correct_smallTree :
    findAne15 (blobOf smallTree.encode) (walkFuel (blobOf smallTree.encode))
      0xb0 = .ok { off := 112, nprops := 1, nchildren := 0 } :=
  ((reader15_correct (b := blobOf smallTree.encode) (by decide +kernel)).2.1
    smallTree smallTree_wellFormed (holds_blobOf _) 0xb0).trans
    (by decide +kernel)

end OmarchyAne.Adt
