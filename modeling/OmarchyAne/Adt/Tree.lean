import OmarchyAne.Adt.Blob
import OmarchyAne.Lib.Memory

/-!
# Device trees and their encoding

What a blob is for.  A `Tree` is a node with its properties and children, and
`Tree.encode` is the format of the boot loader: the two counts, the properties
and then the children, each after the other.  The bytes behind the name in its
field and the padding behind a value may be anything, and so may the flag in
the length.

`Holds b off t.encode` says that a tree lies in a blob.  Then its properties and
its children lie where the lengths before them say (`Holds.prop`,
`Holds.child`), and every node is found in this way.

Names are C strings.  A fold of the bytes is applied before names are compared,
since one of the readers does not regard the case.
-/

namespace OmarchyAne.Adt

open Lib List

/-! ## Texts -/

/-- The text before the first NUL. -/
def cstr (bs : Bytes) : Bytes := bs.takeWhile (· != 0)

theorem cstr_cons (c : UInt8) (bs : Bytes) :
    cstr (c :: bs) = if c = 0 then [] else c :: cstr bs := by
  rw [cstr, takeWhile_cons]
  by_cases hc : c = 0
  · simp [hc]
  · simp [hc, cstr]

/-- What `sameText` compares: the texts in front of a NUL, up to `n` bytes. -/
theorem sameText_iff {fold : UInt8 → UInt8}
    (hfold : ∀ c, fold c = fold 0 ↔ c = 0) (byte : Nat → UInt8)
    (n off : Nat) (name : Bytes) :
    sameText fold byte n off name = true ↔
      (cstr (peek byte off n)).map fold = ((cstr name).take n).map fold := by
  induction n generalizing off name with
  | zero => simp [sameText, cstr]
  | succ n ih =>
    rw [sameText, peek_succ, cstr_cons]
    cases name with
    | nil =>
      by_cases hzero : byte off = 0
      · simp [hzero, cstr]
      · simp [hzero, cstr, hfold]
    | cons c name =>
      rw [cstr_cons]
      simp only [headD_cons, tail_cons, Bool.and_eq_true, beq_iff_eq, Bool.or_eq_true, ih]
      by_cases hc : c = 0
      · by_cases hzero : byte off = 0
        · simp [hc, hzero]
        · simp [hc, hzero, hfold]
      · by_cases hzero : byte off = 0
        · have hne : fold 0 ≠ fold c := by
            intro h
            exact hc ((hfold c).1 h.symm)
          simp [hc, hzero, hne]
        · simp [hc, hzero]

theorem fold_id (c : UInt8) : id c = id 0 ↔ c = 0 := Iff.rfl

theorem fold_tolower (c : UInt8) : tolower c = tolower 0 ↔ c = 0 := by
  have hzero : tolower 0 = 0 := by decide
  rw [hzero, tolower]
  split
  next hrange =>
    have hne : c + 0x20 ≠ 0 := by
      intro h
      have hnat := congrArg UInt8.toNat h
      rw [UInt8.toNat_add] at hnat
      simp only [UInt8.le_iff_toNat_le] at hrange
      have := c.toNat_lt
      simp at hnat hrange
      omega
    have hc : c ≠ 0 := by
      rintro rfl
      exact absurd hrange (by decide)
    exact iff_of_false hne hc
  next => exact Iff.rfl

/-! ## Trees -/

/-- A property as it lies in a blob. -/
structure Property where
  /-- The field of the name, with what is behind the NUL. -/
  name : Bytes
  /-- Bit 31 of the length. -/
  flag : Bool
  value : Bytes
  padding : Bytes
  name_length : name.length = 32
  value_length : value.length < 2 ^ 31
  padding_length : padding.length = pad4 value.length - value.length

/-- A property with a short name and a value. -/
def shortProp (name value : Bytes) (hname : name.length ≤ 32)
    (hvalue : value.length < 2 ^ 31) : Property where
  name := name ++ List.replicate (32 - name.length) 0
  flag := false
  value := value
  padding := List.replicate (pad4 value.length - value.length) 0
  name_length := by
    simp only [length_append, length_replicate]
    omega
  value_length := hvalue
  padding_length := by simp

inductive Tree where
  | node (props : List Property) (children : List Tree)

namespace Tree

def props : Tree → List Property
  | node props _ => props

def children : Tree → List Tree
  | node _ children => children

end Tree

/-! ## The encoding -/

def Property.encode (p : Property) : Bytes :=
  p.name ++ (leBytes 4 (p.value.length + if p.flag then 2 ^ 31 else 0) ++ (p.value ++ p.padding))

theorem Property.encode_length (p : Property) : p.encode.length = 36 + pad4 p.value.length := by
  have hpad : p.value.length ≤ pad4 p.value.length := by
    rw [pad4]
    omega
  simp only [Property.encode, length_append, p.name_length, leBytes_length, p.padding_length]
  omega

def encodeProps (ps : List Property) : Bytes := ps.flatMap Property.encode

mutual

def Tree.encode : Tree → Bytes
  | .node ps cs =>
    leBytes 4 ps.length ++ (leBytes 4 cs.length ++ (encodeProps ps ++ encodeAll cs))

def encodeAll : List Tree → Bytes
  | [] => []
  | t :: ts => t.encode ++ encodeAll ts

end

mutual

/-- The number of levels. -/
def Tree.height : Tree → Nat
  | .node _ cs => heightAll cs + 1

def heightAll : List Tree → Nat
  | [] => 0
  | t :: ts => max t.height (heightAll ts)

end

mutual

/-- The number of nodes. -/
def Tree.nodes : Tree → Nat
  | .node _ cs => nodesAll cs + 1

def nodesAll : List Tree → Nat
  | [] => 0
  | t :: ts => t.nodes + nodesAll ts

end

mutual

/-- Every node of the tree has the property. -/
def Tree.All (P : List Property → List Tree → Prop) : Tree → Prop
  | .node ps cs => P ps cs ∧ AllIn P cs

def AllIn (P : List Property → List Tree → Prop) : List Tree → Prop
  | [] => True
  | t :: ts => t.All P ∧ AllIn P ts

end

variable {ts : List Tree} {c : Tree} {b : Blob} {off : Nat} {bs : Bytes} {n : Nat} {p : Property}
  {t : Tree} {i : Nat} {test : Tree → Bool}

theorem allIn_iff {P : List Property → List Tree → Prop} : AllIn P ts ↔ ∀ t ∈ ts, t.All P := by
  induction ts with
  | nil => simp [AllIn]
  | cons t ts ih => rw [AllIn, ih, forall_mem_cons]

namespace Tree

variable (t : Tree) (off : Nat)

/-- The node that a reader has for the tree at an offset. -/
def nodeAt : Node where
  off := off
  nprops := t.props.length
  nchildren := t.children.length

/-- Where the value of property `i` starts. -/
def valueOff (i : Nat) : Nat :=
  off + 8 + (encodeProps (t.props.take i)).length + 36

/-- Where child `i` starts. -/
def childOff (i : Nat) : Nat :=
  off + 8 + (encodeProps t.props).length +
    (encodeAll (t.children.take i)).length

end Tree

/-! ## What to find in a tree -/

section Find

-- What is compared of a byte.
variable (fold : UInt8 → UInt8)

/-- The name of the property is `name`, of which its field has room for 32
bytes. -/
def Property.isNamed (name : Bytes) (p : Property) : Bool :=
  (cstr p.name).map fold == ((cstr name).take 32).map fold

/-- The first property that passes a test, and its index. -/
def firstProp (test : Property → Bool) : List Property → Option (Nat × Property)
  | [] => none
  | p :: ps =>
    if test p then some (0, p)
    else (firstProp test ps).map fun r => (r.1 + 1, r.2)

theorem firstProp_some {test : Property → Bool} {ps : List Property}
    (h : firstProp test ps = some (i, p)) :
    ps[i]? = some p ∧ test p = true := by
  induction ps generalizing i with
  | nil => cases h
  | cons q ps ih =>
    rw [firstProp] at h
    split at h
    next hq =>
      cases h
      exact ⟨rfl, hq⟩
    next =>
      obtain ⟨r, hr, heq⟩ := Option.map_eq_some_iff.1 h
      cases heq
      exact ih hr

/-- The first property with a name, and its index. -/
def Tree.lookup (name : Bytes) (t : Tree) : Option (Nat × Property) :=
  firstProp (Property.isNamed fold name) t.props

/-- The text of the `name` property is `text`. -/
def Tree.isCalled (text : Bytes) (t : Tree) : Bool :=
  match t.lookup fold nameText with
  | none => false
  | some (_, p) =>
    p.value.contains 0 && (cstr p.value).map fold == text.map fold

/-- The `ane-type` of the node is `aneType`. -/
def Tree.hasType (aneType : Nat) (t : Tree) : Bool :=
  match t.lookup fold aneTypeText with
  | none => false
  | some (_, p) =>
    decide (4 ≤ p.value.length) && leValue (p.value.take 4) == aneType

/-- The first child that passes a test, and where it is. -/
def Tree.firstChild (test : Tree → Bool) (t : Tree) (off : Nat) :
    Option (Nat × Tree) := do
  let i ← t.children.findIdx? test
  let c ← t.children[i]?
  return (t.childOff off i, c)

/-- The engine: the first child with the type in the first child called
`arm-io`. -/
def Tree.findAne (aneType : Nat) (t : Tree) : Option (Nat × Tree) := do
  let (off, armIo) ← t.firstChild (Tree.isCalled fold armIoText) 0
  armIo.firstChild (Tree.hasType fold aneType) off

end Find

theorem encodeAll_append (ts ts' : List Tree) :
    encodeAll (ts ++ ts') = encodeAll ts ++ encodeAll ts' := by
  induction ts with
  | nil => rfl
  | cons t ts ih =>
    rw [cons_append, encodeAll, ih, encodeAll, append_assoc]

theorem Tree.encode_length (t : Tree) : t.encode.length =
      8 + (encodeProps t.props).length + (encodeAll t.children).length := by
  cases t with
  | node ps cs =>
    simp only [Tree.encode, length_append, leBytes_length, Tree.props, Tree.children]
    omega

mutual

theorem Tree.nodes_le (t : Tree) : 8 * t.nodes ≤ t.encode.length := by
  cases t with
  | node ps cs =>
    have h := nodesAll_le cs
    rw [Tree.encode_length, Tree.nodes]
    show 8 * (nodesAll cs + 1) ≤ 8 + _ + (encodeAll cs).length
    omega

theorem nodesAll_le (ts : List Tree) : 8 * nodesAll ts ≤ (encodeAll ts).length := by
  cases ts with
  | nil => simp [nodesAll]
  | cons t ts =>
    have h := Tree.nodes_le t
    have hs := nodesAll_le ts
    rw [nodesAll, encodeAll, length_append]
    omega

end

mutual

theorem Tree.height_le (t : Tree) : t.height ≤ t.nodes := by
  cases t with
  | node ps cs =>
    have h := heightAll_le cs
    rw [Tree.height, Tree.nodes]
    omega

theorem heightAll_le (ts : List Tree) : heightAll ts ≤ nodesAll ts := by
  cases ts with
  | nil => simp [heightAll]
  | cons t ts =>
    have h := Tree.height_le t
    have hs := heightAll_le ts
    rw [nodesAll, heightAll]
    omega

end

theorem heightAll_take_le (ts : List Tree) (i : Nat) : heightAll (ts.take i) ≤ heightAll ts := by
  induction ts generalizing i with
  | nil => simp
  | cons t ts ih =>
    cases i with
    | zero => simp [heightAll]
    | succ i =>
      have h := ih i
      rw [take_succ_cons, heightAll, heightAll]
      omega

theorem nodesAll_take_le (ts : List Tree) (i : Nat) : nodesAll (ts.take i) ≤ nodesAll ts := by
  induction ts generalizing i with
  | nil => simp
  | cons t ts ih =>
    cases i with
    | zero => simp [nodesAll]
    | succ i =>
      have h := ih i
      rw [take_succ_cons, nodesAll, nodesAll]
      omega

theorem height_le_heightAll (h : c ∈ ts) : c.height ≤ heightAll ts := by
  induction ts with
  | nil => cases h
  | cons t ts ih =>
    rw [heightAll]
    rcases mem_cons.1 h with rfl | hrest
    · exact Nat.le_max_left _ _
    · exact Nat.le_trans (ih hrest) (Nat.le_max_right _ _)

/-! ## Trees in a blob -/

/-- The bytes lie in the blob at an offset. -/
structure Holds (b : Blob) (off : Nat) (bs : Bytes) : Prop where
  inside : off + bs.length ≤ b.len
  bytes : peek b.byte off bs.length = bs

theorem holds_blobOf (bs : Bytes) : Holds (blobOf bs) 0 bs where
  inside := by
    rw [Nat.zero_add]
    exact le_rfl
  bytes := by
    apply ext_getElem?
    intro i
    by_cases hi : i < bs.length
    · rw [peek, getElem?_map, getElem?_range hi, getElem?_eq_getElem hi]
      simp [blobOf, hi]
    · rw [getElem?_eq_none (by rw [peek_length]; omega),
        getElem?_eq_none (by omega)]

theorem holds_append {xs ys : Bytes} :
    Holds b off (xs ++ ys) ↔ Holds b off xs ∧ Holds b (off + xs.length) ys := by
  have hsplit : peek b.byte off (xs ++ ys).length = xs ++ ys ↔ peek b.byte off xs.length = xs ∧
        peek b.byte (off + xs.length) ys.length = ys := by
    rw [length_append, peek_add]
    constructor
    · intro h
      exact append_inj h (peek_length _ _ _)
    · rintro ⟨hx, hy⟩
      rw [hx, hy]
  constructor
  · rintro ⟨hin, hbytes⟩
    rw [length_append] at hin
    obtain ⟨hx, hy⟩ := hsplit.1 hbytes
    exact ⟨⟨by omega, hx⟩, ⟨by omega, hy⟩⟩
  · rintro ⟨⟨hx, hbx⟩, ⟨hy, hby⟩⟩
    refine ⟨?_, hsplit.2 ⟨hbx, hby⟩⟩
    rw [length_append]
    omega

theorem Holds.byte (h : Holds b off bs) {k : Nat} (hk : k < bs.length) :
    b.byte (off + k) = bs.getD k 0 := by
  have hget := congrArg (fun l => l[k]?) h.bytes
  simp only [peek, getElem?_map, getElem?_range hk, Option.map_some] at hget
  rw [getD_eq_getElem?_getD, ← hget, Option.getD_some]

theorem Holds.take (h : Holds b off bs) (hn : n ≤ bs.length) : peek b.byte off n = bs.take n := by
  have hsplit := h.bytes
  rw [show bs.length = n + (bs.length - n) by omega, peek_add] at hsplit
  rw [← hsplit, take_left' (peek_length _ _ _)]

theorem Holds.le32 (h : Holds b off (leBytes 4 n)) (hn : n < 2 ^ 32) : b.le32 off = n := by
  have hbytes := h.bytes
  rw [leBytes_length] at hbytes
  have hvalue : b.le32 off = leValue (peek b.byte off 4) := rfl
  rw [hvalue, hbytes, leValue_leBytes (by omega)]

/-- What the readers find of a property. -/
theorem Holds.prop (h : Holds b off p.encode) :
    b.propLen off = p.value.length ∧ peek b.byte off 32 = p.name ∧ Holds b (off + 36) p.value ∧
      off + 36 + pad4 p.value.length ≤ b.len := by
  have hin := h.inside
  rw [p.encode_length] at hin
  rw [Property.encode, holds_append, holds_append, holds_append, p.name_length, leBytes_length] at h
  obtain ⟨hname, hlength, hvalue, -⟩ := h
  have hbytes := hname.bytes
  rw [p.name_length] at hbytes
  have hsmall := p.value_length
  refine ⟨?_, hbytes, hvalue, by omega⟩
  rw [Blob.propLen, hlength.le32 (by split <;> omega)]
  split <;> omega

theorem encodeProps_length_le (ps : List Property) : 36 * ps.length ≤ (encodeProps ps).length := by
  induction ps with
  | nil => simp
  | cons p ps ih =>
    rw [encodeProps, flatMap_cons, length_append, p.encode_length, length_cons]
    change 36 * (ps.length + 1) ≤ _ + (encodeProps ps).length
    omega

theorem length_le_nodesAll (ts : List Tree) : ts.length ≤ nodesAll ts := by
  induction ts with
  | nil => simp
  | cons t ts ih =>
    have hpos : 1 ≤ t.nodes := by
      cases t
      rw [Tree.nodes]
      omega
    rw [nodesAll, length_cons]
    omega

/-- What the readers find of a node. -/
theorem Holds.tree (h : Holds b off t.encode) (hlen : b.len ≤ 2 ^ 30) :
    b.node off = t.nodeAt off ∧ off + 8 ≤ b.len ∧ Holds b (off + 8) (encodeProps t.props) ∧
      Holds b (t.childOff off 0) (encodeAll t.children) := by
  have hin := h.inside
  rw [t.encode_length] at hin
  cases t with
  | node ps cs =>
    have hps := encodeProps_length_le ps
    have hcs := length_le_nodesAll cs
    have hbytes := nodesAll_le cs
    simp only [Tree.props, Tree.children] at hin
    rw [Tree.encode, holds_append, holds_append, holds_append, leBytes_length, leBytes_length] at h
    obtain ⟨hn, hc, hprops, hkids⟩ := h
    refine ⟨?_, by omega, hprops, hkids⟩
    rw [Blob.node, hn.le32 (by omega), hc.le32 (by omega)]
    rfl

/-- Child `i` of a node. -/
theorem Holds.child (h : Holds b off t.encode) (hlen : b.len ≤ 2 ^ 30)
    (hc : t.children[i]? = some c) : Holds b (t.childOff off i) c.encode := by
  obtain ⟨-, -, -, hkids⟩ := h.tree hlen
  have hsplit : t.children = t.children.take i ++ c :: t.children.drop (i + 1) := by
    obtain ⟨hi, rfl⟩ := List.getElem?_eq_some_iff.1 hc
    rw [← drop_eq_getElem_cons hi, take_append_drop]
  rw [hsplit, encodeAll_append, encodeAll, holds_append, holds_append] at hkids
  exact hkids.2.1

/-- The value of property `i` of a node. -/
theorem Holds.value (h : Holds b off t.encode) (hlen : b.len ≤ 2 ^ 30) (hp : t.props[i]? = some p) :
    Holds b (t.valueOff off i) p.value := by
  obtain ⟨-, -, hprops, -⟩ := h.tree hlen
  have hsplit : encodeProps t.props = encodeProps (t.props.take i) ++
      (p.encode ++ encodeProps (t.props.drop (i + 1))) := by
    obtain ⟨hi, rfl⟩ := List.getElem?_eq_some_iff.1 hp
    have happend : ∀ ps qs, encodeProps (ps ++ qs) =
        encodeProps ps ++ encodeProps qs := fun _ _ => flatMap_append
    have hcons : ∀ q qs, encodeProps (q :: qs) =
        q.encode ++ encodeProps qs := fun _ _ => rfl
    rw [← hcons, ← happend, ← drop_eq_getElem_cons hi, take_append_drop]
  rw [hsplit, holds_append, holds_append] at hprops
  obtain ⟨-, -, hvalue, -⟩ := hprops.2.1.prop
  exact hvalue

theorem Tree.firstChild_some {o : Nat} (h : t.firstChild test off = some (o, c)) :
    ∃ i, t.children[i]? = some c ∧ o = t.childOff off i := by
  obtain ⟨i, -, h⟩ := Option.bind_eq_some_iff.1 h
  obtain ⟨c', hc, h⟩ := Option.bind_eq_some_iff.1 h
  cases h
  exact ⟨i, hc, rfl⟩

/-- A loop over the children finds the first that passes the test. -/
theorem firstM_children {ε : Type} (t : Tree) (off : Nat) {f : Nat → Except ε (Option Node)}
    (hf : ∀ i c, t.children[i]? = some c → f i = .ok
      (if test c then some (c.nodeAt (t.childOff off i)) else none)) :
    firstM f t.children.length 0 = .ok ((t.firstChild test off).map fun r => r.2.nodeAt r.1) := by
  have hfind := @firstM_eq_findIdx? _ _ _ f test
    (fun i c => c.nodeAt (t.childOff off i)) t.children 0 (fun j c hc => by
      rw [Nat.zero_add]
      exact hf j c hc)
  refine hfind.trans (congrArg Except.ok ?_)
  rw [Tree.firstChild]
  cases t.children.findIdx? test with
  | none => rfl
  | some i =>
    simp only [Nat.zero_add, Option.bind_some]
    cases hc : t.children[i]? <;> simp [hc]

/-- Bytes that agree with a text and its NUL, where a NUL ends the value. -/
theorem agree_iff_cstr {value text : Bytes} (hend : value.getLast? = some 0)
    (htext : 0 ∉ text) (h : Holds b off value) :
    (∀ k < text.length + 1, b.byte (off + k) = text.getD k 0) ↔ cstr value = text := by
  induction value generalizing off text with
  | nil => cases hend
  | cons v vs ih =>
    have hfirst : b.byte off = v := h.byte (Nat.succ_pos _)
    rw [cstr_cons]
    by_cases hv : v = 0
    · rw [if_pos hv]
      cases text with
      | nil => simp [hfirst, hv]
      | cons c text =>
        refine iff_of_false ?_ (by simp)
        intro hagree
        have hc : b.byte off = c := hagree 0 (Nat.succ_pos _)
        rw [hfirst, hv] at hc
        exact htext (hc ▸ mem_cons_self)
    · rw [if_neg hv]
      cases text with
      | nil => simp [hfirst, hv]
      | cons c text =>
        rw [mem_cons, not_or] at htext
        have hrest : vs.getLast? = some 0 := by
          cases vs with
          | nil => exact absurd (Option.some.inj hend) hv
          | cons w ws => simpa [getLast?_cons_cons] using hend
        have hholds : Holds b (off + 1) vs := by
          have happ : Holds b off ([v] ++ vs) := h
          exact (holds_append.1 happ).2
        rw [List.cons.injEq, ← ih hrest htext.2 hholds]
        constructor
        · intro hagree
          refine ⟨?_, ?_⟩
          · rw [← hfirst]
            exact hagree 0 (Nat.succ_pos _)
          · intro k hk
            have := hagree (k + 1) (by rw [length_cons]; omega)
            rwa [getD_cons_succ,
              show off + (k + 1) = off + 1 + k by omega] at this
        · rintro ⟨rfl, hagree⟩ k hk
          cases k with
          | zero => exact hfirst
          | succ k =>
            rw [getD_cons_succ, show off + (k + 1) = off + 1 + k by omega]
            exact hagree k (by rw [length_cons] at hk; omega)

end OmarchyAne.Adt
