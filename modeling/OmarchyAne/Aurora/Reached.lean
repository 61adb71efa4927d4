import OmarchyAne.Lib.Bytes
import OmarchyAne.Lib.Closure
import OmarchyAne.Lib.Text

/-!
# The nodes that a device tree node needs

`reached` of `tools/aurora_dt.py` follows the references of a node: its parent,
the words of `interrupt-parent` and `memory-region`, and the provider of every
specifier in four properties.  A specifier is a phandle and as many words as
the provider's `#…-cells` says.

`Refers` states these references.  If every reference property is a list of
whole words, `reached` ends and returns exactly what they lead to
(`reached_exact`).  A property of another length raises `struct.error`
(`reached_ragged`).
-/

namespace OmarchyAne.Aurora

open Lib List

/-- The names from the root down. -/
abbrev Path := List Text

abbrev Props := List (Text × Bytes)

/-- `Tree`.  The parser enters a node below an open one, and the constructor
reads the first word of every `phandle`. -/
structure Tree where
  nodes : List (Path × Props)
  distinct : (nodes.map Prod.fst).Nodup
  parent : ∀ path ∈ nodes.map Prod.fst, path.dropLast ∈ nodes.map Prod.fst
  word : ∀ row ∈ nodes, ∀ data ∈ row.2.lookup "phandle".toList, data ≠ [] ∧ data.length % 4 = 0

inductive Stop where
  | noNode
  | ragged
  | noWord
  | fuel
  deriving DecidableEq

/-- The big-endian words of a value. -/
def beWords : Bytes → List Nat
  | a :: b :: c :: d :: rest =>
    (((a.toNat * 256 + b.toNat) * 256 + c.toNat) * 256 + d.toNat) :: beWords rest
  | _ => []

def cells (data : Bytes) : Except Stop (List Nat) :=
  if data.length % 4 = 0 then .ok (beWords data) else .error .ragged

def plainProps : List Text :=
  ["interrupt-parent".toList, "memory-region".toList]

/-- `REFS`: a property, and the property of the provider with the number of
argument words. -/
def refProps : List (Text × Text) :=
  [("power-domains".toList, "#power-domain-cells".toList), ("iommus".toList, "#iommu-cells".toList),
    ("mboxes".toList, "#mbox-cells".toList),
    ("resets".toList, "#reset-cells".toList)]

def value (props : Props) (prop : Text) : Bytes := (props.lookup prop).getD []

namespace Tree

variable (t : Tree)

abbrev paths : List Path := t.nodes.map Prod.fst

/-- The dictionary of the phandles.  The last node with a phandle has it. -/
def phandles : List (Nat × Path) :=
  (t.nodes.filterMap fun row => do
    let data ← row.2.lookup "phandle".toList
    return (← (beWords data).head?, row.1)).reverse

def propsOf (path : Path) : Props := (t.nodes.lookup path).getD []

/-- The number of argument words behind a phandle. -/
def argCells (count : Text) (w : Nat) : Except Stop Nat :=
  match (t.phandles.lookup w).bind fun target =>
    (t.propsOf target).lookup count with
  | none => .ok 0
  | some data => do
    match ← cells data with
    | [] => .error .noWord
    | n :: _ => .ok n

/-- The loop over the specifiers of a property: their phandles. -/
def specifiers (count : Text) : Nat → List Nat → Except Stop (List Nat)
  | fuel + 1, w :: ws => do
    let n ← t.argCells count w
    return w :: (← specifiers count fuel (ws.drop n))
  | _, _ => .ok []

/-- The words of a node that are phandles. -/
def handles (props : Props) : Except Stop (List Nat) := do
  let plain ← plainProps.mapM fun prop => cells (value props prop)
  let refs ← refProps.mapM fun ref => do
    let words ← cells (value props ref.1)
    t.specifiers ref.2 words.length words
  return plain.flatten ++ refs.flatten

def targets (path : Path) : Except Stop (List Path) :=
  match t.nodes.lookup path with
  | none => .error .noNode
  | some props => do
    let words ← t.handles props
    return words.filterMap (fun w => t.phandles.lookup w) ++
      if path = [] then [] else [path.dropLast]

def reached (fuel : Nat) (start : List Path) : Except Stop (List Path) :=
  visit t.targets .fuel fuel start.reverse []

/-! ## The references -/

/-- The number of argument words that a provider asks for: none if there is no
provider or it has no such property. -/
def arguments (count : Text) (w : Nat) : Nat :=
  match (t.phandles.lookup w).bind fun target =>
    (t.propsOf target).lookup count with
  | none => 0
  | some data => (beWords data).headD 0

/-- The specifiers of a list of words begin with these. -/
inductive Specifier (count : Text) : List Nat → Nat → Prop
  | first {w ws} : Specifier count (w :: ws) w
  | later {w w' ws} (h : Specifier count (ws.drop (t.arguments count w)) w') :
      Specifier count (w :: ws) w'

/-- Node `a` refers to node `b`. -/
inductive Refers (a b : Path) : Prop
  | parent (ha : a ≠ []) (hb : b = a.dropLast)
  | plain (prop : Text) (hprop : prop ∈ plainProps) (w : Nat)
      (hw : w ∈ beWords (value (t.propsOf a) prop))
      (hb : t.phandles.lookup w = some b)
  | provider (ref : Text × Text) (href : ref ∈ refProps) (w : Nat)
      (hw : t.Specifier ref.2 (beWords (value (t.propsOf a) ref.1)) w)
      (hb : t.phandles.lookup w = some b)

/-- The `#…-cells` properties hold one word. -/
def OneCell : Prop :=
  ∀ path, ∀ ref ∈ refProps, ∀ data,
    (t.propsOf path).lookup ref.2 = some data → data.length = 4

/-- The reference properties hold whole words. -/
def WholeWords : Prop :=
  ∀ path, ∀ prop ∈ plainProps ++ refProps.map Prod.fst,
    (value (t.propsOf path) prop).length % 4 = 0

variable {t}

theorem argCells_eq (h : t.OneCell) {ref : Text × Text} (href : ref ∈ refProps)
    (w : Nat) : t.argCells ref.2 w = .ok (t.arguments ref.2 w) := by
  rw [argCells, arguments]
  cases htarget : t.phandles.lookup w with
  | none => rfl
  | some target =>
    cases hdata : (t.propsOf target).lookup ref.2 with
    | none => simp [hdata]
    | some data =>
      have hlen := h target ref href data hdata
      rcases data with _ | ⟨a, _ | ⟨b, _ | ⟨c, _ | ⟨d, _ | _⟩⟩⟩⟩ <;>
        simp only [length_nil, length_cons] at hlen
      all_goals first | omega | simp [hdata, cells, beWords]; rfl

theorem specifiers_ok (h : t.OneCell) {ref : Text × Text} (href : ref ∈ refProps)
    {fuel : Nat} {words : List Nat} (hfuel : words.length ≤ fuel) :
    ∃ out, t.specifiers ref.2 fuel words = .ok out ∧ ∀ w, w ∈ out ↔ t.Specifier ref.2 words w := by
  induction fuel generalizing words with
  | zero =>
    rw [eq_nil_of_length_eq_zero (Nat.le_zero.mp hfuel)]
    refine ⟨[], rfl, fun w => iff_of_false not_mem_nil fun hw => ?_⟩
    cases hw
  | succ fuel ih =>
    cases words with
    | nil =>
      refine ⟨[], rfl, fun w => iff_of_false not_mem_nil fun hw => ?_⟩
      cases hw
    | cons w ws =>
      rw [length_cons] at hfuel
      have hdrop : (ws.drop (t.arguments ref.2 w)).length ≤ fuel := by
        rw [length_drop]
        omega
      obtain ⟨rest, hrest, hmem⟩ := ih hdrop
      refine ⟨w :: rest, ?_, fun w' => ?_⟩
      · rw [specifiers, argCells_eq h href]
        exact bind_eq_ok.mpr ⟨_, rfl, bind_eq_ok.mpr ⟨rest, hrest, rfl⟩⟩
      · rw [mem_cons, hmem]
        constructor
        · rintro (rfl | hw)
          · exact .first
          · exact .later hw
        · intro hw
          cases hw with
          | first => exact .inl rfl
          | later hw => exact .inr hw

/-- The successors of a node are the nodes that it refers to. -/
theorem targets_ok (hone : t.OneCell) (hwords : t.WholeWords) {path : Path}
    (hpath : path ∈ t.paths) :
    ∃ out, t.targets path = .ok out ∧ ∀ b, b ∈ out ↔ t.Refers path b := by
  obtain ⟨props, hprops⟩ : ∃ props, t.nodes.lookup path = some props := by
    rw [← Option.ne_none_iff_exists', ne_eq, lookup_eq_none_iff]
    obtain ⟨row, hrow, rfl⟩ := mem_map.mp hpath
    exact fun hnone => by simpa using hnone row hrow
  have hof : t.propsOf path = props := by rw [propsOf, hprops]; rfl
  have hcells : ∀ prop ∈ plainProps ++ refProps.map Prod.fst,
      cells (value props prop) = .ok (beWords (value props prop)) := by
    intro prop hprop
    rw [cells, if_pos (hof ▸ hwords path prop hprop)]
  obtain ⟨plain, hplain, hplainMem⟩ := mapM_flatten (l := plainProps)
    (q := fun prop w => w ∈ beWords (value props prop))
    fun prop hprop => ⟨_, hcells prop (mem_append_left _ hprop), fun _ => Iff.rfl⟩
  obtain ⟨refs, hrefs, hrefsMem⟩ := mapM_flatten (l := refProps)
    (f := fun ref => do
      let words ← cells (value props ref.1)
      t.specifiers ref.2 words.length words)
    (q := fun ref w => t.Specifier ref.2 (beWords (value props ref.1)) w) (by
      intro ref href
      rw [hcells ref.1 (mem_append_right _ (mem_map_of_mem href))]
      exact specifiers_ok hone href le_rfl)
  have hhandles : t.handles props = .ok (plain.flatten ++ refs.flatten) :=
    bind_eq_ok.mpr ⟨plain, hplain, bind_eq_ok.mpr ⟨refs, hrefs, rfl⟩⟩
  refine ⟨_, by rw [targets, hprops]; exact bind_eq_ok.mpr ⟨_, hhandles, rfl⟩, fun b => ?_⟩
  rw [mem_append, mem_filterMap]
  constructor
  · rintro (⟨w, hw, hb⟩ | hb)
    · obtain hw | hw := mem_append.mp hw
      · obtain ⟨prop, hprop, hw⟩ := (hplainMem w).mp hw
        exact .plain prop hprop w (hof ▸ hw) hb
      · obtain ⟨ref, href, hw⟩ := (hrefsMem w).mp hw
        exact .provider ref href w (hof ▸ hw) hb
    · split at hb
      · cases hb
      · next hne => exact .parent hne (mem_singleton.mp hb)
  · rintro (⟨ha, hb⟩ | ⟨prop, hprop, w, hw, hb⟩ | ⟨ref, href, w, hw, hb⟩)
    · exact .inr (by rw [if_neg ha, hb]; exact mem_singleton_self _)
    · refine .inl ⟨w, mem_append_left _ ((hplainMem w).mpr ⟨prop, hprop, ?_⟩), hb⟩
      exact hof ▸ hw
    · refine .inl ⟨w, mem_append_right _ ((hrefsMem w).mpr ⟨ref, href, ?_⟩), hb⟩
      exact hof ▸ hw

theorem refers_mem {a b : Path} (ha : a ∈ t.paths) (h : t.Refers a b) : b ∈ t.paths := by
  have hknown : ∀ {w}, t.phandles.lookup w = some b → b ∈ t.paths := by
    intro w hw
    obtain ⟨l, l', hl, -⟩ := lookup_eq_some_iff.mp hw
    have hmem : (w, b) ∈ t.phandles := by simp [hl]
    obtain ⟨row, hrow, hw⟩ := mem_filterMap.mp (mem_reverse.mp hmem)
    obtain ⟨data, -, hw⟩ := Option.bind_eq_some_iff.mp hw
    obtain ⟨w', -, hw⟩ := Option.bind_eq_some_iff.mp hw
    obtain ⟨-, rfl⟩ := Prod.mk.inj (Option.some.inj hw)
    exact mem_map_of_mem hrow
  cases h with
  | parent _ hb => exact hb ▸ t.parent a ha
  | plain _ _ _ _ hb => exact hknown hb
  | provider _ _ _ _ hb => exact hknown hb

theorem propsOf_cases (t : Tree) (path : Path) :
    t.propsOf path = [] ∨ t.propsOf path ∈ t.nodes.map Prod.snd := by
  rw [propsOf]
  cases h : t.nodes.lookup path with
  | none => exact .inl rfl
  | some props =>
    obtain ⟨l, l', hl, -⟩ := lookup_eq_some_iff.mp h
    exact .inr (by simp [hl])

/-- The condition on the `#…-cells` is one on the nodes. -/
theorem oneCell_of (h : ∀ props ∈ t.nodes.map Prod.snd, ∀ ref ∈ refProps,
    ∀ data ∈ props.lookup ref.2, data.length = 4) : t.OneCell := by
  intro path ref href data hdata
  obtain hnil | hprops := t.propsOf_cases path
  · rw [hnil] at hdata
    cases hdata
  · exact h _ hprops ref href data hdata

end Tree

/-- For every device tree whose `#…-cells` hold one word and whose reference
properties hold whole words, and for every list of its nodes: `reached` ends and
returns the least set that holds the nodes and is closed under references. -/
theorem reached_exact (t : Tree) (start : List Path) (hone : t.OneCell)
    (hwords : t.WholeWords) (hstart : ∀ a ∈ start, a ∈ t.paths) :
    ∃ fuel out, (∀ more, t.reached (fuel + more) start = .ok out) ∧
      (∀ a ∈ start, a ∈ out) ∧ (∀ a ∈ out, ∀ b, t.Refers a b → b ∈ out) ∧
      ∀ S : Path → Prop, (∀ a ∈ start, S a) → (∀ a b, S a → t.Refers a b → S b) →
        ∀ b ∈ out, S b := by
  have hnext : ∀ a b, a ∈ t.paths → (Next t.targets a b ↔ t.Refers a b) := by
    intro a b ha
    obtain ⟨out, hout, hmem⟩ := Tree.targets_ok hone hwords ha
    simp [Next, hout, hmem]
  have hnode : ∀ a b, Next t.targets a b → a ∈ t.paths := by
    rintro a b ⟨out, hout, -⟩
    rw [Tree.targets] at hout
    split at hout
    · cases hout
    · next hprops =>
      obtain ⟨l, l', hl, -⟩ := lookup_eq_some_iff.mp hprops
      simp [Tree.paths, hl]
  have hsucc : ∀ a ∈ t.paths, ∃ out, t.targets a = .ok out ∧ out ⊆ t.paths := by
    intro a ha
    obtain ⟨out, hout, hmem⟩ := Tree.targets_ok hone hwords ha
    exact ⟨out, hout, fun b hb => Tree.refers_mem ha ((hmem b).mp hb)⟩
  obtain ⟨fuel, out, hout, hin, hclosed, hleast⟩ := @visit_ends _ _ _ _ .fuel _ _ hsucc
    fun a ha => hstart a (mem_reverse.mp ha)
  simp only [mem_reverse] at hin hleast
  have hnodes := hleast (· ∈ t.paths) hstart fun a b ha hb =>
    Tree.refers_mem ha ((hnext a b ha).mp hb)
  refine ⟨fuel, out, hout, hin, fun a ha b hb => ?_, fun S hS hstep => ?_⟩
  · exact hclosed a ha b ((hnext a b (hnodes a ha)).mpr hb)
  · refine hleast S hS fun a b ha hb => hstep a b ha ?_
    exact (hnext a b (hnode a b hb)).mp hb

/-- An engine behind a DART that asks for one argument word and refers back to
it.  Its `interrupt-parent` is a whole word or not. -/
def aneTree (whole : Bool) : Tree where
  nodes := [([], []),
    (["ane".toList], [("phandle".toList, [0, 0, 0, 1]), ("iommus".toList, [0, 0, 0, 2, 0, 0, 0, 9]),
      ("interrupt-parent".toList, if whole then [0, 0, 0, 7] else [0, 0, 1])]),
    (["dart".toList], [("phandle".toList, [0, 0, 0, 2]), ("#iommu-cells".toList, [0, 0, 0, 1]),
      ("memory-region".toList, [0, 0, 0, 1])])]
  distinct := by cases whole <;> decide
  parent := by cases whole <;> decide
  word := by cases whole <;> decide

theorem aneTree_oneCell (whole : Bool) : (aneTree whole).OneCell :=
  Tree.oneCell_of (by cases whole <;> decide)

theorem reached_exact_aneTree :
    ∃ fuel out, (∀ more, (aneTree true).reached (fuel + more) [["ane".toList]] = .ok out) ∧
      ["dart".toList] ∈ out ∧ [] ∈ out := by
  have hwords : ∀ props ∈ (aneTree true).nodes.map Prod.snd, ∀ prop ∈ plainProps ++
      refProps.map Prod.fst, (value props prop).length % 4 = 0 := by decide
  obtain ⟨fuel, out, hout, hin, hclosed, -⟩ := reached_exact (aneTree true)
    [["ane".toList]] (aneTree_oneCell true) (fun path prop hprop => by
      obtain hnil | hprops := (aneTree true).propsOf_cases path
      · rw [hnil]
        rfl
      · exact hwords _ hprops prop hprop) (by decide)
  have hane := hin _ mem_cons_self
  refine ⟨fuel, out, hout, hclosed _ hane _ ?_, hclosed _ hane _ (.parent (cons_ne_nil _ _) rfl)⟩
  exact .provider ("iommus".toList, "#iommu-cells".toList) (by decide) 2 .first (by decide)

/-- An `interrupt-parent` of three bytes. -/
theorem reached_ragged : (aneTree false).OneCell ∧ ["ane".toList] ∈ (aneTree false).paths ∧
      ∀ fuel, (aneTree false).reached (fuel + 1) [["ane".toList]] = .error .ragged :=
  ⟨aneTree_oneCell false, by decide, fun _ => rfl⟩

end OmarchyAne.Aurora
