import OmarchyAne.Lib.Checks
import OmarchyAne.Lib.Dict
import OmarchyAne.Lib.Json

/-!
# `qwen_fold_layout.py`: the manifest of a folded layout

A fold joins a DeltaNet state block to the program after it.  `build` walks the
programs of the folded layout in order, with a cursor in the control manifest.
Each layout program stands for one control program, or for a state block and
the program after it.  What does not fit is collected as a problem, and the
walk goes on.

A manifest entry of a layout program is rebuilt from its PORTMAP line and its
MIL signature by `entryFromRecord`.  The state inputs and the outputs on no
lane are paired greedily by shape.

* `pairStep_run` is the greedy loop, and `entryFromRecord_inOrder` says what a
  rebuilt entry pairs.
* `buildLoop_cover` is the run of the loop, and `build_cover` is the result for
  a layout without problems.
-/

namespace OmarchyAne.Qwen

open Lib List

/-! ## Manifest entries -/

/-- `CTX`. -/
def ctx : List Text := ["oh", "inv", "mask", "cosp", "sinp"].map String.toList

/-- `STATE_BLOCK_IN`. -/
def stateBlockIn : List Text := ["beta", "gt", "k", "q", "v"].map String.toList

abbrev Shape := List Nat

/-- The kind of a source or a destination. -/
inductive Kind where
  | stateIn
  | ctx
  | lane
  deriving DecidableEq, Repr

def Kind.text : Kind → Text
  | .stateIn => "state_in".toList
  | .ctx => "ctx".toList
  | .lane => "lane".toList

/-- A source or a destination of a program. -/
structure Row where
  port : Text
  kind : Kind
  lane : Text
  shape : Shape
  deriving DecidableEq, Repr

/-- A state input and the output that carries the state on. -/
structure StatePair where
  inPort : Text
  inShape : Shape
  outPort : Text
  outShape : Shape
  deriving DecidableEq, Repr

structure Entry where
  srcs : List Row
  dsts : List Row
  states : List StatePair
  groupStart : Bool
  groupEnd : Bool
  deriving DecidableEq, Repr

/-! ## Records -/

/-- A PORTMAP line: the lanes of the inputs, the names behind the other keys,
the state inputs and the lanes of the outputs. -/
structure PortMap where
  x : List (Text × Text)
  tables : List (Text × Text)
  states : List Text
  h : List (Text × Text)
  groupStart : Bool
  groupEnd : Bool

/-- The inputs and the outputs of a MIL main function. -/
structure Signature where
  args : List (Text × Shape)
  outs : List (Text × Shape)

/-- A MIL file: the hash in its name, and its signature if it has one. -/
structure Mil where
  hash : Text
  signature : Option Signature

/-- The exceptions of the builder. -/
inductive Error where
  | noSignature
  | noLane (name : Text)
  | noStateOutput (name : Text) (shape : Shape)
  | leftOver (count : Nat)
  | key (index : Nat)
  deriving DecidableEq, Repr

/-- `signature`. -/
def Mil.readSignature (mil : Mil) : Except Error Signature :=
  match mil.signature with
  | some sig => .ok sig
  | none => .error .noSignature

/-- `lane_of`: the lane of an input.  A context table goes before a lane. -/
def PortMap.laneOf (pm : PortMap) (name : Text) : Option Text :=
  kept (pm.x.map Prod.swap ++ ctx.filterMap fun key =>
    (pm.tables.lookup key).map fun name => (name, key)) name

/-- `out_lane`: the lane of an output. -/
def PortMap.outLane (pm : PortMap) (name : Text) : Option Text :=
  kept (pm.h.map Prod.swap) name

/-- One input of a program.  The loop also collects the state inputs. -/
def srcStep (pm : PortMap) (acc : List Row × List (Text × Shape))
    (arg : Text × Shape) : Except Error (List Row × List (Text × Shape)) :=
  if arg.1 ∈ pm.states then
    .ok (acc.1 ++ [{
        port := arg.1
        kind := .stateIn
        lane := "state".toList ++ Nat.toDigits 10 acc.2.length
        shape := arg.2 }],
      acc.2 ++ [arg])
  else match pm.laneOf arg.1 with
    | some lane =>
      .ok (acc.1 ++ [{
          port := arg.1
          kind := if lane ∈ ctx then .ctx else .lane
          lane := lane
          shape := arg.2 }],
        acc.2)
    | none => .error (.noLane arg.1)

/-- The destinations: the outputs on a lane. -/
def PortMap.dsts (pm : PortMap) (outs : List (Text × Shape)) : List Row :=
  outs.filterMap fun out => (pm.outLane out.1).map fun lane =>
    { port := out.1, kind := .lane, lane := lane, shape := out.2 }

/-- The outputs on no lane. -/
def PortMap.stateOuts (pm : PortMap) (outs : List (Text × Shape)) :
    List (Text × Shape) :=
  outs.filter fun out => (pm.outLane out.1).isNone

/-- One state input takes the first output of its shape that is not taken. -/
def pairStep (stateOuts : List (Text × Shape))
    (acc : List Nat × List StatePair) (input : Text × Shape) :
    Except Error (List Nat × List StatePair) :=
  match stateOuts.zipIdx.find? fun out =>
      out.1.2 = input.2 ∧ out.2 ∉ acc.1 with
  | some out => .ok (acc.1 ++ [out.2], acc.2 ++ [{
      inPort := input.1
      inShape := input.2
      outPort := out.1.1
      outShape := out.1.2 }])
  | none => .error (.noStateOutput input.1 input.2)

/-- The loop over the state inputs. -/
def pairStates (statesIn stateOuts : List (Text × Shape)) :
    Except Error (List Nat × List StatePair) :=
  statesIn.foldlM (pairStep stateOuts) ([], [])

/-- `entry_from_record`. -/
def entryFromRecord (pm : PortMap) (mil : Mil) : Except Error Entry := do
  let sig ← mil.readSignature
  let srcs ← sig.args.foldlM (srcStep pm) ([], [])
  let stateOuts := pm.stateOuts sig.outs
  let states ← pairStates srcs.2 stateOuts
  stopIf (states.1.length ≠ stateOuts.length)
    (Error.leftOver (stateOuts.length - states.1.length))
  return {
    srcs := srcs.1
    dsts := pm.dsts sig.outs
    states := states.2
    groupStart := pm.groupStart
    groupEnd := pm.groupEnd }

/-! ## Comparing entries -/

def shapeJson (shape : Shape) : Json := .arr (shape.map fun d => .int d)

/-- The row without the lane. -/
def Row.bare (row : Row) : List (Text × Json) :=
  [("port".toList, .str row.port), ("kind".toList, .str row.kind.text),
    ("shape".toList, shapeJson row.shape)]

def Row.full (row : Row) : List (Text × Json) :=
  row.bare ++ [("lane".toList, .str row.lane)]

/-- A source in the order-free form.  The lane of a state input only counts its
place, so it is left out. -/
def srcJson (row : Row) : Json :=
  .obj (if row.kind = .stateIn then row.bare else row.full)

def StatePair.json (pair : StatePair) : Json :=
  .obj [("in_port".toList, .str pair.inPort), ("in_shape".toList, shapeJson pair.inShape),
    ("out_port".toList, .str pair.outPort),
    ("out_shape".toList, shapeJson pair.outShape)]

/-- `norm`. -/
def norm (entry : Entry) : Text :=
  (Json.obj [("srcs".toList, .arr ((sortBy Row.port entry.srcs).map srcJson)),
    ("dsts".toList, .arr ((sortBy Row.port entry.dsts).map fun row =>
      .obj row.full)),
    ("states".toList, .arr ((sortBy StatePair.inPort entry.states).map StatePair.json)),
    ("group_start".toList, .bool entry.groupStart),
    ("group_end".toList, .bool entry.groupEnd)]).sortKeys.render

/-- The lanes among the sources. -/
def Entry.laneRows (entry : Entry) : List Row :=
  entry.srcs.filter fun row => row.kind = .lane

/-- `is_state_block`. -/
def isStateBlock (entry : Entry) : Bool :=
  sortBy (fun lane => lane) (entry.laneRows.map Row.lane) =
      sortBy (fun lane => lane) stateBlockIn &&
    entry.dsts.map Row.lane = ["o".toList]

/-! ## Building -/

/-- The PORTMAP lines and the MIL files of a layout, by program. -/
structure Record where
  maps : List (Nat × PortMap)
  mils : List (Nat × Mil)

/-- A program with its PORTMAP line and its MIL file. -/
abbrev Compiled := PortMap × Mil

/-- What the builder complains about. -/
inductive Problem where
  | notCovered
  | crosses (i : Nat)
  | outputLane (i : Nat) (lane : Text) (got : Option Shape) (control : Nat)
      (shape : Shape)
  | inputLane (i : Nat) (lane : Text) (control : Nat)
  | blockLane (i : Nat) (lane : Text) (control : Nat)
  | stateCount (i states control want : Nat)
  | notChain (i control : Nat) (text : Text)
  | noControl (i : Nat)
  | mil (i : Nat) (hash : Text) (control : Nat) (want : Text)
  | entry (i control : Nat)
  | consumed (cursor control : Nat)
  deriving DecidableEq, Repr

/-- The manifest: the control's other members stay as they are. -/
structure Manifest where
  programs : List Entry
  nPrograms : Nat
  foldMapping : List (List Nat)
  equivChecked : Bool

/-- The variables of the loop in `build`. -/
structure Walk where
  programs : List Entry
  mapping : List (List Nat)
  cursor : Nat
  problems : List Problem

/-- The result of `build`. -/
structure Built where
  manifest : Option Manifest
  mapping : Option (List (List Nat))
  problems : List Problem

/-- A lookup that raises. -/
def get {α : Type} (items : List (Nat × α)) (i : Nat) : Except Error α :=
  match kept items i with
  | some a => .ok a
  | none => .error (.key i)

/-- An index into the control programs. -/
def program (control : List Entry) (i : Nat) : Except Error Entry :=
  match control[i]? with
  | some entry => .ok entry
  | none => .error (.key i)

/-- The sources of an entry name the lane. -/
def Entry.takes (entry : Entry) (lane : Text) : Bool :=
  lane ∈ entry.srcs.map Row.lane

/-- The lane and the shape of each row, as the items of a dictionary. -/
def shapeItems (rows : List Row) : List (Text × Shape) :=
  rows.map fun row => (row.lane, row.shape)

/-- The port checks of a folded program. -/
def foldProblems (i cursor : Nat) (entry first second : Entry) :
    List Problem :=
  (if entry.takes "o".toList then [.crosses i] else []) ++
  ((keys (shapeItems second.dsts)).filterMap fun lane =>
    let got := kept (shapeItems entry.dsts) lane
    match kept (shapeItems second.dsts) lane with
    | some shape =>
      if got = some shape then none
      else some (.outputLane i lane got (cursor + 1) shape)
    | none => none) ++
  ((keys (shapeItems (second.laneRows.filter fun row =>
      row.lane ≠ "o".toList))).filterMap fun lane =>
    if entry.takes lane then none
    else some (.inputLane i lane (cursor + 1))) ++
  (first.laneRows.filterMap fun row =>
    if entry.takes row.lane then none
    else some (.blockLane i row.lane cursor)) ++
  (if entry.states.length = first.states.length + second.states.length then []
    else [.stateCount i entry.states.length cursor (first.states.length + second.states.length)])

/-- The chain check of a folded program. -/
def chainProblems (i cursor : Nat) (equivalent : Bool × Text) : List Problem :=
  if equivalent.1 then [] else [.notChain i cursor equivalent.2]

/-- The checks of a program that is not folded. -/
def keepProblems (i cursor : Nat) (hash want : Text) (entry first : Entry) :
    List Problem :=
  (if hash = want then [] else [.mil i hash cursor want]) ++
    if norm entry = norm first then [] else [.entry i cursor]

section Build

variable
  (chainEquivalent : Compiled → Compiled → Compiled → Except Error (Bool × Text))
  (control : List Entry) (recControl recLayout : Record) (equiv : Bool)

/-- The chain check of a folded program, unless it is switched off. -/
def chainCheck (i cursor : Nat) (fused first second : Compiled) :
    Except Error (List Problem) :=
  if equiv then
    (chainEquivalent fused first second).map (chainProblems i cursor)
  else .ok []

/-- One layout program that stands for a state block and the next program. -/
def foldStep (i : Nat) (lmap : PortMap) (lmil cmil : Mil) (first : Entry)
    (s : Walk) : Except Error Walk := do
  let entry ← entryFromRecord lmap lmil
  let second ← program control (s.cursor + 1)
  let cmap ← get recControl.maps s.cursor
  let cmap' ← get recControl.maps (s.cursor + 1)
  let cmil' ← get recControl.mils (s.cursor + 1)
  let chained ← chainCheck chainEquivalent equiv i s.cursor (lmap, lmil)
    (cmap, cmil) (cmap', cmil')
  return {
    programs := s.programs ++ [entry]
    mapping := s.mapping ++ [[s.cursor, s.cursor + 1]]
    cursor := s.cursor + 2
    problems := s.problems ++
      (foldProblems i s.cursor entry first second ++ chained) }

/-- One layout program that stands for one control program. -/
def keepStep (i : Nat) (lmap : PortMap) (lmil cmil : Mil) (first : Entry)
    (s : Walk) : Except Error Walk := do
  let entry ← entryFromRecord lmap lmil
  return {
    programs := s.programs ++ [first]
    mapping := s.mapping ++ [[s.cursor]]
    cursor := s.cursor + 1
    problems := s.problems ++
      keepProblems i s.cursor lmil.hash cmil.hash entry first }

/-- The layout program stands for two control programs. -/
def folds (s : Walk) (lmil cmil : Mil) (first : Entry) : Bool :=
  isStateBlock first && s.cursor + 1 < control.length && lmil.hash ≠ cmil.hash

/-- One layout program. -/
def walkStep (i : Nat) (lmap : PortMap) (lmil cmil : Mil) (first : Entry)
    (s : Walk) : Except Error Walk :=
  if folds control s lmil cmil first then
    foldStep chainEquivalent control recControl equiv i lmap lmil cmil first s
  else keepStep i lmap lmil cmil first s

/-- The loop of `build` over the layout programs in order.  It stops early when
the control programs run out. -/
def buildLoop : List Nat → Walk → Except Error Walk
  | [], s => .ok s
  | i :: is, s =>
    if s.cursor < control.length then do
      let lmap ← get recLayout.maps i
      let lmil ← get recLayout.mils i
      let cmil ← get recControl.mils s.cursor
      let first ← program control s.cursor
      let s' ← walkStep chainEquivalent control recControl equiv i lmap lmil
        cmil first s
      buildLoop is s'
    else .ok { s with problems := s.problems ++ [.noControl i] }

/-- The control record has a PORTMAP line and a MIL file for each program. -/
def covered : Bool :=
  sortBy (fun i => i) (keys recControl.maps) = List.range control.length &&
    sortBy (fun i => i) (keys recControl.mils) = List.range control.length

/-- `build`. -/
def build : Except Error Built :=
  if covered control recControl then do
    let s ← buildLoop chainEquivalent control recControl recLayout equiv
      (sortBy (fun i => i) (keys recLayout.maps)) ⟨[], [], 0, []⟩
    return {
      manifest := some {
        programs := s.programs
        nPrograms := s.programs.length
        foldMapping := s.mapping
        equivChecked := equiv }
      mapping := some s.mapping
      problems := s.problems ++
        if s.cursor = control.length then []
        else [.consumed s.cursor control.length] }
  else .ok { manifest := none, mapping := none, problems := [.notCovered] }

end Build

/-! ## The pairing of the states -/

/-- The outputs that are not taken, in order. -/
def remaining (stateOuts : List (Text × Shape)) (taken : List Nat) :
    List ((Text × Shape) × Nat) :=
  stateOuts.zipIdx.filter fun out => out.2 ∉ taken

/-- The names of the items of one shape. -/
def ofShape (shape : Shape) (items : List (Text × Shape)) : List Text :=
  (items.filter fun item => item.2 = shape).map Prod.fst

/-- An output that is taken was the first of its shape, and the others stay in
order. -/
theorem remaining_take {stateOuts : List (Text × Shape)} {taken : List Nat}
    {shape : Shape} {out : (Text × Shape) × Nat}
    (h : (stateOuts.zipIdx.find? fun out =>
      out.1.2 = shape ∧ out.2 ∉ taken) = some out) :
    ∃ before after, remaining stateOuts taken = before ++ out :: after ∧
      remaining stateOuts (taken ++ [out.2]) = before ++ after ∧
      out.1.2 = shape ∧ ∀ other ∈ before, other.1.2 ≠ shape := by
  obtain ⟨hout, as, bs, hsplit, hbefore⟩ := find?_eq_some_iff_append.mp h
  have hout := of_decide_eq_true hout
  have hnodup : (stateOuts.zipIdx.map Prod.snd).Nodup := by
    rw [zipIdx_map_snd]
    exact nodup_range'
  rw [hsplit, map_append, map_cons, nodup_append, nodup_cons] at hnodup
  obtain ⟨-, ⟨hafter, -⟩, hcross⟩ := hnodup
  -- The indices are different, so only `out` itself goes.
  have has : ∀ a ∈ as, a.2 ≠ out.2 := fun a ha heq =>
    hcross a.2 (mem_map_of_mem ha) out.2 mem_cons_self heq
  have hbs : ∀ b ∈ bs, b.2 ≠ out.2 := fun b hb heq =>
    hafter (heq ▸ mem_map_of_mem hb)
  have hkeep : ∀ l : List ((Text × Shape) × Nat), (∀ a ∈ l, a.2 ≠ out.2) →
      (l.filter fun a => a.2 ∉ taken ++ [out.2]) =
        l.filter fun a => a.2 ∉ taken := by
    intro l hl
    refine filter_congr fun a ha => ?_
    simp [hl a ha]
  refine ⟨as.filter fun a => a.2 ∉ taken, bs.filter fun b => b.2 ∉ taken,
    ?_, ?_, hout.1, fun other hother => ?_⟩
  · rw [remaining, hsplit, filter_append,
      filter_cons_of_pos (by simpa using hout.2)]
  · rw [remaining, hsplit, filter_append,
      filter_cons_of_neg (by simp), hkeep as has, hkeep bs hbs]
  · intro hshape
    have hnot := hbefore other (mem_of_mem_filter hother)
    have hfree := of_decide_eq_true (mem_filter.mp hother).2
    simp only [hshape, hfree, not_false_eq_true, and_self, decide_true,
      Bool.not_true, Bool.false_eq_true] at hnot

/-- What the loop over the state inputs has done to the outputs. -/
structure Paired (stateOuts : List (Text × Shape)) (taken taken' : List Nat)
    (inputs : List (Text × Shape)) (pairs : List StatePair) : Prop where
  names : pairs.map (fun p => (p.inPort, p.inShape)) = inputs
  shapes : ∀ p ∈ pairs, p.outShape = p.inShape
  outputs : ∀ shape, ofShape shape ((remaining stateOuts taken).map Prod.fst) =
    ofShape shape (pairs.map fun p => (p.outPort, p.inShape)) ++
      ofShape shape ((remaining stateOuts taken').map Prod.fst)
  count : taken'.length = taken.length + inputs.length
  left : (remaining stateOuts taken).length =
    inputs.length + (remaining stateOuts taken').length

theorem ofShape_append (shape : Shape) (a b : List (Text × Shape)) :
    ofShape shape (a ++ b) = ofShape shape a ++ ofShape shape b := by
  simp [ofShape]

theorem ofShape_cons (shape : Shape) (a : Text × Shape) (b : List (Text × Shape)) :
    ofShape shape (a :: b) = ofShape shape [a] ++ ofShape shape b :=
  ofShape_append shape [a] b

/-- The loop over the state inputs. -/
theorem pairStep_run (stateOuts : List (Text × Shape)) :
    ∀ {inputs : List (Text × Shape)} {taken taken' : List Nat} {states states' : List StatePair},
      inputs.foldlM (pairStep stateOuts) (taken, states) = .ok (taken', states') →
      ∃ pairs, states' = states ++ pairs ∧ Paired stateOuts taken taken' inputs pairs := by
  intro inputs
  induction inputs with
  | nil =>
    intro taken taken' states states' h
    rw [foldlM_nil, pure_eq_ok, Prod.mk.injEq] at h
    obtain ⟨rfl, rfl⟩ := h
    exact ⟨[], (append_nil _).symm, rfl, nofun, fun _ => rfl, rfl, (Nat.zero_add _).symm⟩
  | cons input inputs ih =>
    intro taken taken' states states' h
    rw [foldlM_cons, bind_eq_ok] at h
    obtain ⟨⟨taken₁, states₁⟩, hstep, hrest⟩ := h
    unfold pairStep at hstep
    split at hstep
    · next out hfind =>
      cases hstep
      obtain ⟨pairs, rfl, hpairs⟩ := ih hrest
      obtain ⟨before, after, hrem, hrem', hshape, hbefore⟩ := remaining_take hfind
      refine ⟨⟨input.1, input.2, out.1.1, out.1.2⟩ :: pairs,
        append_assoc .., ?_, ?_, fun shape => ?_, ?_, ?_⟩
      · rw [map_cons, hpairs.names]
      · exact forall_mem_cons.mpr ⟨hshape, hpairs.shapes⟩
      · have hout := hpairs.outputs shape
        rw [hrem', map_append, ofShape_append] at hout
        rw [hrem, map_append, map_cons, ofShape_append,
          ofShape_cons _ out.1, map_cons, ofShape_cons _ (out.1.1, input.2),
          append_assoc, ← hout]
        by_cases hs : shape = input.2
        · have hnone : ofShape shape (before.map Prod.fst) = [] := by
            rw [ofShape, map_eq_nil_iff, filter_eq_nil_iff]
            intro item hitem
            obtain ⟨other, hother, rfl⟩ := mem_map.mp hitem
            rw [hs]
            exact fun h => hbefore other hother (of_decide_eq_true h)
          rw [hnone, nil_append, nil_append, hs]
          simp [ofShape, hshape]
        · have hskip : ∀ name, ofShape shape [(name, input.2)] = [] := by
            intro name
            simp [ofShape, Ne.symm hs]
          have hskip' : ofShape shape [out.1] = [] := by
            simp [ofShape, hshape, Ne.symm hs]
          rw [hskip, hskip', nil_append, nil_append]
      · have hcount := hpairs.count
        simp only [length_append, length_singleton] at hcount
        rw [hcount, length_cons]
        omega
      · have hleft := hpairs.left
        rw [hrem', length_append] at hleft
        rw [hrem, length_append, length_cons, length_cons]
        omega
    · cases hstep

theorem srcStep_run (pm : PortMap) :
    ∀ {args : List (Text × Shape)} {acc acc' : List Row × List (Text × Shape)},
      args.foldlM (srcStep pm) acc = .ok acc' →
      acc'.2 = acc.2 ++ args.filter fun arg => arg.1 ∈ pm.states := by
  intro args
  induction args with
  | nil =>
    intro acc acc' h
    rw [foldlM_nil, pure_eq_ok] at h
    rw [← h]
    simp
  | cons arg args ih =>
    intro acc acc' h
    rw [foldlM_cons, bind_eq_ok] at h
    obtain ⟨acc₁, hstep, hrest⟩ := h
    rw [ih hrest]
    unfold srcStep at hstep
    split at hstep
    · next hstate =>
      rw [← Except.ok.inj hstep, filter_cons_of_pos (by simpa using hstate)]
      simp
    · next hstate =>
      rw [filter_cons_of_neg (by simpa using hstate)]
      split at hstep
      · rw [← Except.ok.inj hstep]
      · cases hstep

/-- The states of one shape in an entry. -/
def Entry.pairsOf (entry : Entry) (shape : Shape) : List StatePair :=
  entry.states.filter fun pair => pair.inShape = shape

/-- The `k`-th state input of each shape is paired with the `k`-th output of
that shape on no lane. -/
structure InOrder (pm : PortMap) (sig : Signature) (entry : Entry) :
    Prop where
  inputs : ∀ shape, (entry.pairsOf shape).map StatePair.inPort =
    ofShape shape (sig.args.filter fun arg => arg.1 ∈ pm.states)
  outputs : ∀ shape, (entry.pairsOf shape).map StatePair.outPort =
    ofShape shape (pm.stateOuts sig.outs)
  shapes : ∀ pair ∈ entry.states, pair.outShape = pair.inShape

theorem ofShape_pairs (shape : Shape) (pairs : List StatePair) (port : StatePair → Text) :
    ofShape shape (pairs.map fun p => (port p, p.inShape)) =
      (pairs.filter fun p => p.inShape = shape).map port := by
  rw [ofShape, filter_map, map_map]
  rfl

/-- A rebuilt entry pairs its states in order. -/
theorem entryFromRecord_inOrder {pm : PortMap} {mil : Mil} {entry : Entry}
    (h : entryFromRecord pm mil = .ok entry) :
    ∃ sig, mil.signature = some sig ∧ InOrder pm sig entry := by
  unfold entryFromRecord at h
  simp only [bind_eq_ok, pure_eq_ok, stopIf_eq_ok] at h
  obtain ⟨sig, hsig, srcs, hsrcs, ⟨taken, states⟩, hstates, -, hcount, rfl⟩ := h
  have hsig : mil.signature = some sig := by
    unfold Mil.readSignature at hsig
    cases hm : mil.signature with
    | none => rw [hm] at hsig; cases hsig
    | some sig' => rw [hm] at hsig; rw [Except.ok.inj hsig]
  obtain ⟨pairs, rfl, hpairs⟩ := pairStep_run _ hstates
  have hin := srcStep_run pm hsrcs
  have hall : remaining (pm.stateOuts sig.outs) [] = (pm.stateOuts sig.outs).zipIdx := by
    simp [remaining]
  -- Every output is taken, so nothing is left for a later pair.
  have hnone : remaining (pm.stateOuts sig.outs) taken = [] := by
    have htaken : taken.length = (pm.stateOuts sig.outs).length := not_not.mp hcount
    have hleft := hpairs.left
    have hlen := hpairs.count
    rw [hall, length_zipIdx] at hleft
    rw [length_nil, Nat.zero_add] at hlen
    exact eq_nil_of_length_eq_zero (by omega)
  refine ⟨sig, hsig, fun shape => ?_, fun shape => ?_, hpairs.shapes⟩
  · show (states.filter fun pair => pair.inShape = shape).map _ = _
    rw [← ofShape_pairs, hpairs.names, hin]
    rfl
  · have hout := hpairs.outputs shape
    rw [hall, hnone, zipIdx_map_fst] at hout
    show (states.filter fun pair => pair.inShape = shape).map _ = _
    rw [← ofShape_pairs, hout]
    exact (append_nil _).symm

/-! ## The cover -/

section Cover

variable {chainEquivalent : Compiled → Compiled → Compiled → Except Error (Bool × Text)}
  {control : List Entry} {recControl recLayout : Record} {equiv : Bool} {i : Nat}
  {entry first : Entry} {lmap : PortMap} {lmil cmil : Mil} {s s' : Walk}

/-- The entry that the record of a layout program gives, with its states in
order. -/
def Rebuilt (recLayout : Record) (i : Nat) (mil : Mil) (entry : Entry) :
    Prop :=
  ∃ pm sig, kept recLayout.maps i = some pm ∧
    kept recLayout.mils i = some mil ∧ mil.signature = some sig ∧
    entryFromRecord pm mil = .ok entry ∧ InOrder pm sig entry

/-- The layout program `i` stands for the listed control programs, and the
manifest holds `prog` for it. -/
inductive Stands (control : List Entry) (recControl recLayout : Record)
    (i : Nat) : List Nat → Entry → Prop where
  | one {c : Nat} {mil cmil : Mil} {entry first : Entry}
      (rebuilt : Rebuilt recLayout i mil entry)
      (program : control[c]? = some first)
      (file : kept recControl.mils c = some cmil)
      (hash : mil.hash = cmil.hash) (same : norm entry = norm first) :
      Stands control recControl recLayout i [c] first
  | two {c : Nat} {mil : Mil} {entry first : Entry}
      (rebuilt : Rebuilt recLayout i mil entry)
      (program : control[c]? = some first)
      (block : isStateBlock first = true) :
      Stands control recControl recLayout i [c, c + 1] entry

theorem get_eq_ok {α : Type} {items : List (Nat × α)} {a : α}
    (h : get items i = .ok a) : kept items i = some a := by
  unfold get at h
  split at h
  · next a' ha => rw [ha, Except.ok.inj h]
  · cases h

theorem program_eq_ok (h : program control i = .ok entry) : control[i]? = some entry := by
  unfold program at h
  split at h
  · next e he => rw [he, Except.ok.inj h]
  · cases h

/-- What one layout program adds to the walk.  The parts so far count the
control programs up to the cursor. -/
structure Adds (control : List Entry) (recControl recLayout : Record) (i : Nat)
    (s s' : Walk) (cover : List Nat) (prog : Entry) : Prop where
  mapping : s'.mapping = s.mapping ++ [cover]
  programs : s'.programs = s.programs ++ [prog]
  range : s.mapping.flatten = List.range s.cursor →
    s'.mapping.flatten = List.range s'.cursor
  problems : ∃ more, s'.problems = s.problems ++ more ∧
    (more = [] → Stands control recControl recLayout i cover prog)

theorem foldStep_adds (hmap : kept recLayout.maps i = some lmap)
    (hmil : kept recLayout.mils i = some lmil)
    (hfirst : control[s.cursor]? = some first)
    (hblock : isStateBlock first = true)
    (h : foldStep chainEquivalent control recControl equiv i lmap lmil cmil first s = .ok s') :
    ∃ cover prog, Adds control recControl recLayout i s s' cover prog := by
  unfold foldStep at h
  simp only [bind_eq_ok, pure_eq_ok] at h
  obtain ⟨entry, hentry, second, -, cmap, -, cmap', -, cmil', -, chained, -, rfl⟩ := h
  obtain ⟨sig, hsig, horder⟩ := entryFromRecord_inOrder hentry
  refine ⟨[s.cursor, s.cursor + 1], entry, rfl, rfl, fun hrange => ?_, _, rfl, fun _ => ?_⟩
  · show (s.mapping ++ [[s.cursor, s.cursor + 1]]).flatten =
      List.range (s.cursor + 2)
    rw [flatten_append, hrange, range_succ, range_succ]
    simp
  · exact .two ⟨lmap, sig, hmap, hmil, hsig, hentry, horder⟩ hfirst hblock

theorem keepProblems_eq_nil {cursor : Nat} {hash want : Text}
    (h : keepProblems i cursor hash want entry first = []) :
    hash = want ∧ norm entry = norm first := by
  obtain ⟨hmil, hentry⟩ := append_eq_nil_iff.mp h
  constructor
  · by_contra hne
    rw [if_neg hne] at hmil
    exact absurd hmil (cons_ne_nil _ _)
  · by_contra hne
    rw [if_neg hne] at hentry
    exact absurd hentry (cons_ne_nil _ _)

theorem keepStep_adds (hmap : kept recLayout.maps i = some lmap)
    (hmil : kept recLayout.mils i = some lmil)
    (hcmil : kept recControl.mils s.cursor = some cmil)
    (hfirst : control[s.cursor]? = some first)
    (h : keepStep i lmap lmil cmil first s = .ok s') :
    ∃ cover prog, Adds control recControl recLayout i s s' cover prog := by
  unfold keepStep at h
  simp only [bind_eq_ok, pure_eq_ok] at h
  obtain ⟨entry, hentry, rfl⟩ := h
  obtain ⟨sig, hsig, horder⟩ := entryFromRecord_inOrder hentry
  refine ⟨[s.cursor], first, rfl, rfl, fun hrange => ?_, _, rfl, fun hnone => ?_⟩
  · show (s.mapping ++ [[s.cursor]]).flatten = List.range (s.cursor + 1)
    rw [flatten_append, hrange, range_succ]
    simp
  · obtain ⟨hhash, hnorm⟩ := keepProblems_eq_nil hnone
    exact .one ⟨lmap, sig, hmap, hmil, hsig, hentry, horder⟩ hfirst hcmil hhash hnorm

/-- The run of the loop.  The parts count the control programs up to the
cursor, and without a problem each of them stands as it should. -/
theorem buildLoop_cover : ∀ {is : List Nat} {s s' : Walk},
      buildLoop chainEquivalent control recControl recLayout equiv is s = .ok s' →
      s.mapping.flatten = List.range s.cursor →
      s'.mapping.flatten = List.range s'.cursor ∧
      ∃ more, s'.problems = s.problems ++ more ∧ (more = [] →
        ∃ parts : List (Nat × List Nat × Entry), parts.map Prod.fst = is ∧
          s'.mapping = s.mapping ++ parts.map (fun part => part.2.1) ∧
          s'.programs = s.programs ++ parts.map (fun part => part.2.2) ∧
          ∀ part ∈ parts, Stands control recControl recLayout part.1 part.2.1 part.2.2) := by
  intro is
  induction is with
  | nil =>
    intro s s' h hrange
    cases h
    exact ⟨hrange, [], (append_nil _).symm, fun _ =>
      ⟨[], rfl, (append_nil _).symm, (append_nil _).symm, nofun⟩⟩
  | cons i is ih =>
    intro s s' h hrange
    unfold buildLoop at h
    split at h
    · simp only [bind_eq_ok] at h
      obtain ⟨lmap, hlmap, lmil, hlmil, cmil, hcmil, first, hfirst, s₁, hstep, hrest⟩ := h
      have hmap := get_eq_ok hlmap
      have hmil := get_eq_ok hlmil
      have hprog := program_eq_ok hfirst
      have hadds : ∃ cover prog, Adds control recControl recLayout i s s₁ cover prog := by
        unfold walkStep at hstep
        split at hstep
        · next hfold =>
          simp only [folds, Bool.and_eq_true] at hfold
          exact foldStep_adds hmap hmil hprog hfold.1.1 hstep
        · exact keepStep_adds hmap hmil (get_eq_ok hcmil) hprog hstep
      obtain ⟨cover, prog, hmapping, hprograms, hrange₁, more, hmore, hstands⟩ := hadds
      obtain ⟨hrange', more', hmore', hparts⟩ := ih hrest (hrange₁ hrange)
      refine ⟨hrange', more ++ more', ?_, fun hnone => ?_⟩
      · rw [hmore', hmore, append_assoc]
      · rw [append_eq_nil_iff] at hnone
        obtain ⟨parts, hkeys, hmaps, hprogs, hall⟩ := hparts hnone.2
        refine ⟨(i, cover, prog) :: parts, ?_, ?_, ?_, forall_mem_cons.mpr ⟨hstands hnone.1, hall⟩⟩
        · rw [map_cons, hkeys]
        · rw [hmaps, hmapping, append_assoc]
          rfl
        · rw [hprogs, hprograms, append_assoc]
          rfl
    · cases h
      exact ⟨hrange, [.noControl i], rfl, fun hnone => absurd hnone (cons_ne_nil _ _)⟩

/-- A layout without problems is an exact cover of the control.  The mapping
lists concatenate to the control indices in order.  Each layout program stands
for one control program with the same MIL hash and the same order-free entry,
or for a state block and the program after it.  In each rebuilt entry the
`k`-th state input of a shape is paired with the `k`-th state output of that
shape. -/
theorem build_cover {built : Built}
    (h : build chainEquivalent control recControl recLayout equiv = .ok built)
    (hproblems : built.problems = []) :
    ∃ (manifest : Manifest) (parts : List (Nat × List Nat × Entry)),
      built.manifest = some manifest ∧
      built.mapping = some (parts.map fun part => part.2.1) ∧
      manifest.foldMapping = parts.map (fun part => part.2.1) ∧
      manifest.programs = parts.map (fun part => part.2.2) ∧
      parts.map Prod.fst = sortBy (fun i => i) (keys recLayout.maps) ∧
      (parts.map fun part => part.2.1).flatten = List.range control.length ∧
      ∀ part ∈ parts, Stands control recControl recLayout part.1 part.2.1 part.2.2 := by
  unfold build at h
  split at h
  · simp only [bind_eq_ok, pure_eq_ok] at h
    obtain ⟨s, hloop, rfl⟩ := h
    obtain ⟨hnone, hend⟩ := append_eq_nil_iff.mp hproblems
    obtain ⟨hrange, more, hmore, hparts⟩ := buildLoop_cover hloop rfl
    rw [hnone] at hmore
    obtain ⟨parts, hkeys, hmaps, hprogs, hall⟩ :=
      hparts (append_eq_nil_iff.mp hmore.symm).2
    have hcursor : s.cursor = control.length := by
      by_contra hne
      rw [if_neg hne] at hend
      exact absurd hend (cons_ne_nil _ _)
    rw [hcursor, hmaps] at hrange
    exact ⟨_, parts, rfl, congrArg some hmaps, hmaps, hprogs, hkeys, hrange, hall⟩
  · cases h
    exact absurd hproblems (cons_ne_nil _ _)

end Cover

/-- A row on a lane whose port has the lane's name. -/
def laneRow (lane : Text) : Row :=
  { port := lane, kind := .lane, lane := lane, shape := [1] }

/-- A state block with one state. -/
def blockEntry : Entry where
  srcs := stateBlockIn.map laneRow ++
    [{ port := ['s'], kind := .stateIn, lane := "state0".toList, shape := [2] }]
  dsts := [laneRow ['o']]
  states := [⟨['s'], [2], ['t'], [2]⟩]
  groupStart := false
  groupEnd := false

/-- The program after it. -/
def nextEntry : Entry where
  srcs := [laneRow ['o']]
  dsts := [laneRow ['y']]
  states := []
  groupStart := false
  groupEnd := false

/-- The control record: its signatures are not read when the pair folds. -/
def pairRecord : Record where
  maps := [(0, ⟨[], [], [], [], false, false⟩), (1, ⟨[], [], [], [], false, false⟩)]
  mils := [(0, ⟨['a'], none⟩), (1, ⟨['b'], none⟩)]

/-- The record of the one program that the pair folds to. -/
def foldRecord : Record where
  maps := [(0, {
    x := stateBlockIn.map fun lane => (lane, lane)
    tables := []
    states := [['s']]
    h := [(['y'], ['y'])]
    groupStart := false
    groupEnd := false })]
  mils := [(0, {
    hash := ['c']
    signature := some {
      args := stateBlockIn.map (fun lane => (lane, [1])) ++ [(['s'], [2])]
      outs := [(['y'], [1]), (['t'], [2])] } })]

/-- A control pair that folds to one program, and the build finds nothing to
complain about. -/
theorem build_cover_pair : ∃ built, build (fun _ _ _ => .ok (true, [])) [blockEntry, nextEntry]
        pairRecord foldRecord true = .ok built ∧
      built.problems = [] ∧
      ∃ parts : List (Nat × List Nat × Entry),
        built.mapping = some (parts.map fun part => part.2.1) ∧
        (parts.map fun part => part.2.1).flatten = List.range 2 := by
  have hbuild : (build (fun _ _ _ => .ok (true, [])) [blockEntry, nextEntry]
      pairRecord foldRecord true).map Built.problems = .ok [] := by
    decide +kernel
  cases hrun : build (fun _ _ _ => .ok (true, [])) [blockEntry, nextEntry]
      pairRecord foldRecord true with
  | error e =>
    rw [hrun] at hbuild
    cases hbuild
  | ok built =>
    rw [hrun] at hbuild
    have hproblems : built.problems = [] := Except.ok.inj hbuild
    obtain ⟨manifest, parts, -, hmapping, -, -, -, hrange, -⟩ :=
      build_cover hrun hproblems
    exact ⟨built, rfl, hproblems, parts, hmapping, hrange⟩

end OmarchyAne.Qwen
