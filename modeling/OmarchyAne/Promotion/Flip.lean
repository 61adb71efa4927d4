import OmarchyAne.Lib.Checks
import OmarchyAne.Lib.Comments
import OmarchyAne.Promotion.Check

/-!
# The flip of a chip (tools/promote_chip.py)

A flip moves a chip's overlay between opt-in and default-on.  `editDts` is the
rewrite of the overlay source `packaging/dt/CHIP-ane.dts`: it replaces the
line that states the overlay's state, and removes or restores the opt-in
marker.  A promotion writes its note into the state line, a revert writes
none.  `promoteChip` is what the tool does on a tree in which the chips `on`
are enabled.
-/

namespace OmarchyAne.Promotion

open Lib

inductive Dir where
  | defaultOn
  | optIn
  deriving DecidableEq

def Dir.text : Dir → Text
  | .defaultOn => "default-on".toList
  | .optIn => "opt-in".toList

/-- The chips that the tool knows. -/
def marketing : List Text :=
  ["t8103".toList, "t6000".toList, "t6001".toList, "t6002".toList,
    "t8112".toList, "t6020".toList, "t6021".toList, "t6022".toList]

/-! ## The overlay source -/

/-- The first line of the opt-in marker. -/
@[irreducible] def markerLine : Text :=
  "\t/* dtb-overlays.sh: applies only when opted in. */".toList

def marker (chip : Text) : Text :=
  markerLine ++ '\n' ::
    ("\tomarchy,opt-in = \"ane-".toList ++ (chip ++ "\";\n".toList))

def optInProperty (chip : Text) : Text :=
  "omarchy,opt-in = \"ane-".toList ++ (chip ++ "\"".toList)

def stateStart : Text := " * Overlay state:".toList

def stateOptIn (chip : Text) : Text :=
  " * Overlay state: opt-in (\"ane-".toList ++ (chip ++
    "\" in /etc/omarchy-mac-boot/dtb-overlays.opt-in).\n".toList)

/-- How the state line of a promotion begins. -/
@[irreducible] def onStart : Text := " * Overlay state: on by default".toList

/-- The state line of a promotion, with its note when it has one. -/
def stateOn : Option Text → Text
  | none => onStart ++ ".\n".toList
  | some note => onStart ++ (" (".toList ++ (note ++ ").\n".toList))

/-- Why the tool refuses to edit an overlay source. -/
inductive Refuse where
  | stateLines (found : Nat)
  | markerShape
  | noAnchor
  deriving DecidableEq

def stateLine (text : Text) : Except Refuse Text :=
  match (linesKeep text).filter stateStart.isPrefixOf with
  | [line] => .ok line
  | lines => .error (.stateLines lines.length)

/-- The property that names the compatible string of the node. -/
def skipIfCompatible : Rx :=
  .seqs [.lit "\tomarchy,skip-if-compatible = \"apple,".toList,
    .plus fun c => c.isLower || c.isDigit, .lit "-ane\";\n".toList]

/-- Write `new` behind the first line that the pattern matches. -/
def insertAfter (r : Rx) (new : Text) : Bool → Text → Option Text
  | _, [] => none
  | lineStart, c :: t =>
    match if lineStart then r.matchStart (c :: t) else none with
    | some found =>
      some ((c :: t).take ((c :: t).length - found.rest.length) ++ (new ++ found.rest))
    | none => (insertAfter r new (c = '\n') t).map (c :: ·)

def editDts (text chip : Text) (promote : Bool) (note : Option Text) :
    Except Refuse Text := do
  let line ← stateLine text
  if promote then
    if marker chip <:+: text then
      return replaceAll (marker chip) []
        (replaceAll line (stateOn (note.filter (· ≠ []))) text)
    else if optInProperty chip <:+: text then .error .markerShape
    else return text
  else if optInProperty chip <:+: text then return text
  else
    match insertAfter skipIfCompatible (marker chip) true text with
    | none => .error .noAnchor
    | some text => return replaceAll line (stateOptIn chip) text

/-! ## The tool -/

inductive Outcome where
  | nothing
  | refused
  | flipped
  deriving DecidableEq

/-- The tool on a tree in which the chips `on` are enabled.  `refuses` says
which flips the edits of the tree's files refuse. -/
def promoteChip (refuses : Text → Dir → Bool) (on : List Text) (chip : Text)
    (dir : Dir) : Outcome :=
  if chip ∉ marketing then .refused
  else if (dir = .optIn ∧ chip ∉ on) ∨ (dir = .defaultOn ∧ chip ∈ on) then
    .nothing
  else if refuses chip dir then .refused
  else .flipped

end OmarchyAne.Promotion
