import OmarchyAne.Lib.Edit
import OmarchyAne.Lib.PyRepr
import OmarchyAne.Promotion.Flip

/-!
# The lists that a flip rewrites (tools/promote_chip.py)

A flip rewrites four lists: the row and the header of `packaging/dt/overlays`
(`editOverlays`), the case arms of `packaging/omarchy-ane-check` (`editCheck`),
`DEFAULT_ON` of `packaging/omarchy-ane-firmware-fetch` (`editFirmwareFetch`)
and the enumeration in the docstring of `packaging/omarchy-ane-dt`
(`editDtDocstring`).  Each edit searches its place with a regular expression
and writes the new list there.  A pattern is a function that gives the groups
of a match at the start of a text and what follows them; no pattern below has
more than one way to match at one place.

`flipTree` is the tool on the four files.  The other files that it edits can
refuse a flip, which is a parameter.
-/

namespace OmarchyAne.Promotion

open Lib

/-! ## The on list -/

/-- `str.upper` on ASCII. -/
def upper (t : Text) : Text := t.map Char.toUpper

def firstClass : List Text :=
  ["t8103".toList, "t6001".toList, "t6021".toList]

def isFirst (c : Text) : Bool := upper c ∈ firstClass.map upper

def firstIdx (c : Text) : Nat := (firstClass.map upper).idxOf (upper c)

/-- The loop of `insert_on`: behind the last chip with an earlier seat. -/
def seat (chip : Text) : List Text → Nat → Nat → Nat
  | [], _, at_ => at_
  | c :: on, i, at_ =>
    seat chip on (i + 1)
      (if isFirst c ∧ firstIdx c < firstIdx chip then i + 1 else at_)

def insertOn (on : List Text) (chip : Text) : List Text :=
  if isFirst chip then on.insertIdx (seat chip on 0 0) chip
  else
    sortBy firstIdx (on.filter isFirst) ++
      insort upper (sortBy upper (on.filter (!isFirst ·))) chip

/-! ## The overlay table -/

/-- The state of a chip in the table: of two rows the later one counts. -/
def rowState (lines : List (Text × Text × Text)) (chip : Text) : Option Text :=
  ((lines.filter fun l => l.1 = chip ∧ l.2.1 = chip ++ "-ane.dts".toList).map (·.2.2)).getLast?

/-- `opt_in_ane_chips`. -/
def optInChips (lines : List (Text × Text × Text)) : List Text :=
  sortBy id ((lines.map (·.1)).dedup.filter fun chip =>
    rowState lines chip = some "opt-in".toList)

/-- Why the edit of a list is refused. -/
inductive ListRefuse where
  | noRow
  | disabled
  | noHeader
  | checkShape
  | emptyArm
  | noDefaultOn
  | docShape
  deriving DecidableEq

/-- Nothing but blanks up to the end of a line. -/
def endsLine (t : Text) : Bool :=
  '\n' ∈ t.takeWhile isSpace || t.all isSpace

/-- `^CHIP\s+CHIP-ane\.dts\s+(\S+)\s*$`: what is before the state, the state,
and what follows it. -/
def matchRow (chip t : Text) : Option (Text × Text × Text) := do
  let t₁ ← cutPrefix chip t
  let t₂ ← cutPrefix (chip ++ "-ane.dts".toList) (t₁.dropWhile isSpace)
  let t₃ := t₂.dropWhile isSpace
  let state := t₃.takeWhile (!isSpace ·)
  let rest := t₃.dropWhile (!isSpace ·)
  if t₁.head?.any isSpace ∧ t₂.head?.any isSpace ∧ state ≠ [] ∧ endsLine rest then
    some (t.take (t.length - t₃.length), state, rest)
  else none

/-- `OPEN([^)]*)CLOSE`, where `CLOSE` starts with the bracket: the group and
what follows it. -/
def matchList (opening closing t : Text) : Option (Text × Text) := do
  let t₁ ← cutPrefix opening t
  let rest := t₁.dropWhile (· ≠ ')')
  if closing.isPrefixOf rest then some (t₁.takeWhile (· ≠ ')'), rest) else none

def headerOpen : Text := "# Tested SoCs are enabled (".toList

def matchHeader : Text → Option (Text × Text) :=
  matchList headerOpen ").".toList

/-- The names of the header after the flip. -/
def headerNames (names : Text) (chip : Text) (promote : Bool) : List Text :=
  let names := (splitText ", ".toList names).filter (· ≠ [])
  if promote then
    if upper chip ∈ names then names else insertOn names (upper chip)
  else names.erase (upper chip)

def editOverlays (text chip : Text) (promote : Bool) : Except ListRefuse Text :=
  match firstMatch (matchRow chip) newline true text with
  | none => .error .noRow
  | some (before, head, state, rest) =>
    if state = "disabled".toList then .error .disabled
    else
      let text := before ++ (head ++
        ((if promote then "enabled".toList else "opt-in".toList) ++ rest))
      match firstMatch matchHeader newline true text with
      | none => .error .noHeader
      | some (before, names, rest) =>
        .ok (before ++ (headerOpen ++
          (", ".toList.intercalate (headerNames names chip promote) ++ rest)))

/-! ## The check -/

def isOffChar (c : Char) : Bool := c.isLower || c.isDigit || c = '|'

def isOnChar (c : Char) : Bool := isOffChar c || c = '"'

/-- `^  ([a-z0-9|"]+)\) ;;\n  ([a-z0-9|]+)\)\n`: the groups and what follows. -/
def matchCheck (t : Text) : Option (Text × Text × Text) := do
  let t₁ ← cutPrefix "  ".toList t
  let t₂ ← cutPrefix ") ;;\n  ".toList (t₁.dropWhile isOnChar)
  let rest ← cutPrefix ")\n".toList (t₂.dropWhile isOffChar)
  if t₁.takeWhile isOnChar ≠ [] ∧ t₂.takeWhile isOffChar ≠ [] then
    some (t₁.takeWhile isOnChar, t₂.takeWhile isOffChar, rest)
  else none

/-- The case arms of the tested and of the untested chips. -/
def checkArms (on off : List Text) : Text :=
  "  ".toList ++ ("|".toList.intercalate (on ++ ["\"\"".toList]) ++
    (") ;;\n  ".toList ++ ("|".toList.intercalate off ++ ")\n".toList)))

/-- The lists of the check after the flip. -/
def checkLists (on off : List Text) (chip : Text) (promote : Bool) :
    List Text × List Text :=
  if promote then
    if chip ∈ off then
      (if chip ∈ on then on else insertOn on chip, off.erase chip)
    else (on, off)
  else if chip ∈ on then
    (on.erase chip, if chip ∈ off then off else insort id off chip)
  else (on, off)

def editCheck (text chip : Text) (promote : Bool) : Except ListRefuse Text :=
  match firstMatch matchCheck newline true text with
  | none => .error .checkShape
  | some (before, on, off, rest) =>
    let lists := checkLists
      ((splitText "|".toList on).filter fun t => t ≠ [] ∧ t ≠ "\"\"".toList)
      (splitText "|".toList off) chip promote
    if promote ∧ lists.2 = [] then .error .emptyArm
    else .ok (before ++ (checkArms lists.1 lists.2 ++ rest))

/-! ## The firmware fetch -/

def defaultOnOpen : Text := "DEFAULT_ON = (".toList

def matchDefaultOn : Text → Option (Text × Text) :=
  matchList defaultOnOpen ")\n".toList

/-- `re.findall` of `"([^"]+)"` in a text of which `skip` characters belong to
the last match. -/
def quotedFrom : Nat → Text → List Text
  | _, [] => []
  | 0, c :: t =>
    let word := t.takeWhile (· ≠ '"')
    if c = '"' ∧ word ≠ [] ∧ '"' ∈ t then word :: quotedFrom (word.length + 1) t
    else quotedFrom 0 t
  | skip + 1, _ :: t => quotedFrom skip t

def quote (t : Text) : Text := '"' :: (t ++ ['"'])

/-- The members of a Python tuple of strings. -/
def tupleBody (items : List Text) : Text :=
  ", ".toList.intercalate (items.map quote) ++
    if items.length = 1 then ",".toList else []

/-- The chips of `DEFAULT_ON` after the flip, each once, in order. -/
def fetchChips (items : List Text) (chip : Text) (promote : Bool) : List Text :=
  let name := "apple,".toList ++ chip
  sortBy id (if promote then (name :: items).dedup else items.dedup.filter (· ≠ name))

def editFirmwareFetch (text chip : Text) (promote : Bool) :
    Except ListRefuse Text :=
  match firstMatch matchDefaultOn newline true text with
  | none => .error .noDefaultOn
  | some (before, body, rest) =>
    .ok (before ++ (defaultOnOpen ++
      (tupleBody (fetchChips (quotedFrom 0 body) chip promote) ++ rest)))

/-! ## The docstring -/

/-- What `join_names` gives: of one name or none it is the list itself. -/
inductive Joined where
  | list (names : List Text)
  | text (t : Text)

def joinNames (names : List Text) : Joined :=
  if names.length ≤ 1 then .list names
  else .text (", ".toList.intercalate names.dropLast ++
    (" and ".toList ++ names.getLast?.getD []))

/-- What an f-string writes for `join_names(...) or "none"`. -/
def Joined.show (printable : Char → Bool) : Joined → Text
  | .list [] => "none".toList
  | .list names =>
    "[".toList ++ (", ".toList.intercalate (names.map (reprStr printable)) ++ "]".toList)
  | .text [] => "none".toList
  | .text t => t

/-- The names and the keys of the enumeration. -/
def showNames (printable : Char → Bool) (chips : List Text) : Text :=
  (joinNames (chips.map upper)).show printable

def showKeys (printable : Char → Bool) (chips : List Text) : Text :=
  (joinNames (chips.map fun c => quote ("ane-".toList ++ c))).show printable

def docOpen : Text := "(the untested ".toList

def enumeration (printable : Char → Bool) (chips : List Text) : Text :=
  docOpen ++ (showNames printable chips ++ (" nodes: ".toList ++
    (showKeys printable chips ++ "; the".toList)))

/-- `\(the untested [^()]*? nodes: [^()]*?; the`: what follows the match. -/
def matchDoc (t : Text) : Option Text := do
  let t₁ ← cutPrefix docOpen t
  let plain := t₁.takeWhile fun c => c ≠ '(' ∧ c ≠ ')'
  let keys ← firstMatch (cutPrefix " nodes: ".toList) (fun _ => true) true plain
  let rest ← firstMatch (cutPrefix "; the".toList) (fun _ => true) true keys.2
  return rest.2 ++ t₁.drop plain.length

/-- The opt-in chips after the flip. -/
def optInAfter (lines : List (Text × Text × Text)) (chip : Text)
    (promote : Bool) : List Text :=
  if promote then (optInChips lines).filter (· ≠ chip)
  else sortBy id (chip :: optInChips lines).dedup

def editDtDocstring (printable : Char → Bool)
    (lines : List (Text × Text × Text)) (text chip : Text) (promote : Bool) :
    Except ListRefuse Text :=
  match firstMatch matchDoc (fun _ => true) true text with
  | none => .error .docShape
  | some (before, rest) =>
    .ok (before ++ (enumeration printable (optInAfter lines chip promote) ++ rest))

/-! ## The tool -/

structure Tree where
  overlays : Text
  check : Text
  fetch : Text
  dt : Text
  deriving DecidableEq

/-- Why the tool writes nothing. -/
inductive FlipStop where
  /-- The chip is not one of the choices. -/
  | usage
  /-- A row of the table has not three words. -/
  | crash
  | nothing
  | refused (why : ListRefuse)
  /-- The overlay source, the README or the changelog refuses. -/
  | refusedOther
  deriving DecidableEq

/-- What the tool reads besides the four files. -/
structure FlipEnv where
  printable : Char → Bool
  ascii : ∀ c : Char, 32 ≤ c.toNat → c.toNat < 127 → printable c = true
  /-- The chips that the `FETCH` table names. -/
  fetches : Text → Bool
  refusesOther : Text → Bool → Bool

/-- The edit of the firmware fetch is planned for the chips that it fetches. -/
def planFetch (env : FlipEnv) (text chip : Text) (promote : Bool) :
    Except ListRefuse Text :=
  if env.fetches chip then editFirmwareFetch text chip promote else .ok text

def editLists (env : FlipEnv) (lines : List (Text × Text × Text)) (t : Tree)
    (chip : Text) (promote : Bool) : Except ListRefuse Tree := do
  let overlays ← editOverlays t.overlays chip promote
  let check ← editCheck t.check chip promote
  let fetch ← planFetch env t.fetch chip promote
  let dt ← editDtDocstring env.printable lines t.dt chip promote
  return ⟨overlays, check, fetch, dt⟩

def flipTree (env : FlipEnv) (t : Tree) (chip : Text) (promote : Bool) :
    Except FlipStop Tree :=
  if chip ∉ marketing then .error .usage
  else
    match overlayLines t.overlays with
    | none => .error .crash
    | some lines =>
      if decide (rowState lines chip = some "enabled".toList) = promote then
        .error .nothing
      else if env.refusesOther chip promote then .error .refusedOther
      else
        match editLists env lines t chip promote with
        | .error why => .error (.refused why)
        | .ok tree => .ok tree

end OmarchyAne.Promotion
