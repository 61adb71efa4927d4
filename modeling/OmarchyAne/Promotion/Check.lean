import OmarchyAne.Lib.Json
import OmarchyAne.Lib.Regex
import Mathlib.Data.Prod.Lex

/-!
# The promotion check (tools/promotion_check.py)

A community row says what one Mac saw: the readiness check, the module that
was loaded, the smoke calls and the kernel log.  The model judges such rows as
the tool does.  `judged` decides whether a row is evidence, `failures` gives
the reasons why a judged row fails, and `jsonVerdict` gathers the rows by chip
and die and gives each pair its state, its verdict and its row entries.

A row is a record of the fields that the tool reads.  A field that may be
missing or null is an option.  Every text of a row is arbitrary.  Python's
tables of letters outside ASCII are a parameter (`Unicode`), and nothing below
depends on them.
-/

namespace OmarchyAne.Promotion

open Lib

/-! ## Text -/

/-- The character tables of Python's `re`: word characters, decimal digits,
and equality of letters up to their case. -/
structure Unicode where
  isWord : Char → Bool
  isDecimal : Char → Bool
  sameLetter : Char → Char → Bool

/-- The tables on ASCII text. -/
def Unicode.ascii : Unicode where
  isWord c := c.isAlphanum || c = '_'
  isDecimal c := c.isDigit
  sameLetter c d := c.toLower = d.toLower

/-- `str.isspace` of one character. -/
def isSpace (c : Char) : Bool :=
  let n := c.toNat
  (9 ≤ n && n ≤ 13) || (28 ≤ n && n ≤ 32) || n = 133 || n = 160 ||
    n = 5760 || (8192 ≤ n && n ≤ 8202) || n = 8232 || n = 8233 ||
    n = 8239 || n = 8287 || n = 12288

/-- What an f-string writes for a number that may be missing. -/
def showInt : Option Int → Text
  | none => "None".toList
  | some n => Json.renderInt n

/-- What an f-string writes for a text that may be missing. -/
def showText : Option Text → Text
  | none => "None".toList
  | some t => t

def showNat (n : Nat) : Text := Nat.toDigits 10 n

/-! ## Rows -/

structure Check where
  available : Option Bool
  exit : Option Int
  status : Option Text
  lines : List Text

structure Smoke where
  busy : Option Bool
  attempted : Option Bool
  requested : Option Bool
  available : Option Bool
  name : Option Text
  sha256 : Option (List Text)
  errors : Option Int

/-- The omarchy-ane block of a row. -/
structure Block where
  check : Check
  module : Option Text
  smoke : Smoke
  dmesg : List Text
  dmesgFaults : List Text
  driverSource : Option Text
  die : Option Int

/-- What stands under `omarchy_ane` in the runtime section. -/
inductive Runtime where
  | absent
  | empty
  | block (oa : Block)

structure Row where
  contentSha256 : Text
  chip : Option Text
  receivedAt : Option Text
  runtime : Runtime
  truncated : List Text
  aneLinux : Option Block

/-! ## Tables -/

def driver : List (Text × Text) :=
  [("t8103".toList, "ane".toList), ("t6000".toList, "ane".toList),
    ("t6001".toList, "ane".toList), ("t6002".toList, "ane".toList),
    ("t6020".toList, "ane_t6021".toList), ("t6021".toList, "ane_t6021".toList),
    ("t6022".toList, "ane_t6021".toList), ("t8112".toList, "ane_t6021".toList)]

def h14Golden : Text :=
  ("94041b7cc10a66dfd76ecfd469728ad9" ++ "d66f68b508f4a9744ce41208d6a4de0b").toList

def h13Golden : Text :=
  ("5ad7eccd2977a88a375f123fe42c6780" ++ "855953a1e9df4ac442cae383bc240dd6").toList

/-- The smoke golden of each chip with a fixture. -/
def golden : List (Text × Text) :=
  [("t6020".toList, h14Golden), ("t6021".toList, h14Golden),
    ("t6022".toList, h14Golden), ("t8112".toList, h14Golden),
    ("t8103".toList, h13Golden), ("t6000".toList, h13Golden),
    ("t6001".toList, h13Golden), ("t6002".toList, h13Golden),
    ("t6030".toList, h14Golden), ("t6031".toList, h14Golden),
    ("t6034".toList, h14Golden), ("t8122".toList, h14Golden)]

def minSmokeCalls : Nat := 20

/-- `dict.get`. -/
def get (table : List (Text × Text)) (key : Text) : Option Text :=
  (table.find? fun kv => kv.1 = key).map (·.2)

/-! ## Log lines -/

section Patterns

variable (U : Unicode)

private def hexDigit (c : Char) : Bool :=
  ('0' ≤ c && c ≤ '9') || ('a' ≤ c && c ≤ 'f')

private def upTo2 : Rx := .chr fun c => '0' ≤ c && c ≤ '2'

private def opt (r : Rx) : Rx := .alt r .eps

/-- One of the three DARTs of an ANE. -/
private def dart (base : String) : Rx :=
  .seqs [.lit base.toList, upTo2, .lit "0000".toList]

def aneLine : Rx :=
  .alts
    [.seqs [.edge U.isWord, .plus hexDigit, .lit ".ane".toList, .edge U.isWord],
      .seqs [.edge U.isWord, .lit "ane".toList, opt (.lit "_t6021".toList), .lit ":".toList],
      .seqs [.lit "apple-dart ".toList, .alts [dart "2858", dart "26b8", dart "22858"],
        .lit ".iommu".toList],
      .seqs [.lit "apple-mailbox ".toList,
        .alts [.lit "285408000".toList, .lit "26b408000".toList, .lit "2285408000".toList],
        .lit ".mailbox".toList]]

/-- A fixed text in either case of its letters. -/
private def anyCase (t : String) : Rx :=
  .seqs (t.toList.map fun l => .chr fun c => U.sameLetter c l)

def faultWord : Rx :=
  .alts
    [anyCase U "fault", anyCase U "error",
      .seqs [anyCase U "fail", opt (.alt (anyCase U "ed") (anyCase U "ure"))],
      .seqs [anyCase U "time", opt (anyCase U "d"), opt (anyCase U " "), anyCase U "out"],
      anyCase U "abort", anyCase U "oops", anyCase U "warn", anyCase U "bug",
      anyCase U "call trace", anyCase U "stall", anyCase U "hung"]

def unsigned : Rx :=
  .lit ("module verification failed: signature and/or required key missing" ++
    " - tainting kernel").toList

def refused : Rx := .lit "unsupported ANE: no proven SET-block base".toList

def bound : Rx :=
  .seqs [.lit "bound to ".toList, .group 1 (.plus hexDigit), .lit ".ane".toList, .edge U.isWord]

end Patterns

/-! ## One row -/

section Rows

variable (U : Unicode)

private def hexNat (t : Text) : Nat :=
  t.foldl (fun n c =>
    n * 16 + if c ≤ '9' then c.toNat - 48 else c.toNat - 87) 0

/-- The distance of the two dies of a chip in the address space. -/
def dieStride : Nat := 0x2000000000

/-- The dies that the check output of a block names. -/
def boundDies (oa : Block) : List Nat :=
  ((oa.check.lines.flatMap ((bound U).findall 1)).map fun base =>
    hexNat base / dieStride).eraseDups

/-- The evidence of a row: the runtime block, or the section that stands in for
a runtime section over the byte budget.  A block that binds several dies is
none. -/
def block (row : Row) : Option Block :=
  match row.runtime with
  | .block oa => if 1 < (boundDies U oa).length then none else some oa
  | .empty => none
  | .absent =>
    if "runtime:over_budget".toList ∈ row.truncated then
      match row.aneLinux with
      | none => none
      | some oa =>
        match boundDies U oa with
        | [die] => some { oa with die := some die }
        | _ => none
    else none

def soc (row : Row) : Option Text :=
  match row.chip with
  | none => none
  | some chip =>
    if "apple,t".toList.isPrefixOf chip then some (chip.drop 6) else none

def dieOf (row : Row) : Nat :=
  match (block U row).bind (·.die) with
  | some die => die.toNat
  | none => 0

abbrev Key := Text × Nat

def dieKey (row : Row) : Option Key :=
  (soc row).map fun s => (s, dieOf U row)

def installed (oa : Block) : Bool := oa.check.available ≠ some false

def smokeAttempted (smoke : Smoke) : Bool :=
  if smoke.busy = some true ∨ smoke.attempted = some false ∨
      smoke.requested = some false then false
  else if smoke.attempted = some true ∨ smoke.requested = some true then true
  else smoke.sha256.isSome || smoke.available = some true ||
    (smoke.available = some false && smoke.name.isSome)

def driverSource (oa : Block) : Text :=
  match oa.driverSource with
  | none => "dkms".toList
  | some [] => "dkms".toList
  | some source => source

/-- The fault lines of the ANE in both kernel logs, each once. -/
def faults (oa : Block) : List Text :=
  ((oa.dmesgFaults ++ oa.dmesg).filter fun l =>
    (aneLine U).search l && (faultWord U).search l &&
      !unsigned.search l && !refused.search l).eraseDups

def ready (check : Check) : Bool :=
  check.exit = some 0 && check.status = some "ready".toList

def notReadyText (check : Check) : Text :=
  "omarchy-ane-check not ready (exit ".toList ++ (showInt check.exit ++
    (", ".toList ++ (showText check.status ++ ")".toList)))

def faultText (lines : List Text) (first : Text) : Text :=
  showNat lines.length ++
    (" ANE/DART/mailbox fault line(s): ".toList ++ first.take 120)

/-- The reasons why a block is not clean. -/
def unclean (oa : Block) : List Text :=
  (if ready oa.check then [] else [notReadyText oa.check]) ++
    match faults U oa with
    | [] => []
    | first :: rest => [faultText (first :: rest) first]

def judged (row : Row) : Bool :=
  match block U row with
  | none => false
  | some oa =>
    if !installed oa || driverSource oa = "none".toList then false
    else !(unclean U oa).isEmpty ||
      oa.module ≠ (soc row).bind (get driver) || smokeAttempted oa.smoke

def moduleText (module want : Option Text) : Text :=
  "module ".toList ++ (showText module ++ (", want ".toList ++ showText want))

/-- The calls that are not bit-exact. -/
def notExact (want : Text) (hashes : List Text) : Nat :=
  hashes.countP fun h => h ≠ want

def smokeExact (want : Text) (smoke : Smoke) : Bool :=
  let hashes := smoke.sha256.getD []
  hashes.length = minSmokeCalls && smoke.errors.getD 0 = 0 &&
    notExact want hashes = 0

def smokeText (want : Text) (smoke : Smoke) : Text :=
  let hashes := smoke.sha256.getD []
  "smoke ".toList ++ (showNat hashes.length ++ (" calls, ".toList ++
    (showNat (notExact want hashes) ++ (" not bit-exact, ".toList ++
      (showInt smoke.errors ++ (" errors (want exactly ".toList ++
        (showNat minSmokeCalls ++ " bit-exact, 0 errors)".toList)))))))

/-- The reasons why a judged row fails. -/
def failures (row : Row) : List Text :=
  match soc row, block U row with
  | some s, some oa =>
    unclean U oa ++
      ((if oa.module = get driver s then [] else [moduleText oa.module (get driver s)]) ++
        match get golden s with
        | none => ["no smoke golden for ".toList ++ s]
        | some want =>
          if smokeExact want oa.smoke then []
          else [smokeText want oa.smoke])
  | _, _ => []

end Rows

/-! ## Verdicts -/

/-- The lines of the overlay table: prefix, source and state.  A line that has
not three words stops the tool. -/
def overlayLines (overlays : Text) : Option (List (Text × Text × Text)) :=
  ((overlays.splitOnP isLineBreak).filter fun l =>
    l ≠ [] ∧ l.head? ≠ some '#').mapM fun l =>
      match (l.splitOnP isSpace).filter (· ≠ []) with
      | [chip, source, state] => some (chip, source, state)
      | _ => none

/-- The chips whose overlay is enabled.  Only die 0 of a chip has one. -/
def defaultOn (overlays : Text) : Option (List Text) :=
  (overlayLines overlays).map fun lines =>
    (lines.filter fun l => l.2.1 = l.1 ++ "-ane.dts".toList ∧
      l.2.2 = "enabled".toList).map (·.1)

inductive State where
  | on
  | optIn
  deriving DecidableEq

inductive Verdict where
  | promote
  | revert
  | stay
  | on
  | conflict
  deriving DecidableEq

inductive Target where
  | overlay
  | auroraDt
  deriving DecidableEq

structure RowEntry where
  rowSha : Text
  judged : Bool
  driverSource : Option Text
  passed : Bool
  reasons : List Text
  deriving DecidableEq

/-- What the verdict says of one chip and die. -/
structure Entry where
  chip : Text
  die : Nat
  state : State
  verdict : Verdict
  targets : List Target
  rows : List RowEntry
  deriving DecidableEq

section Verdicts

variable (U : Unicode) (on : List Text)

/-- The facts about the judged rows of one key that decide its verdict. -/
structure Result where
  promote : Bool
  conflict : Bool
  intree : List Text
  on : Bool
  revert : List Text

/-- The key is enabled: `ON` holds die 0 of the enabled chips. -/
def isOn (key : Key) : Bool := key.2 = 0 && decide (key.1 ∈ on)

/-- The first of the rows with the largest time. -/
def latest : Row → List Row → Row
  | best, [] => best
  | best, row :: rows =>
    if best.receivedAt.getD [] < row.receivedAt.getD [] then latest row rows
    else latest best rows

def passes (row : Row) : Bool := (failures U row).isEmpty

/-- The result of a key from its judged rows, of which there is one. -/
def resultOf (key : Key) (first : Row) (rest : List Row) : Result :=
  let rows := first :: rest
  let ok := rows.filter (passes U)
  let bad := rows.filter fun row => !passes U row
  { promote := !ok.isEmpty && bad.isEmpty
    conflict := !ok.isEmpty && !bad.isEmpty
    intree := (ok.filter fun row =>
      (block U row).any fun oa => driverSource oa = "intree".toList).map
        fun row => row.contentSha256.take 12
    on := isOn on key
    revert :=
      if isOn on key then
        match block U (latest first rest) with
        | some oa => unclean U oa
        | none => []
      else [] }

def verdict (rows : List Row) (key : Key) : Option Result :=
  match rows.filter fun row => dieKey U row = some key ∧ judged U row with
  | [] => none
  | first :: rest => some (resultOf U on key first rest)

def targets (r : Result) : List Target :=
  let aurora := if r.intree.isEmpty then [] else [Target.auroraDt]
  if r.on then if r.revert.isEmpty then aurora else [.overlay]
  else if r.promote then .overlay :: aurora else []

def rowEntry (row : Row) : RowEntry :=
  let j := judged U row
  { rowSha := row.contentSha256.take 12
    judged := j
    driverSource := (block U row).map driverSource
    passed := if j then passes U row else false
    reasons := if j then failures U row else [] }

/-- The rows of one key, in the order of the dataset. -/
def rowsOf (rows : List Row) (key : Key) : List Row :=
  rows.filter fun row => dieKey U row = some key

def entryOf (rows : List Row) (key : Key) : Entry :=
  let rowsOut := (rowsOf U rows key).map (rowEntry U)
  let entry := fun state v targets =>
    { chip := key.1, die := key.2, state := state, verdict := v,
      targets := targets, rows := rowsOut : Entry }
  match verdict U on rows key with
  | none =>
    if isOn on key then entry .on .on [] else entry .optIn .stay []
  | some r =>
    if r.on then
      entry .on (if r.revert.isEmpty then .on else .revert) (targets r)
    else
      entry .optIn
        (if r.promote then .promote else if r.conflict then .conflict else .stay)
        (targets r)

/-- The chips and dies of the rows, each once, in order. -/
def keys (rows : List Row) : List Key :=
  sortBy (fun key => toLex key) (rows.filterMap (dieKey U)).dedup

def jsonVerdict (rows : List Row) : List Entry :=
  (keys U rows).map (entryOf U on rows)

end Verdicts

end OmarchyAne.Promotion
