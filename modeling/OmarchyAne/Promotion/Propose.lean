import OmarchyAne.Lib.Run
import OmarchyAne.Promotion.Flip

/-!
# Proposing and gating a flip (tools/promote_from_verdict.py)

`propose` takes the entries of a fresh verdict and opens or updates one pull
request for each flip, with a note of the evidence (`commitNote`) and a body
that records the entry.  `gate` compares the record with the fresh verdict
(`newEvidence`) and merges.
`mergedPromotions` reads the merges back from the log for the release.

`flow` is the whole: the enabled chips and the open pull requests, under any
sequence of runs of `propose` and `gate`, each on the rows of its moment.
-/

namespace OmarchyAne.Promotion

open Lib

/-! ## The entry as text -/

def Verdict.text : Verdict → Text
  | .promote => "PROMOTE".toList
  | .revert => "REVERT".toList
  | .stay => "STAY".toList
  | .on => "ON".toList
  | .conflict => "CONFLICT".toList

/-! ## The evidence -/

def judgedEntries (c : Entry) : List RowEntry := c.rows.filter (·.judged)

/-- The ids of the judged rows. -/
def noteRows (c : Entry) : Text :=
  match ",".toList.intercalate ((judgedEntries c).map (·.rowSha)) with
  | [] => "none".toList
  | shas => shas

/-- The driver sources of the judged rows, each once, in order. -/
def noteSources (c : Entry) : Text :=
  ",".toList.intercalate (sortBy id
    (((judgedEntries c).filterMap (·.driverSource)).filter (· ≠ [])).dedup)

def commitNote (c : Entry) : Text :=
  "row ".toList ++ (noteRows c ++ if noteSources c = [] then [] else "; ".toList ++ noteSources c)

/-- The outcome of each judged row by its id.  Of two rows with one id the
later one counts. -/
def judgedRows (c : Entry) (sha : Text) : Option (Bool × Option Text) :=
  ((judgedEntries c).reverse.find? fun r => r.rowSha = sha).map fun r =>
    (r.passed, r.driverSource)

/-- The ids of the judged rows, each once, in order. -/
def judgedShas (c : Entry) : List Text :=
  sortBy id ((judgedEntries c).map (·.rowSha)).dedup

/-- Why a fresh entry no longer backs a record. -/
inductive Evidence where
  | verdict (recorded fresh : Verdict)
  | targets (recorded fresh : List Target)
  | row (sha : Text) (recorded fresh : Option (Bool × Option Text))
  | failing (sha : Text)

def newEvidence (recorded fresh : Entry) : List Evidence :=
  (if recorded.verdict = fresh.verdict then [] else [.verdict recorded.verdict fresh.verdict]) ++
  (if recorded.targets = fresh.targets then [] else [.targets recorded.targets fresh.targets]) ++
  ((judgedShas recorded).filter fun sha =>
    judgedRows fresh sha ≠ judgedRows recorded sha).map
      (fun sha => .row sha (judgedRows recorded sha) (judgedRows fresh sha)) ++
  ((judgedShas fresh).filter fun sha =>
    judgedRows recorded sha = none ∧
      (judgedRows fresh sha).any fun o => !o.1).map .failing

/-! ## Propose and gate -/

def direction : Verdict → Option Dir
  | .promote => some .defaultOn
  | .revert => some .optIn
  | _ => none

/-- The entry of a chip, by its name alone. -/
def chipVerdict (chips : List Entry) (chip : Text) : Option Entry :=
  chips.find? fun c => c.chip = chip

/-- Why the gate does not merge. -/
inductive GateFail where
  | alreadyFlipped
  | noChip
  | newEvidence (why : List Evidence)

/-- The title of the squash commit. -/
def commitTitle (c : Entry) : Text :=
  c.verdict.text ++ (": ".toList ++ (c.chip ++ (" ANE (".toList ++ (commitNote c ++ ")".toList))))

/-- The gate on a record: the title of its merge, or why it fails. -/
def gate (on : List Text) (chips : List Entry) (recorded : Entry) :
    Except GateFail Text :=
  if recorded.verdict = .promote ↔ recorded.chip ∈ on then
    .error .alreadyFlipped
  else
    match chipVerdict chips recorded.chip with
    | none => .error .noChip
    | some fresh =>
      match newEvidence recorded fresh with
      | [] => .ok (commitTitle recorded)
      | why => .error (.newEvidence why)

/-- A pull request that flips a chip.  Its branch is named after both. -/
structure Pull where
  chip : Text
  dir : Dir
  recorded : Entry
  deriving DecidableEq

/-- Open a pull request, or write the new record into the open one of its
branch. -/
def upsert (pulls : List Pull) (new : Pull) : List Pull :=
  if pulls.any fun p => p.chip = new.chip ∧ p.dir = new.dir then
    pulls.map fun p => if p.chip = new.chip ∧ p.dir = new.dir then new else p
  else pulls ++ [new]

/-- The flips that a verdict asks for. -/
def flips (chips : List Entry) : List Pull :=
  chips.filterMap fun c =>
    (direction c.verdict).map fun dir => ⟨c.chip, dir, c⟩

structure Repo where
  on : List Text
  pulls : List Pull
  merged : List Entry
  deriving DecidableEq

/-- What a run of the loop leaves: the pull requests, those that this run has
proposed, and whether it came to its end. -/
structure Proposed where
  pulls : List Pull
  proposed : List Pull
  finished : Bool

/-- The loop over the flips.  A flip that the tree has already is passed over.
A refused flip stops the run, and what it did so far stays. -/
def proposeLoop (refuses : Text → Dir → Bool) (on : List Text) :
    Proposed → List Pull → Proposed
  | done, [] => { done with finished := true }
  | done, new :: rest =>
    match promoteChip refuses on new.chip new.dir with
    | .refused => done
    | .nothing => proposeLoop refuses on done rest
    | .flipped =>
      proposeLoop refuses on
        { done with
          pulls := upsert done.pulls new
          proposed := done.proposed ++ [new] } rest

/-- A run that comes to its end closes the pull requests that it did not
propose. -/
def propose (refuses : Text → Dir → Bool) (chips : List Entry) (s : Repo) :
    Repo :=
  let done := proposeLoop refuses s.on ⟨s.pulls, [], false⟩ (flips chips)
  if done.finished then
    { s with pulls := done.pulls.filter fun p =>
        done.proposed.any fun q => q.chip = p.chip ∧ q.dir = p.dir }
  else { s with pulls := done.pulls }

/-- The merge of a pull request flips its chip. -/
def merge (p : Pull) (s : Repo) : Repo :=
  { on :=
      match p.dir with
      | .defaultOn => p.chip :: s.on
      | .optIn => s.on.filter (· ≠ p.chip)
    pulls := s.pulls.filter (· ≠ p)
    merged := s.merged ++ [p.recorded] }

inductive Act where
  | propose (rows : List Row)
  | gate (rows : List Row) (chip : Text) (dir : Dir)

section Flow

variable (U : Unicode) (refuses : List Text → Text → Dir → Bool)

def flowStep (s : Repo) : Act → Option Repo
  | .propose rows => some (propose (refuses s.on) (jsonVerdict U s.on rows) s)
  | .gate rows chip dir =>
    match s.pulls.find? fun p => p.chip = chip ∧ p.dir = dir with
    | none => none
    | some p =>
      match gate s.on (jsonVerdict U s.on rows) p.recorded with
      | .ok _ => some (merge p s)
      | .error _ => some s

def flow : System Repo Act where
  init s := s.pulls = [] ∧ s.merged = []
  step := flowStep U refuses

end Flow

end OmarchyAne.Promotion
