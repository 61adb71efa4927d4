import OmarchyAne.Lib.Bytes

/-!
# The command lines of ane-session (tools/ane-session.c)

The session reads text commands and raw bytes from one stream.  A command is a
line.  `parseLine` takes the line apart as `main` does, with the string
functions of C: a line ends at its first zero byte, `strchr` cuts at a space,
and `strtok_r` skips runs of spaces.  A line that `main` cannot take apart ends
the process, and then there is no command.
-/

namespace OmarchyAne.AneSession

open Lib

/-- A command and its arguments. -/
inductive Cmd where
  | ping
  | quit
  | lock
  | unlock
  | load (name anec ports : Bytes)
  | free (name : Bytes)
  /-- `fields` are the input, the output and the bytes of a run, when all three
  can be read. -/
  | state (name : Bytes) (fields : Option (Nat × Nat × Nat)) (nruns : Nat)
  | reset (name : Option Bytes)
  | call (name : Bytes)
  deriving DecidableEq

/-- The text before the first `c` and, when there is one, the text after it. -/
def cut (c : UInt8) (l : Bytes) : Bytes × Option Bytes :=
  match l.dropWhile (· != c) with
  | [] => (l, none)
  | _ :: rest => (l.takeWhile (· != c), some rest)

/-- The line without the line breaks at its end, up to the first zero byte. -/
def chomp (line : Bytes) : Bytes :=
  (line.reverse.dropWhile fun b => b == 10 || b == 13).reverse.takeWhile
    (· != 0)

/-- The value of a text of decimal digits. -/
def decimal (l : Bytes) : Nat :=
  l.foldl (fun n b => 10 * n + (b.toNat - 48)) 0

/-- `parse_u64`. -/
def parseU64 (l : Bytes) : Option Nat :=
  if l ≠ [] ∧ (l.all fun b => 48 ≤ b && b ≤ 57) ∧ decimal l < 2 ^ 64 then
    some (decimal l)
  else none

/-- The words between spaces. -/
def tokens (l : Bytes) : List Bytes :=
  (l.splitOnP (· == 32)).filter (· ≠ [])

/-- `STATE name in out bytes count`. -/
def parseState (args : Bytes) : Option Cmd :=
  match tokens args with
  | [name, a, b, c, d] =>
    (parseU64 d).map fun nruns =>
      let fields :=
        match parseU64 a, parseU64 b, parseU64 c with
        | some ia, some ib, some rb => some (ia, ib, rb)
        | _, _, _ => none
      .state name fields nruns
  | _ => none

/-- `LOAD name anec ports`. -/
def parseLoad (args : Bytes) : Option Cmd :=
  match cut 32 args with
  | (_, none) => none
  | (name, some rest) =>
    match cut 32 rest with
    | (_, none) => none
    | (anec, some ports) => some (.load name anec ports)

/-- The command of a line, and nothing when the process ends with status 2. -/
def parseLine (line : Bytes) : Option Cmd :=
  let (cmd, args) := cut 32 (chomp line)
  if cmd = ascii "PING" then some .ping
  else if cmd = ascii "QUIT" then some .quit
  else if cmd = ascii "LOCK" then some .lock
  else if cmd = ascii "UNLOCK" then some .unlock
  else if cmd = ascii "LOAD" then args.bind parseLoad
  else if cmd = ascii "FREE" then args.map .free
  else if cmd = ascii "STATE" then args.bind parseState
  else if cmd = ascii "RESET" then some (.reset (args.filter (· ≠ [])))
  else if cmd = ascii "CALL" then args.map .call
  else none

example : parseLine (ascii "STATE kv 1  0 16 2") =
    some (.state (ascii "kv") (some (1, 0, 16)) 2) := by decide +kernel

end OmarchyAne.AneSession
