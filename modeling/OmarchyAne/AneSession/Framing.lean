import OmarchyAne.AneSession.Model

/-!
# The framing of the stream

Commands and raw bytes come on one stream.  A client sends items: a line and
the bytes that belong to it.  A `CALL` of a loaded name is followed by its
payload, a `STATE` by its offsets.  `planned` are the commands that the client
means.  They depend on the lines only.

A refused command has to take its bytes off the stream, or the session reads
them as the next command.  `cmd_state` says so and reads its offsets first.
`cmd_call` does not: once the session has failed it answers and leaves the
payload on the stream.  So do a count above `ANE_SESSION_MAX_RUNS` and a buffer
that cannot be allocated.  `InStep` excludes these, and `execCmd_rest_iff` says
that it excludes nothing else.
-/

namespace OmarchyAne.AneSession

open Lib List

variable {payload : Bytes}

structure Item where
  line : Bytes
  payload : Bytes

def Item.bytes (it : Item) : Bytes := it.line ++ 10 :: it.payload

/-- What the client writes. -/
def stream (items : List Item) : Bytes := items.flatMap Item.bytes

/-- The commands of the first lines, up to `QUIT`. -/
def planned : Nat → List Bytes → List Cmd
  | n + 1, line :: lines =>
    match parseLine line with
    | none => []
    | some cmd => cmd :: if cmd = .quit then [] else planned n lines
  | _, _ => []

/-- The bytes that belong to a command. -/
def need (s : Session) : Cmd → Nat
  | .call name => (s.find name).elim 0 fun p => wire p.inTotal p.st
  | .state _ _ nruns => 8 * nruns
  | _ => 0

/-- Each line up to `QUIT` is a command and each command has its bytes.  The
session is the one after the commands before, each with its own bytes. -/
def Framed (w : World) (cfg : Cfg) :
    List CmdEnv → Session → List Item → Prop
  | env :: envs, s, it :: items =>
    10 ∉ it.line ∧ ∃ cmd, parseLine it.line = some cmd ∧
      it.payload.length = need s cmd ∧
      (cmd ≠ .quit → Framed w cfg envs (execCmd w cfg env s cmd it.payload).session items)
  | _, _, _ => True

/-- The command can take its bytes: a call with a payload comes while the
session has not failed, a `STATE` has a count that the session reads, and
there is memory for the bytes. -/
def InStep (env : CmdEnv) (s : Session) : Cmd → Prop
  | .call name => ∀ p, s.find name = some p →
      wire p.inTotal p.st = 0 ∨ (s.failed = false ∧ env.mem 0 = true)
  | .state _ _ nruns => nruns = 0 ∨ (nruns ≤ maxRuns ∧ env.mem 0 = true)
  | _ => True

/-- Every command of the run can take its bytes. -/
def Clean (w : World) (cfg : Cfg) :
    List CmdEnv → Session → List Item → Prop
  | env :: envs, s, it :: items =>
    ∀ cmd, parseLine it.line = some cmd → InStep env s cmd ∧
      (cmd ≠ .quit → Clean w cfg envs (execCmd w cfg env s cmd it.payload).session items)
  | _, _, _ => True

/-! ## One command -/

theorem cut_append {c : UInt8} {l : Bytes} (h : c ∉ l) (rest : Bytes) :
    cut c (l ++ c :: rest) = (l, some rest) := by
  have hall : ∀ b ∈ l, (b != c) = true := by
    intro b hb
    exact bne_iff_ne.2 fun heq => h (heq ▸ hb)
  rw [cut, dropWhile_append_of_pos hall, takeWhile_append_of_pos hall]
  simp

theorem getline_item {it : Item} (h : 10 ∉ it.line) (rest : Bytes) :
    getline (it.bytes ++ rest) = some (it.line, it.payload ++ rest) := by
  have hshape : it.bytes ++ rest = it.line ++ 10 :: (it.payload ++ rest) := by
    rw [Item.bytes, append_assoc, cons_append]
  rw [hshape]
  cases hline : it.line with
  | nil => simp [getline, cut]
  | cons b line =>
    have hcut := cut_append h (it.payload ++ rest)
    rw [hline] at hcut
    rw [cons_append] at hcut ⊢
    rw [getline, hcut]
    simp

theorem cmdState_rest_iff (env : CmdEnv) (s : Session) (name : Bytes)
    (fields : Option (Nat × Nat × Nat)) {nruns : Nat}
    (hlen : payload.length = 8 * nruns) (rest : Bytes) :
    (cmdState env s name fields nruns (payload ++ rest)).rest = rest ↔
      nruns = 0 ∨ (nruns ≤ maxRuns ∧ env.mem 0 = true) := by
  have hkeep : payload ++ rest = rest ↔ nruns = 0 := by
    rw [append_left_eq_self, ← length_eq_zero_iff, hlen]
    omega
  have hdrop : (payload ++ rest).drop (8 * nruns) = rest := by
    rw [← hlen, drop_left]
  rw [cmdState]
  split
  case isTrue hcount =>
    rw [hkeep]
    constructor
    · exact Or.inl
    · rintro (h | h) <;> omega
  case isFalse hcount =>
    split
    case isTrue hmem =>
      simp only [hkeep]
      simp_all
    case isFalse hmem =>
      have hread : ¬ (payload ++ rest).length < 8 * nruns := by
        rw [length_append]
        omega
      have hright : nruns = 0 ∨ nruns ≤ maxRuns ∧ env.mem 0 = true := by
        refine Or.inr ⟨by omega, ?_⟩
        simpa using hmem
      rw [if_neg hread]
      simp only [hdrop]
      refine iff_of_true ?_ hright
      split
      · rfl
      · split <;> rfl

theorem cmdCall_rest_iff (w : World) (env : CmdEnv) (s : Session) (name : Bytes)
    (hlen : payload.length = need s (.call name)) (rest : Bytes) :
    (cmdCall w env s name (payload ++ rest)).rest = rest ↔ InStep env s (.call name) := by
  rw [cmdCall, InStep]
  rw [need] at hlen
  cases hfind : s.find name with
  | none =>
    rw [hfind] at hlen
    have hnil : payload = [] := length_eq_zero_iff.1 hlen
    simp [hnil]
  | some p =>
    rw [hfind, Option.elim_some] at hlen
    have hkeep : payload ++ rest = rest ↔ wire p.inTotal p.st = 0 := by
      rw [append_left_eq_self, ← length_eq_zero_iff, hlen]
    have hright : (∀ q, some p = some q → wire q.inTotal q.st = 0 ∨
        (s.failed = false ∧ env.mem 0 = true)) ↔
        (wire p.inTotal p.st = 0 ∨ (s.failed = false ∧ env.mem 0 = true)) :=
      ⟨fun h => h p rfl, fun h q hq => Option.some_inj.1 hq ▸ h⟩
    rw [hright]
    simp only
    split
    case isTrue hfailed =>
      rw [hkeep]
      simp [hfailed]
    case isFalse hfailed =>
      split
      case isTrue hmem =>
        simp only [hkeep]
        simp_all
      case isFalse hmem =>
        have hread : ¬ (payload ++ rest).length < wire p.inTotal p.st := by
          rw [length_append]
          omega
        have hstep : s.failed = false ∧ env.mem 0 = true := by
          simpa using And.intro hfailed hmem
        rw [if_neg hread, ← hlen, drop_left]
        exact iff_of_true rfl (Or.inr hstep)

/-- A command takes exactly its bytes off the stream when it is in step, and
otherwise it leaves them there. -/
theorem execCmd_rest_iff (w : World) (cfg : Cfg) (env : CmdEnv) (s : Session)
    {cmd : Cmd} (hlen : payload.length = need s cmd) (rest : Bytes) :
    (execCmd w cfg env s cmd (payload ++ rest)).rest = rest ↔ InStep env s cmd := by
  cases cmd with
  | state name fields nruns => exact cmdState_rest_iff env s name fields hlen rest
  | call name => exact cmdCall_rest_iff w env s name hlen rest
  | _ =>
    have hnil : payload = [] := length_eq_zero_iff.1 hlen
    subst hnil
    exact iff_of_true rfl trivial

/-- In step, a command does what it does on its own bytes. -/
theorem execCmd_session (w : World) (cfg : Cfg) {env : CmdEnv} {s : Session}
    {cmd : Cmd} (hlen : payload.length = need s cmd) (hstep : InStep env s cmd)
    (rest : Bytes) :
    (execCmd w cfg env s cmd (payload ++ rest)).session =
      (execCmd w cfg env s cmd payload).session := by
  cases cmd with
  | state name fields nruns =>
    have hlen : payload.length = 8 * nruns := hlen
    have htake : (payload ++ rest).take (8 * nruns) = payload.take (8 * nruns) := by
      rw [take_append_of_le_length (by omega)]
    have hshort : ¬ payload.length < 8 * nruns := by omega
    have hshort' : ¬ (payload ++ rest).length < 8 * nruns := by
      rw [length_append]
      omega
    simp only [execCmd, cmdState, htake, if_neg hshort, if_neg hshort']
    split
    · rfl
    split
    · rfl
    split
    · rfl
    split <;> rfl
  | call name =>
    simp only [execCmd, cmdCall]
    rw [need] at hlen
    cases hfind : s.find name with
    | none => rfl
    | some p =>
      rw [hfind, Option.elim_some] at hlen
      have htake : (payload ++ rest).take (wire p.inTotal p.st) =
          payload.take (wire p.inTotal p.st) := by
        rw [take_append_of_le_length (by omega)]
      have hshort : ¬ payload.length < wire p.inTotal p.st := by omega
      have hshort' : ¬ (payload ++ rest).length < wire p.inTotal p.st := by
        rw [length_append]
        omega
      simp only [htake, if_neg hshort, if_neg hshort']
      split
      · rfl
      split <;> rfl
  | _ => rfl

/-! ## A whole stream -/

theorem run_planned (w : World) (cfg : Cfg) (envs : List CmdEnv) :
    ∀ (s : Session) (items : List Item), Framed w cfg envs s items → Clean w cfg envs s items →
      (run w cfg envs s (stream items)).1.map (·.cmd) =
        planned envs.length (items.map (·.line)) := by
  induction envs with
  | nil =>
    intro s items _ _
    rw [run]
    rfl
  | cons env envs ih =>
    intro s items hframed hclean
    cases items with
    | nil =>
      rw [run]
      rfl
    | cons it items =>
      obtain ⟨hline, cmd, hcmd, hlen, hframed⟩ := hframed
      obtain ⟨hstep, hclean⟩ := hclean cmd hcmd
      have hget : getline (stream (it :: items)) = some (it.line, it.payload ++ stream items) := by
        rw [stream, flatMap_cons]
        exact getline_item hline _
      have hrest := (execCmd_rest_iff w cfg env s hlen (stream items)).2 hstep
      have hsession := execCmd_session w cfg hlen hstep (stream items)
      rw [run]
      simp only [hget, hcmd]
      rw [map_cons, length_cons, planned]
      simp only [hcmd]
      by_cases hquit : cmd = .quit
      · simp [hquit]
      · rw [if_neg hquit, if_neg hquit, map_cons, hrest, hsession,
          ih _ items (hframed hquit) (hclean hquit)]

/-- A command takes exactly its bytes off the stream when it is in step, and
only then.  In a run whose commands all are in step, the session executes the
commands of the lines, whatever the other bytes are. -/
theorem stream_framing (w : World) (cfg : Cfg) :
    (∀ (env : CmdEnv) (s : Session) (cmd : Cmd) (payload rest : Bytes),
      payload.length = need s cmd →
      ((execCmd w cfg env s cmd (payload ++ rest)).rest = rest ↔ InStep env s cmd)) ∧
    ∀ (envs : List CmdEnv) (items : List Item), Framed w cfg envs Session.start items →
      Clean w cfg envs Session.start items →
      (run w cfg envs Session.start (stream items)).1.map (·.cmd) =
        planned envs.length (items.map (·.line)) := by
  constructor
  · intro env s cmd payload rest hlen
    exact execCmd_rest_iff w cfg env s hlen rest
  · intro envs items hframed hclean
    exact run_planned w cfg envs Session.start items hframed hclean

/-- A program with one input and one output of a page. -/
def pageWorld : World where
  ports := fun _ => some [⟨0, 0x4000⟩, ⟨1, 0x4000⟩]
  demand := fun _ _ => some 0
  outputs := fun _ _ _ _ _ => 0

/-- A client that loads a name, calls it and leaves. -/
def pageItems : List Item :=
  [⟨ascii "LOAD a x y", []⟩, ⟨ascii "CALL a", List.replicate 0x4000 81⟩, ⟨ascii "QUIT", []⟩]

/-- A client that loads a name twice.  The second `LOAD` is refused.  The
payload of the call starts with a line. -/
def twiceItems : List Item :=
  [⟨ascii "LOAD a x y", []⟩, ⟨ascii "LOAD a x y", []⟩,
    ⟨ascii "CALL a", ascii "QUIT\n" ++ List.replicate (0x4000 - 5) 0⟩,
    ⟨ascii "PING", []⟩]

theorem stream_framing_page :
    Framed pageWorld ⟨250, 0, 0⟩ (List.replicate 3 plainEnv) Session.start pageItems ∧
    (run pageWorld ⟨250, 0, 0⟩ (List.replicate 3 plainEnv) Session.start
      (stream pageItems)).1.map (·.cmd) = planned 3 (pageItems.map (·.line)) ∧
    ((execCmd pageWorld ⟨250, 0, 0⟩ plainEnv Session.start
      (.state (ascii "a") none 1) (List.replicate 8 0 ++ ascii "PING")).rest = ascii "PING" ↔
      InStep plainEnv Session.start (.state (ascii "a") none 1)) := by
  have hload : parseLine (ascii "LOAD a x y") =
      some (.load (ascii "a") (ascii "x") (ascii "y")) := by decide +kernel
  have hcall : parseLine (ascii "CALL a") = some (.call (ascii "a")) := by
    decide +kernel
  have hquit : parseLine (ascii "QUIT") = some .quit := by decide +kernel
  have hframed : Framed pageWorld ⟨250, 0, 0⟩ (List.replicate 3 plainEnv)
      Session.start pageItems := by
    refine ⟨by decide, _, hload, rfl, fun _ => ?_⟩
    refine ⟨by decide, _, hcall, ?_, fun _ => ?_⟩
    · rw [length_replicate]
      decide +kernel
    · exact ⟨by decide, _, hquit, rfl, fun _ => trivial⟩
  have hclean : Clean pageWorld ⟨250, 0, 0⟩ (List.replicate 3 plainEnv)
      Session.start pageItems := by
    intro cmd h
    obtain rfl := Option.some_inj.1 (hload.symm.trans h)
    refine ⟨trivial, fun _ => ?_⟩
    intro cmd h
    obtain rfl := Option.some_inj.1 (hcall.symm.trans h)
    refine ⟨fun p _ => Or.inr ⟨by decide +kernel, rfl⟩, fun _ => ?_⟩
    intro cmd h
    obtain rfl := Option.some_inj.1 (hquit.symm.trans h)
    exact ⟨trivial, fun h => absurd rfl h⟩
  exact ⟨hframed, (stream_framing pageWorld ⟨250, 0, 0⟩).2 _ _ hframed hclean,
    (stream_framing pageWorld ⟨250, 0, 0⟩).1 _ _ _ _ _ rfl⟩

theorem payload_runs_as_command :
    Framed pageWorld ⟨250, 0, 0⟩ (List.replicate 4 plainEnv) Session.start twiceItems ∧
    (run pageWorld ⟨250, 0, 0⟩ (List.replicate 4 plainEnv) Session.start
      (stream twiceItems)).1.map (·.cmd) = [.load (ascii "a") (ascii "x") (ascii "y"),
          .load (ascii "a") (ascii "x") (ascii "y"), .call (ascii "a"), .quit] ∧
    planned 4 (twiceItems.map (·.line)) =
      [.load (ascii "a") (ascii "x") (ascii "y"),
        .load (ascii "a") (ascii "x") (ascii "y"), .call (ascii "a"),
        .ping] := by
  refine ⟨?_, by decide +kernel, by decide +kernel⟩
  have hload : parseLine (ascii "LOAD a x y") =
      some (.load (ascii "a") (ascii "x") (ascii "y")) := by decide +kernel
  have hcall : parseLine (ascii "CALL a") = some (.call (ascii "a")) := by
    decide +kernel
  have hping : parseLine (ascii "PING") = some .ping := by decide +kernel
  refine ⟨by decide, _, hload, rfl, fun _ => ?_⟩
  refine ⟨by decide, _, hload, rfl, fun _ => ?_⟩
  refine ⟨by decide, _, hcall, ?_, fun _ => ?_⟩
  · rw [length_append, length_replicate]
    decide +kernel
  · exact ⟨by decide, _, hping, rfl, fun _ => trivial⟩

end OmarchyAne.AneSession
