import OmarchyAne.H15.RtkDiscipline

/-!
# The RTKit exchange of the H18 module (src/ane/h18/ane_h18_main.c)

The host answers the management messages of the firmware over a Postoffice
channel.  A message goes into the TX register if a slot is free and nothing is
queued.  Otherwise it waits in a queue of eight, which every poll flushes
first.  The formats and the constants are those of the H15 module.

The device is a stream of register reads, so a TX slot may be free or busy at
any read, and the firmware may send any messages.  The trace has what was read
from RX and stored in TX, in order, with a mark where the shutdown begins.

`Mbox.run` makes any calls of send and flush.  `mbox_fifo` says that the
mailbox is a queue: what was stored, and then what is queued, is what was
accepted.
-/

namespace OmarchyAne.H18

open List

open OmarchyAne.H15 (msgHello msgEpMap msgIopPwrAck msgApPwr msgIopIdle
  msgStartEp msgType msgEp rtkVersion helloReply epMapReply startEp apPwr
  setIopPwr pwrOn pwrOff pwrSleep pwrQuiesced appEp systemEp)

/-- `ANE_H18_PO_MAXSEND`. -/
def maxSend : Nat := 12

/-- The size of `rtk_txq`. -/
def txqSize : Nat := 8

/-- The RTKit part of `struct ane_h18`. -/
structure Rtk where
  /-- Eight words of 32 bits. -/
  eps : Nat → Nat := fun _ => 0
  txq : List Nat := []
  apSent : Bool := false
  apOn : Bool := false
  appStarted : Bool := false
  shutdown : Bool := false
  apAcked : Bool := false
  iopAcked : Bool := false
  iopIdle : Bool := false
  apState : Nat := 0
  iopState : Nat := 0

/-- The bit of an endpoint. -/
def Rtk.ep (k : Rtk) (i : Nat) : Bool := (k.eps (i / 32)).testBit (i % 32)

inductive Event where
  | rx (m0 m1 : Nat)
  | tx (m0 : Nat)
  /-- The shutdown begins. -/
  | shutdown
  deriving DecidableEq, Repr

structure St where
  k : Rtk := {}
  /-- The counter of the caller, `*sent`. -/
  sent : Nat := 0
  /-- The number of register reads. -/
  reads : Nat := 0
  trace : List Event := []

/-- The device, the module parameters and the polls of the phases. -/
structure Env where
  /-- The value of each register read. -/
  read : Nat → Nat
  /-- The channel is inside the mailbox window. -/
  inside : Bool
  /-- `rtkit_hello`. -/
  hello : Bool
  /-- `rtkit_start`. -/
  start : Bool
  /-- `rtkit_stop`. -/
  stop : Nat
  /-- The polls of the boot loop. -/
  bootPolls : Nat
  /-- With `handshake`, the polls of `ane_h18_handshake`. -/
  hsPolls : Option Nat

/-- The status has free TX slots, in the bits 11:8. -/
def slotFree (st : Nat) : Bool := st / 2 ^ 8 % 2 ^ 4 != 0

/-- The status has messages in RX, in the bits 3:0. -/
def rxWaits (st : Nat) : Bool := st % 2 ^ 4 != 0

section Session

variable (env : Env)

/-! ## Sending -/

/-- `ane_h18_rtkit_tx_now`.  The result is whether it returned 0. -/
def rtkitTxNow (m : Nat) (s : St) : Bool × St :=
  if slotFree (env.read s.reads) then
    (true, { s with reads := s.reads + 1, trace := s.trace ++ [.tx m] })
  else (false, { s with reads := s.reads + 1 })

/-- The loop of `ane_h18_rtkit_flush`, which leaves the rest of the queue. -/
def flushLoop : List Nat → St → List Nat × St
  | [], s => ([], s)
  | m :: q, s =>
    match rtkitTxNow env m s with
    | (true, s) => flushLoop q s
    | (false, s) => (m :: q, s)

/-- `ane_h18_rtkit_flush`. -/
def rtkitFlush (s : St) : St :=
  let r := flushLoop env s.k.txq s
  { r.2 with k := { r.2.k with txq := r.1 } }

/-- A message behind the others in the queue. -/
def queueMsg (m : Nat) (s : St) : Bool × St :=
  if s.k.txq.length = txqSize then (false, s)
  else (true, { s with
    k := { s.k with txq := s.k.txq ++ [m] }
    sent := s.sent + 1 })

/-- `ane_h18_rtkit_send`.  The result is whether it returned 0. -/
def rtkitSend (m : Nat) (s : St) : Bool × St :=
  if maxSend ≤ s.sent then (false, s)
  else if s.k.txq = [] then
    match rtkitTxNow env m s with
    | (true, s) => (true, { s with sent := s.sent + 1 })
    | (false, s) => queueMsg m s
  else queueMsg m s

/-! ## A message -/

/-- The loop that starts endpoints.  It stops at a send that fails. -/
def startEps (want : Nat → Bool) : List Nat → St → St
  | [], s => s
  | i :: is, s =>
    if s.k.ep i && want i then
      match rtkitSend env (startEp i) s with
      | (true, s) => startEps want is s
      | (false, s) => s
    else startEps want is s

/-- The loop that takes over a map of endpoints. -/
def addEps (base m0 : Nat) (eps : Nat → Nat) : Nat → Nat :=
  (List.range 32).foldl (fun eps i =>
    if m0.testBit i then
      let ep := base * 32 + i
      Function.update eps (ep / 32) (eps (ep / 32) ||| 1 <<< (ep % 32))
    else eps) eps

def handleHello (m0 : Nat) (s : St) : St :=
  if rtkVersion < m0 % 2 ^ 16 ∨ m0 / 2 ^ 16 % 2 ^ 16 < rtkVersion then s
  else (rtkitSend env helloReply s).2

def handleEpMap (m0 : Nat) (s : St) : St :=
  let s := { s with
    k := { s.k with eps := addEps (m0 / 2 ^ 32 % 8) m0 s.k.eps } }
  match rtkitSend env (epMapReply m0) s with
  | (false, s) => s
  | (true, s) =>
    if m0.testBit 51 ∧ env.start then
      startEps env systemEp (List.range 256) s
    else s

/-- The answer to an IOP power state.  Only the first branch asks for the
shutdown, so the second one also runs after it began. -/
def handleIopAck (m0 : Nat) (s : St) : St :=
  if s.k.shutdown ∧ m0 % 2 ^ 16 = s.k.iopState then
    { s with k := { s.k with iopAcked := true } }
  else if env.start ∧ !s.k.apSent ∧ m0 % 2 ^ 8 = pwrOn then
    match rtkitSend env (apPwr pwrOn) s with
    | (true, s) => { s with k := { s.k with apSent := true } }
    | (false, s) => s
  else s

def handleApPwr (m0 : Nat) (s : St) : St :=
  if s.k.shutdown ∧ m0 % 2 ^ 16 = s.k.apState then
    let s := { s with k := { s.k with apAcked := true } }
    (rtkitSend env (setIopPwr s.k.iopState) s).2
  else if env.start ∧ !s.k.shutdown ∧ m0 % 2 ^ 8 = pwrOn ∧
      !s.k.appStarted then
    let s := { s with k := { s.k with apOn := true, appStarted := true } }
    startEps env (fun _ => true) (List.range' appEp 224) s
  else s

def handleIdle (s : St) : St :=
  if s.k.shutdown then { s with k := { s.k with iopIdle := true } } else s

/-- What `ane_h18_rtkit_step` does with a message. -/
def rtkitHandle (m0 m1 : Nat) (s : St) : St :=
  if m1 % 2 ^ 8 ≠ 0 ∨ !env.hello then s
  else if msgType m0 = msgHello then handleHello env m0 s
  else if msgType m0 = msgEpMap then handleEpMap env m0 s
  else if msgType m0 = msgIopPwrAck then handleIopAck env m0 s
  else if msgType m0 = msgApPwr then handleApPwr env m0 s
  else if msgType m0 = msgIopIdle then handleIdle s
  else s

/-- A message has been read. -/
def receive (m0 m1 : Nat) (s : St) : St :=
  { s with reads := s.reads + 3, trace := s.trace ++ [.rx m0 m1] }

/-- The part of `ane_h18_rtkit_step` behind the flush. -/
def rtkitRx (s : St) : St :=
  if rxWaits (env.read s.reads) then
    let m0 := env.read (s.reads + 1)
    let m1 := env.read (s.reads + 2)
    rtkitHandle env m0 m1 (receive m0 m1 s)
  else { s with reads := s.reads + 1 }

/-- `ane_h18_rtkit_step`. -/
def rtkitStep (s : St) : St :=
  if env.inside then rtkitRx env (rtkitFlush env s) else s

/-! ## The session -/

/-- A number of polls. -/
def polls : Nat → St → St
  | 0, s => s
  | n + 1, s => polls n (rtkitStep env s)

/-- The polls of the handshake, which has its own counter. -/
def handshakePolls (s : St) : St :=
  match env.hsPolls with
  | none => s
  | some n =>
    if s.k.apOn then
      { polls env n { s with sent := 0 } with sent := s.sent }
    else s

/-- The rounds in which the messages of the boot go out. -/
def drainRounds : Nat → St → St
  | 0, s => s
  | n + 1, s =>
    if s.k.txq = [] then s else drainRounds n (rtkitStep env s)

/-- The state when the shutdown begins. -/
def beginShutdown (s : St) : St :=
  { s with
    k := { s.k with
      shutdown := true
      apState := if env.stop = 2 then pwrOff else pwrQuiesced
      iopState := if env.stop = 2 then pwrOff else pwrSleep }
    sent := 0
    trace := s.trace ++ [.shutdown] }

/-- The rounds of the shutdown. -/
def stopRounds : Nat → St → St
  | 0, s => s
  | n + 1, s =>
    if s.k.iopAcked || s.k.iopIdle then s
    else stopRounds n (rtkitStep env s)

/-- The boot up to the shutdown. -/
def bootPhase (s : St) : St :=
  handshakePolls env (polls env env.bootPolls s)

/-- The RTKit part of `ane_h18_stage_boot`.  A round takes 10 of the 600 ms
of `ANE_H18_RTK_STOP_WAIT_MS`. -/
def stageBoot (s : St) : St :=
  let s := bootPhase env s
  if env.stop ≠ 0 ∧ s.k.apOn then
    let s := beginShutdown env (drainRounds env 60 s)
    match rtkitSend env (apPwr s.k.apState) s with
    | (false, s) => s
    | (true, s) => stopRounds env 60 s
  else s

end Session

/-! ## The mailbox as a queue -/

section Fifo

variable {env : Env}

/-- What was stored in TX. -/
def stored (trace : List Event) : List Nat :=
  trace.filterMap (fun e =>
    match e with
    | .tx m => some m
    | _ => none)

/-- What was stored, and then what is queued. -/
def St.line (s : St) : List Nat := stored s.trace ++ s.k.txq

@[simp] theorem stored_append (a b : List Event) : stored (a ++ b) = stored a ++ stored b :=
  filterMap_append

@[simp] theorem stored_tx (m : Nat) : stored [.tx m] = [m] := rfl

/-- The number of messages that a flush stores from position `r` of the
reads. -/
def freeSlots (env : Env) : Nat → List Nat → Nat
  | _, [] => 0
  | r, _ :: q => if slotFree (env.read r) then freeSlots env (r + 1) q + 1
    else 0

theorem freeSlots_le (r : Nat) (q : List Nat) : freeSlots env r q ≤ q.length := by
  induction q generalizing r with
  | nil => exact Nat.le_refl 0
  | cons m q ih =>
    have := ih (r + 1)
    rw [freeSlots, length_cons]
    split <;> omega

/-- The flush stores the queue from its head on while slots are free. -/
theorem flushLoop_eq (q : List Nat) (s : St) :
    let n := freeSlots env s.reads q
    flushLoop env q s = (q.drop n, { s with
      reads := s.reads + n + if n = q.length then 0 else 1
      trace := s.trace ++ (q.take n).map .tx }) := by
  induction q generalizing s with
  | nil => simp [flushLoop, freeSlots]
  | cons m q ih =>
    rw [flushLoop, freeSlots, rtkitTxNow]
    by_cases hfree : slotFree (env.read s.reads) = true
    · simp only [if_pos hfree, ih, drop_succ_cons, take_succ_cons,
        map_cons, append_assoc, singleton_append,
        length_cons, Nat.add_right_cancel_iff]
      congr 2
      omega
    · simp [if_neg hfree]

theorem rtkitFlush_eq (env : Env) (s : St) :
    let n := freeSlots env s.reads s.k.txq
    rtkitFlush env s = { s with
      k := { s.k with txq := s.k.txq.drop n }
      reads := s.reads + n + if n = s.k.txq.length then 0 else 1
      trace := s.trace ++ (s.k.txq.take n).map .tx } := by
  rw [rtkitFlush, flushLoop_eq]

theorem stored_map_tx (l : List Nat) : stored (l.map .tx) = l := by
  simp [stored, filterMap_map]

theorem rtkitFlush_line (env : Env) (s : St) : (rtkitFlush env s).line = s.line ∧
    (rtkitFlush env s).k.txq.length ≤ s.k.txq.length := by
  rw [rtkitFlush_eq]
  constructor
  · simp only [St.line, stored_append, stored_map_tx, append_assoc, take_append_drop]
  · simp

/-- A message behind the others, or a full queue. -/
theorem queueMsg_cases (m : Nat) (s : St) : s.k.txq.length = txqSize ∧ queueMsg m s = (false, s) ∨
      s.k.txq.length ≠ txqSize ∧ queueMsg m s = (true, { s with
        k := { s.k with txq := s.k.txq ++ [m] }, sent := s.sent + 1 }) := by
  unfold queueMsg
  split
  case isTrue h => exact .inl ⟨h, rfl⟩
  case isFalse h => exact .inr ⟨h, rfl⟩

/-- The ways out of a send. -/
theorem rtkitSend_cases (env : Env) (m : Nat) (s : St) :
    (∃ r, (maxSend ≤ s.sent ∨ s.k.txq.length = txqSize) ∧
      rtkitSend env m s = (false, { s with reads := r })) ∨
    s.sent < maxSend ∧ s.k.txq = [] ∧ slotFree (env.read s.reads) = true ∧
      rtkitSend env m s = (true, { s with
        sent := s.sent + 1, reads := s.reads + 1,
        trace := s.trace ++ [.tx m] }) ∨
    s.sent < maxSend ∧ s.k.txq.length ≠ txqSize ∧
      (s.k.txq = [] → slotFree (env.read s.reads) = false) ∧
      ∃ r, rtkitSend env m s = (true, { s with
        k := { s.k with txq := s.k.txq ++ [m] }
        sent := s.sent + 1, reads := r }) := by
  unfold rtkitSend
  split
  case isTrue hcap => exact .inl ⟨s.reads, .inl hcap, rfl⟩
  case isFalse hcap =>
    rw [not_le] at hcap
    split
    case isTrue hempty =>
      rw [rtkitTxNow]
      by_cases hfree : slotFree (env.read s.reads) = true
      · rw [if_pos hfree]
        exact .inr (.inl ⟨hcap, hempty, hfree, rfl⟩)
      · rw [if_neg hfree]
        obtain ⟨hfull, heq⟩ | ⟨hroom, heq⟩ := queueMsg_cases m { s with reads := s.reads + 1 }
        · exact .inl ⟨s.reads + 1, .inr hfull, heq⟩
        · exact .inr (.inr ⟨hcap, hroom, fun _ => by simpa using hfree,
            s.reads + 1, heq⟩)
    case isFalse hne =>
      obtain ⟨hfull, heq⟩ | ⟨hroom, heq⟩ := queueMsg_cases m s
      · exact .inl ⟨s.reads, .inr hfull, heq⟩
      · exact .inr (.inr ⟨hcap, hroom, fun h => absurd h hne, s.reads, heq⟩)

/-- A call of the mailbox.  A send names the counter of its caller. -/
inductive Call where
  | send (c m : Nat)
  | flush
  deriving DecidableEq, Repr

/-- A mailbox with the counters of its callers, and what it accepted, with
the counter that it was accepted under. -/
structure Mbox where
  st : St := {}
  cnt : Nat → Nat := fun _ => 0
  accepted : List (Nat × Nat) := []

/-- The state with the counter of another caller. -/
def St.under (s : St) (n : Nat) : St := { s with sent := n }

/-- A send on behalf of counter `c`. -/
def Mbox.send (env : Env) (b : Mbox) (c m : Nat) : Bool × St :=
  rtkitSend env m (b.st.under (b.cnt c))

def Mbox.call (env : Env) (b : Mbox) : Call → Mbox
  | .flush => { b with st := rtkitFlush env b.st }
  | .send c m =>
    let r := b.send env c m
    { st := r.2
      cnt := Function.update b.cnt c r.2.sent
      accepted := if r.1 then b.accepted ++ [(c, m)] else b.accepted }

variable {b : Mbox} {c m : Nat} {st : St}

theorem Mbox.call_send {ok : Bool} (h : b.send env c m = (ok, st)) :
    b.call env (.send c m) = {
      st := st
      cnt := Function.update b.cnt c st.sent
      accepted := if ok then b.accepted ++ [(c, m)] else b.accepted } := by
  simp only [Mbox.call, h]

/-- A sequence of calls. -/
def Mbox.run (env : Env) (calls : List Call) : Mbox :=
  calls.foldl (Mbox.call env) {}

/-- The messages that were accepted under a counter. -/
def Mbox.acceptedBy (b : Mbox) (c : Nat) : List (Nat × Nat) :=
  b.accepted.filter (fun e => e.1 == c)

/-- The mailbox is a queue, and the counters count. -/
structure Mbox.Fifo (b : Mbox) : Prop where
  line : b.st.line = b.accepted.map Prod.snd
  count : ∀ c, b.cnt c = (b.acceptedBy c).length
  cap : ∀ c, b.cnt c ≤ maxSend
  room : b.st.k.txq.length ≤ txqSize

theorem Mbox.Fifo.init : Mbox.Fifo {} where
  line := rfl
  count := fun _ => rfl
  cap := fun _ => Nat.zero_le _
  room := Nat.zero_le _

/-- An accepted message counts once, at its counter. -/
theorem Mbox.Fifo.accept (h : b.Fifo) (hline : st.line = b.st.line ++ [m])
    (hsent : st.sent = b.cnt c + 1) (hcap : b.cnt c < maxSend)
    (hroom : st.k.txq.length ≤ txqSize) :
    Mbox.Fifo {
      st := st
      cnt := Function.update b.cnt c st.sent
      accepted := b.accepted ++ [(c, m)] } where
  line := by
    rw [hline, h.line, map_append]
    rfl
  count := by
    intro d
    have hold := h.count d
    unfold Mbox.acceptedBy at hold ⊢
    rw [filter_append, length_append, ← hold]
    by_cases hd : d = c
    · subst hd
      simp [hsent]
    · simp [hd, Ne.symm hd]
  cap := by
    intro d
    show Function.update b.cnt c st.sent d ≤ maxSend
    by_cases hd : d = c
    · rw [hd, Function.update_self]
      omega
    · rw [Function.update_of_ne hd]
      exact h.cap d
  room := hroom

theorem Mbox.Fifo.call (h : b.Fifo) (env : Env) (call : Call) : (b.call env call).Fifo := by
  cases call with
  | flush =>
    obtain ⟨hline, hlen⟩ := rtkitFlush_line env b.st
    exact ⟨hline.trans h.line, h.count, h.cap, hlen.trans h.room⟩
  | send c m =>
    obtain ⟨r, -, heq⟩ | ⟨hcap, hempty, -, heq⟩ | ⟨hcap, hroom, -, r, heq⟩ :=
      rtkitSend_cases env m (b.st.under (b.cnt c))
    · rw [Mbox.call_send heq]
      refine ⟨h.line, ?_, ?_, h.room⟩
      · simpa [St.under, Mbox.acceptedBy] using h.count
      · simpa [St.under] using h.cap
    · rw [Mbox.call_send heq]
      refine h.accept ?_ rfl hcap h.room
      have hq : b.st.k.txq = [] := hempty
      simp [St.line, St.under, hq]
    · rw [Mbox.call_send heq]
      refine h.accept ?_ rfl hcap ?_
      · simp [St.line, St.under]
      · have hlen := h.room
        have hne : b.st.k.txq.length ≠ txqSize := hroom
        simp only [St.under, length_append, length_cons, length_nil]
        omega

theorem Mbox.Fifo.run (env : Env) (calls : List Call) : (Mbox.run env calls).Fifo := by
  have hfold : ∀ (l : List Call) (b : Mbox), b.Fifo → (l.foldl (Mbox.call env) b).Fifo := by
    intro l
    induction l with
    | nil => exact fun b h => h
    | cons c l ih => exact fun b h => ih _ (h.call env c)
  exact hfold calls {} Mbox.Fifo.init

/-- For any calls and any free and busy slots the mailbox is a queue.  A
counter never accepts more than the cap, and a message is refused only past
the cap or when the queue is full. -/
theorem mbox_fifo (env : Env) (calls : List Call) :
    let b := Mbox.run env calls
    stored b.st.trace ++ b.st.k.txq = b.accepted.map Prod.snd ∧
    (∀ c, (b.acceptedBy c).length ≤ maxSend) ∧
    ∀ c m, (b.send env c m).1 = false →
      (b.acceptedBy c).length = maxSend ∨ b.st.k.txq.length = txqSize := by
  intro b
  have h : b.Fifo := Mbox.Fifo.run env calls
  refine ⟨h.line, fun c => h.count c ▸ h.cap c, ?_⟩
  intro c m hrefused
  obtain ⟨r, hwhy, -⟩ | ⟨-, -, -, heq⟩ | ⟨-, -, -, r, heq⟩ :=
    rtkitSend_cases env m (b.st.under (b.cnt c))
  · obtain hcap | hfull := hwhy
    · left
      have hle := h.cap c
      have hcap : maxSend ≤ b.cnt c := hcap
      rw [← h.count c]
      omega
    · exact .inr hfull
  · rw [Mbox.send, heq] at hrefused
    exact absurd hrefused nofun
  · rw [Mbox.send, heq] at hrefused
    exact absurd hrefused nofun

end Fifo

end OmarchyAne.H18
