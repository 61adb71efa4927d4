import Mathlib.Data.Nat.Bitwise
import Mathlib.Logic.Function.Basic

/-!
# The RTKit session of the H15 module (src/ane/h15/ane_h15_main.c)

The host and the firmware of the engine exchange messages over a mailbox.  The
host answers HELLO and the maps of endpoints, starts endpoints and follows the
power states, and then it shuts the session down.

The device is a stream of register reads: each read gives any value or fails.
So the firmware may send any messages, and any send may fail.  The trace has
what was received and sent, in order, with a mark where the shutdown begins and
one where `app_started` is set.

`ane_h15_chan_run` only matters for its polls of the mailbox.  It is given by
their number and its result.
-/

namespace OmarchyAne.H15

/-! ## Messages -/

def msgHello : Nat := 1
def msgHelloReply : Nat := 2
def msgStartEp : Nat := 5
def msgSetIopPwr : Nat := 6
def msgIopPwrAck : Nat := 7
def msgEpMap : Nat := 8
def msgApPwr : Nat := 0xb
def msgIopIdle : Nat := 0xc

def pwrOff : Nat := 0x00
def pwrSleep : Nat := 0x01
def pwrQuiesced : Nat := 0x10
def pwrOn : Nat := 0x20

/-- `ANE_H15_RTK_APP_EP`, the first endpoint of an application. -/
def appEp : Nat := 0x20

/-- `ANE_H15_RTK_VERSION`. -/
def rtkVersion : Nat := 12

/-- `ANE_H15_RTK_MAXSEND`. -/
def maxSend : Nat := 16

/-- The type of a message, in the bits 59:52. -/
def msgType (m0 : Nat) : Nat := m0 / 2 ^ 52 % 2 ^ 8

/-- The endpoint that a STARTEP message names. -/
def msgEp (m0 : Nat) : Nat := m0 / 2 ^ 32 % 2 ^ 8

def helloReply : Nat := msgHelloReply <<< 52 ||| (rtkVersion <<< 16 ||| rtkVersion)

def epMapReply (m0 : Nat) : Nat :=
  msgEpMap <<< 52 |||
    (m0 &&& 7 <<< 32 ||| if m0.testBit 51 then 1 <<< 51 else 1)

def startEp (i : Nat) : Nat := msgStartEp <<< 52 ||| (i <<< 32 ||| 1 <<< 1)

def apPwr (state : Nat) : Nat := msgApPwr <<< 52 ||| state

def setIopPwr (state : Nat) : Nat := msgSetIopPwr <<< 52 ||| state

/-! ## The state -/

/-- `struct ane_h15_rtk`. -/
structure Rtk where
  hello : Bool := false
  epmapLast : Bool := false
  apSent : Bool := false
  apOn : Bool := false
  appStarted : Bool := false
  shutdown : Bool := false
  apAcked : Bool := false
  iopAcked : Bool := false
  iopIdle : Bool := false
  /-- Eight words of 32 bits. -/
  eps : Nat → Nat := fun _ => 0
  apState : Nat := 0
  iopState : Nat := 0
  sent : Nat := 0
  rx : Nat := 0
  hsRet : Int := 0
  hsDone : Bool := false

/-- The bit of an endpoint. -/
def Rtk.ep (k : Rtk) (i : Nat) : Bool := (k.eps (i / 32)).testBit (i % 32)

inductive Event where
  | rx (m0 m1 : Nat)
  | tx (m0 : Nat)
  /-- The shutdown begins, with the state that is asked of the AP. -/
  | shutdown (apState : Nat)
  /-- `app_started` is set. -/
  | appStarted
  deriving DecidableEq, Repr

structure St where
  k : Rtk := {}
  /-- The number of register reads. -/
  reads : Nat := 0
  trace : List Event := []

/-- The device, the module parameters and the handshake. -/
structure Env where
  /-- The result of each register read.  It is `none` if the read fails. -/
  read : Nat → Option Nat
  /-- The send registers are in the windows. -/
  sendInside : Bool
  /-- `rtkit_wait_ms`. -/
  waitMs : Nat
  /-- `rtkit_stop`. -/
  stop : Nat
  /-- With `chan`, the polls of `ane_h15_chan_run` and its result. -/
  chan : Option (Nat × Int)

section Session

variable (env : Env)

/-! ## Sending -/

/-- The tries for a place in the mailbox.  The result is whether there is one,
or `none` after an error. -/
def waitRoom : Nat → St → Option Bool × St
  | 0, s => (some false, s)
  | n + 1, s =>
    match env.read s.reads with
    | none => (none, { s with reads := s.reads + 1 })
    | some a2i =>
      if a2i.testBit 16 then waitRoom n { s with reads := s.reads + 1 }
      else (some true, { s with reads := s.reads + 1 })

/-- `ane_h15_rtk_send`.  The result is whether it returned 0. -/
def rtkSend (m0 : Nat) (s : St) : Bool × St :=
  if maxSend ≤ s.k.sent then (false, s)
  else if !env.sendInside then (false, s)
  else
    match waitRoom env 10 s with
    | (some true, s) =>
      (true, { s with
        k := { s.k with sent := s.k.sent + 1 }
        trace := s.trace ++ [.tx m0] })
    | (_, s) => (false, s)

/-! ## A message -/

/-- `ane_h15_rtk_system_ep`. -/
def systemEp (ep : Nat) : Bool :=
  ep == 1 || ep == 2 || ep == 3 || ep == 4 || ep == 8 || ep == 0xa

/-- The loop that starts endpoints.  It stops at a send that fails, and the
result is whether it came to the end. -/
def startEps (want : Nat → Bool) : List Nat → St → Bool × St
  | [], s => (true, s)
  | i :: is, s =>
    if s.k.ep i && want i then
      match rtkSend env (startEp i) s with
      | (true, s) => startEps want is s
      | (false, s) => (false, s)
    else startEps want is s

/-- The loop that takes over a map of endpoints. -/
def addEps (base m0 : Nat) (eps : Nat → Nat) : Nat → Nat :=
  (List.range 32).foldl (fun eps i =>
    if m0.testBit i then Function.update eps base (eps base ||| 1 <<< i)
    else eps) eps

def handleHello (m0 : Nat) (s : St) : St :=
  let s := { s with k := { s.k with hello := true } }
  if rtkVersion < m0 % 2 ^ 16 ∨ m0 / 2 ^ 16 % 2 ^ 16 < rtkVersion then s
  else (rtkSend env helloReply s).2

def handleEpMap (m0 : Nat) (s : St) : St :=
  let s := { s with
    k := { s.k with eps := addEps (m0 / 2 ^ 32 % 8) m0 s.k.eps } }
  match rtkSend env (epMapReply m0) s with
  | (false, s) => s
  | (true, s) =>
    if m0.testBit 51 then
      let s := { s with k := { s.k with epmapLast := true } }
      (startEps env systemEp (List.range 256) s).2
    else s

def handleIopAck (m0 : Nat) (s : St) : St :=
  if s.k.shutdown ∧ m0 % 2 ^ 16 = s.k.iopState then
    { s with k := { s.k with iopAcked := true } }
  else if !s.k.shutdown ∧ !s.k.apSent ∧ m0 % 2 ^ 8 = pwrOn then
    match rtkSend env (apPwr pwrOn) s with
    | (true, s) => { s with k := { s.k with apSent := true } }
    | (false, s) => s
  else s

def handleApPwr (m0 : Nat) (s : St) : St :=
  if s.k.shutdown ∧ m0 % 2 ^ 16 = s.k.apState then
    let s := { s with k := { s.k with apAcked := true } }
    (rtkSend env (setIopPwr s.k.iopState) s).2
  else if !s.k.shutdown ∧ m0 % 2 ^ 8 = pwrOn ∧ !s.k.apOn then
    let s := { s with k := { s.k with apOn := true } }
    if !s.k.epmapLast then s
    else
      match startEps env (fun _ => true) (List.range' appEp 224) s with
      | (false, s) => s
      | (true, s) =>
        { s with
          k := { s.k with appStarted := true }
          trace := s.trace ++ [.appStarted] }
  else s

def handleIdle (s : St) : St :=
  if s.k.shutdown then { s with k := { s.k with iopIdle := true } } else s

/-- `ane_h15_rtk_handle`. -/
def rtkHandle (m0 m1 : Nat) (s : St) : St :=
  if m1 % 2 ^ 8 ≠ 0 then s
  else if msgType m0 = msgHello then handleHello env m0 s
  else if msgType m0 = msgEpMap then handleEpMap env m0 s
  else if msgType m0 = msgIopPwrAck then handleIopAck env m0 s
  else if msgType m0 = msgApPwr then handleApPwr env m0 s
  else if msgType m0 = msgIopIdle then handleIdle s
  else s

/-! ## The session -/

/-- A message has been read. -/
def receive (m0 m1 : Nat) (s : St) : St :=
  { s with
    k := { s.k with rx := s.k.rx + 1 }
    trace := s.trace ++ [.rx m0 m1] }

/-- The loop of `ane_h15_rtk_poll_once`, with the messages that it may still
take.  The result is whether no read failed. -/
def pollLoop : Nat → St → Bool × St
  | n, s =>
    match env.read s.reads with
    | none => (false, { s with reads := s.reads + 1 })
    | some i2a =>
      if i2a.testBit 17 then (true, { s with reads := s.reads + 1 })
      else
        match n with
        | 0 => (true, { s with reads := s.reads + 1 })
        | n + 1 =>
          match env.read (s.reads + 1), env.read (s.reads + 2) with
          | some m0, some m1 =>
            pollLoop n (rtkHandle env m0 m1
              (receive m0 m1 { s with reads := s.reads + 3 }))
          | none, _ => (false, { s with reads := s.reads + 2 })
          | some _, none => (false, { s with reads := s.reads + 3 })

/-- `ane_h15_rtk_poll_once`. -/
def pollOnce (s : St) : Bool × St := pollLoop env 4 s

/-- The start phase, with the rounds that are left.  The result is whether no
poll failed. -/
def startPhase : Nat → Nat → St → Bool × St
  | 0, _, s => (true, s)
  | n + 1, settle, s =>
    if 100 ≤ settle then (true, s)
    else
      match pollOnce env s with
      | (false, s) => (false, s)
      | (true, s) =>
        startPhase n (if s.k.appStarted then settle + 10 else settle) s

/-- The polls of `ane_h15_chan_run`, which goes on after an error. -/
def chanPolls : Nat → St → St
  | 0, s => s
  | n + 1, s => chanPolls n (pollOnce env s).2

def chanRun (s : St) : St :=
  match env.chan with
  | none => s
  | some (polls, ret) =>
    if s.k.appStarted then
      let s := chanPolls env polls s
      { s with k := { s.k with hsRet := ret, hsDone := true } }
    else s

/-- The rounds of the shutdown. -/
def shutdownPhase : Nat → St → St
  | 0, s => s
  | n + 1, s =>
    if s.k.iopAcked || s.k.iopIdle then s
    else
      match pollOnce env s with
      | (false, s) => s
      | (true, s) => shutdownPhase n s

/-- The state when the shutdown begins. -/
def beginShutdown (s : St) : St :=
  let ap := if env.stop = 2 then pwrOff else pwrQuiesced
  let iop := if env.stop = 2 then pwrOff else pwrSleep
  { s with
    k := { s.k with shutdown := true, apState := ap, iopState := iop, sent := 0 }
    trace := s.trace ++ [.shutdown ap] }

/-- `ane_h15_rtk_session`.  A round of a phase takes 10 ms. -/
def rtkSession (s : St) : St :=
  match startPhase env ((env.waitMs + 9) / 10) 0 s with
  | (false, s) => s
  | (true, s) =>
    let s := chanRun env s
    if !s.k.apOn then s
    else
      let s := beginShutdown env s
      match rtkSend env (apPwr s.k.apState) s with
      | (false, s) => s
      | (true, s) => shutdownPhase env 60 s

end Session

end OmarchyAne.H15
