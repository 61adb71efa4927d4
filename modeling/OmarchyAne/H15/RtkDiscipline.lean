import OmarchyAne.H15.Rtk
import OmarchyAne.Lib.Past

/-!
# The discipline of the RTKit session

`Rule` says what the host may send after what has happened so far.  The trace of
every session keeps to it (`rtkSession_disciplined`), whatever the device does.

The rules are about the past, and the code decides by its flags.  `Inv` says
what each flag means for the trace: an endpoint has its bit exactly when a map
announced it, the host has not sent AP power ON while `ap_sent` is clear, and it
has started no application endpoint while `ap_on` is clear.
-/

namespace OmarchyAne.H15

open Lib List

variable {state : Nat}

/-! ## The rules -/

/-- An AP power ON message, as the code recognises it. -/
def IsApOn (m0 : Nat) : Prop := msgType m0 = msgApPwr ∧ m0 % 2 ^ 8 = pwrOn

/-- A message of the management endpoint has been received. -/
def Received (pre : List Event) (P : Nat → Prop) : Prop :=
  ∃ m0 m1, .rx m0 m1 ∈ pre ∧ m1 % 2 ^ 8 = 0 ∧ P m0

/-- A map has announced the endpoint. -/
def Announced (pre : List Event) (e : Nat) : Prop :=
  Received pre fun m0 => msgType m0 = msgEpMap ∧ m0 / 2 ^ 32 % 8 = e / 32 ∧
    m0.testBit (e % 32) = true

/-- The endpoint has been started. -/
def Started (pre : List Event) (e : Nat) : Prop :=
  ∃ m0, .tx m0 ∈ pre ∧ msgType m0 = msgStartEp ∧ msgEp m0 = e

/-- The shutdown has begun. -/
def Stopping (pre : List Event) : Prop := ∃ state, .shutdown state ∈ pre

/-- The sends of the phase. -/
def sends (pre : List Event) : Nat :=
  pre.foldl (fun n e =>
    match e with
    | .tx _ => n + 1
    | .shutdown _ => 0
    | _ => n) 0

/-- What a STARTEP message needs: a map with the endpoint, and for an
application endpoint that it is new, that the AP is on and that the session is
not shut down. -/
def StartRule (pre : List Event) (e : Nat) : Prop :=
  Announced pre e ∧
    (appEp ≤ e → ¬ Started pre e ∧ Received pre IsApOn ∧ ¬ Stopping pre)

/-- AP power ON is sent once, and not in the shutdown. -/
def OnRule (pre : List Event) : Prop :=
  (∀ m0, .tx m0 ∈ pre → ¬ IsApOn m0) ∧ ¬ Stopping pre

/-- The IOP request comes after the acknowledgement in the shutdown. -/
def IopRule (pre : List Event) : Prop :=
  ∃ before state after, pre = before ++ .shutdown state :: after ∧
    Received after fun m0 => msgType m0 = msgApPwr ∧ m0 % 2 ^ 16 = state

/-- The reply to HELLO follows a HELLO that offers the version. -/
def HelloRule (pre : List Event) : Prop :=
  ∃ m0 m1, pre.getLast? = some (.rx m0 m1) ∧ m1 % 2 ^ 8 = 0 ∧
    msgType m0 = msgHello ∧ m0 % 2 ^ 16 ≤ 12 ∧ 12 ≤ m0 / 2 ^ 16 % 2 ^ 16

/-- What may happen after `pre`. -/
def Rule (pre : List Event) : Event → Prop
  | .tx m0 =>
    (msgType m0 = msgStartEp → StartRule pre (msgEp m0)) ∧
    (IsApOn m0 → OnRule pre) ∧
    (msgType m0 = msgSetIopPwr → IopRule pre) ∧
    (msgType m0 = msgHelloReply → HelloRule pre) ∧
    sends pre < 16
  | .appStarted => ∀ e, appEp ≤ e → Announced pre e → Started pre e
  | _ => True

/-! ## The messages that the host sends -/

theorem msgType_or {t x : Nat} (ht : t < 2 ^ 8) (hx : x < 2 ^ 52) :
    msgType (t <<< 52 ||| x) = t := by
  rw [msgType, ← Nat.shiftLeft_add_eq_or_of_lt hx, Nat.shiftLeft_eq]
  omega

theorem msgType_startEp {i : Nat} (hi : i < 256) :
    msgType (startEp i) = msgStartEp ∧ msgEp (startEp i) = i := by
  have hor : i <<< 32 ||| 1 <<< 1 = i * 2 ^ 32 + 2 := by
    rw [← Nat.shiftLeft_add_eq_or_of_lt (by decide), Nat.shiftLeft_eq]
    rfl
  rw [startEp, hor]
  refine ⟨msgType_or (by decide) (by omega), ?_⟩
  rw [msgEp, ← Nat.shiftLeft_add_eq_or_of_lt (by omega), Nat.shiftLeft_eq]
  omega

theorem msgType_epMapReply (m0 : Nat) : msgType (epMapReply m0) = msgEpMap := by
  refine msgType_or (by decide) (Nat.or_lt_two_pow ?_ ?_)
  · exact Nat.lt_of_le_of_lt Nat.and_le_right (by decide)
  · split <;> decide

theorem msgType_apPwr (h : state < 2 ^ 52) :
    msgType (apPwr state) = msgApPwr := msgType_or (by decide) h

theorem msgType_setIopPwr (h : state < 2 ^ 52) :
    msgType (setIopPwr state) = msgSetIopPwr := msgType_or (by decide) h

theorem isApOn_apPwr (h : state < 2 ^ 8) : IsApOn (apPwr state) ↔ state = pwrOn := by
  have hlow : apPwr state % 2 ^ 8 = state := by
    rw [apPwr, ← Nat.shiftLeft_add_eq_or_of_lt (by omega), Nat.shiftLeft_eq]
    omega
  rw [IsApOn, msgType_apPwr (by omega), hlow]
  exact and_iff_right rfl

/-! ## Traces -/

section Traces

variable {pre : List Event} {e : Event} {P : Nat → Prop} {m0 : Nat}

theorem past_concat : Past Rule (pre ++ [e]) ↔ Past Rule pre ∧ Rule pre e := by
  rw [past_append, past_cons, append_nil]
  exact and_congr_right fun _ => and_iff_left past_nil

theorem sends_concat : sends (pre ++ [e]) =
    match e with
    | .tx _ => sends pre + 1
    | .shutdown _ => 0
    | _ => sends pre := by
  rw [sends, foldl_append]
  rfl

theorem received_concat {m1 : Nat} : Received (pre ++ [.rx m0 m1]) P ↔
      Received pre P ∨ m1 % 2 ^ 8 = 0 ∧ P m0 := by
  constructor
  · rintro ⟨a, b, hmem, hzero, hP⟩
    rcases mem_append.1 hmem with h | h
    · exact .inl ⟨a, b, h, hzero, hP⟩
    · obtain ⟨rfl, rfl⟩ := Event.rx.inj (mem_singleton.1 h)
      exact .inr ⟨hzero, hP⟩
  · rintro (⟨a, b, hmem, hzero, hP⟩ | ⟨hzero, hP⟩)
    · exact ⟨a, b, mem_append_left _ hmem, hzero, hP⟩
    · exact ⟨m0, m1, mem_append_right _ mem_cons_self, hzero, hP⟩

/-- An event that is not a received message. -/
theorem received_other (he : ∀ m0 m1, e ≠ .rx m0 m1) :
    Received (pre ++ [e]) P ↔ Received pre P := by
  constructor
  · rintro ⟨a, b, hmem, hrest⟩
    rcases mem_append.1 hmem with h | h
    · exact ⟨a, b, h, hrest⟩
    · exact absurd (mem_singleton.1 h).symm (he a b)
  · rintro ⟨a, b, hmem, hrest⟩
    exact ⟨a, b, mem_append_left _ hmem, hrest⟩

/-- An event that is not a sent message. -/
theorem tx_mem_other (he : ∀ m0, e ≠ .tx m0) : .tx m0 ∈ pre ++ [e] ↔ .tx m0 ∈ pre := by
  rw [mem_append, mem_singleton, or_iff_left]
  exact fun heq => he m0 heq.symm

theorem started_other (he : ∀ m0, e ≠ .tx m0) {x : Nat} : Started (pre ++ [e]) x ↔ Started pre x :=
  exists_congr fun _ => and_congr_left fun _ => tx_mem_other he

theorem stopping_other (he : ∀ state, e ≠ .shutdown state) :
    Stopping (pre ++ [e]) ↔ Stopping pre := by
  refine exists_congr fun state => ?_
  rw [mem_append, mem_singleton, or_iff_left]
  exact fun heq => he state heq.symm

end Traces

/-! ## The flags -/

/-- What the flags say about the trace. -/
structure Inv (s : St) : Prop where
  rule : Past Rule s.trace
  sent : s.k.sent = sends s.trace
  eps : ∀ e < 256, s.k.ep e = true ↔ Announced s.trace e
  apSent : s.k.apSent = false → ∀ m0, .tx m0 ∈ s.trace → ¬ IsApOn m0
  apOn : s.k.apOn = false → ∀ e, appEp ≤ e → ¬ Started s.trace e
  running : s.k.shutdown = false → ¬ Stopping s.trace
  stopping : s.k.shutdown = true → .shutdown s.k.apState ∈ s.trace
  iopState : s.k.iopState < 2 ^ 8
  appStarted : s.k.appStarted = true ↔ .appStarted ∈ s.trace

theorem inv_init : Inv {} where
  rule := past_nil
  sent := rfl
  eps := by
    intro e _
    refine iff_of_false (by simp [Rtk.ep]) ?_
    rintro ⟨m0, m1, hmem, -⟩
    cases hmem
  apSent := by simp
  apOn := by
    rintro - e - ⟨m0, hmem, -⟩
    cases hmem
  running := by
    rintro - ⟨state, hmem⟩
    cases hmem
  stopping := by simp
  iopState := by decide
  appStarted := by simp

/-- An event that is neither a sent message nor the shutdown, with the bits of
the endpoints and `app_started` that fit. -/
theorem Inv.mark {s : St} (h : Inv s) {e : Event} {rx : Nat} {eps : Nat → Nat}
    {app : Bool} (htx : ∀ m0, e ≠ .tx m0) (hstop : ∀ state, e ≠ .shutdown state)
    (hrule : Rule s.trace e)
    (heps : ∀ x < 256, (eps (x / 32)).testBit (x % 32) = true ↔ Announced (s.trace ++ [e]) x)
    (happ : app = true ↔ .appStarted ∈ s.trace ++ [e]) :
    Inv { s with
      k := { s.k with rx := rx, eps := eps, appStarted := app }
      trace := s.trace ++ [e] } where
  rule := past_concat.2 ⟨h.rule, hrule⟩
  sent := by
    rw [sends_concat]
    cases e with
    | tx m0 => exact absurd rfl (htx m0)
    | shutdown state => exact absurd rfl (hstop state)
    | rx _ _ => exact h.sent
    | appStarted => exact h.sent
  eps := heps
  apSent := fun hflag m0 hmem => h.apSent hflag m0 ((tx_mem_other htx).1 hmem)
  apOn := fun hflag x hx hstarted =>
    h.apOn hflag x hx ((started_other htx).1 hstarted)
  running := fun hflag hstopping =>
    h.running hflag ((stopping_other hstop).1 hstopping)
  stopping := fun hflag => mem_append_left _ (h.stopping hflag)
  iopState := h.iopState
  appStarted := happ

/-! ## Sending -/

/-- The state after a message has been sent, with the number of reads. -/
def St.push (s : St) (m0 reads : Nat) : St where
  k := { s.k with sent := s.k.sent + 1 }
  reads := reads
  trace := s.trace ++ [.tx m0]

section Send

variable {env : Env} {s : St} {m0 : Nat}

theorem waitRoom_snd (n : Nat) (s : St) : ∃ r, (waitRoom env n s).2 = { s with reads := r } := by
  induction n generalizing s with
  | zero => exact ⟨s.reads, rfl⟩
  | succ n ih =>
    rw [waitRoom]
    split
    · exact ⟨_, rfl⟩
    · split
      · obtain ⟨r, hr⟩ := ih { s with reads := s.reads + 1 }
        exact ⟨r, hr⟩
      · exact ⟨_, rfl⟩

/-- A send fails and only reads, or the message is sent. -/
theorem rtkSend_cases (env : Env) (m0 : Nat) (s : St) : ∃ r,
    rtkSend env m0 s = (false, { s with reads := r }) ∨
      s.k.sent < 16 ∧ rtkSend env m0 s = (true, s.push m0 r) := by
  obtain ⟨r, hr⟩ := @waitRoom_snd env 10 s
  rw [rtkSend]
  split
  · exact ⟨s.reads, .inl rfl⟩
  next hcap =>
  split
  · exact ⟨s.reads, .inl rfl⟩
  refine ⟨r, ?_⟩
  split
  next s' hroom =>
    rw [hroom] at hr
    obtain rfl : s' = { s with reads := r } := hr
    exact .inr ⟨Nat.not_le.1 hcap, rfl⟩
  next room s' _ hroom =>
    rw [hroom] at hr
    obtain rfl : s' = { s with reads := r } := hr
    exact .inl rfl

theorem Inv.reads (h : Inv s) (r : Nat) : Inv { s with reads := r } := { h with }

/-- A message that keeps to the rules and that agrees with the flags. -/
theorem Inv.push (h : Inv s) (r : Nat) (hrule : Rule s.trace (.tx m0))
    (hon : IsApOn m0 → s.k.apSent = true)
    (hstart : msgType m0 = msgStartEp → appEp ≤ msgEp m0 → s.k.apOn = true) :
    Inv (s.push m0 r) where
  rule := past_concat.2 ⟨h.rule, hrule⟩
  sent := by
    rw [St.push, sends_concat, h.sent]
  eps := by
    intro e he
    refine (h.eps e he).trans (received_other ?_).symm
    exact fun _ _ => nofun
  apSent := by
    intro hflag m hmem hm
    rcases mem_append.1 hmem with hold | hnew
    · exact h.apSent hflag m hold hm
    · obtain rfl := Event.tx.inj (mem_singleton.1 hnew)
      exact Bool.false_ne_true (hflag.symm.trans (hon hm))
  apOn := by
    rintro hflag e he ⟨m, hmem, htype, rfl⟩
    rcases mem_append.1 hmem with hold | hnew
    · exact h.apOn hflag _ he ⟨m, hold, htype, rfl⟩
    · obtain rfl := Event.tx.inj (mem_singleton.1 hnew)
      exact Bool.false_ne_true (hflag.symm.trans (hstart htype he))
  running := fun hflag hstopping =>
    h.running hflag ((stopping_other (e := .tx m0) (fun _ => nofun)).1 hstopping)
  stopping := fun hflag => mem_append_left _ (h.stopping hflag)
  iopState := h.iopState
  appStarted := by
    rw [St.push, mem_append, h.appStarted]
    simp

/-- The same for a send with any outcome. -/
theorem Inv.send (h : Inv s) (hrule : s.k.sent < 16 → Rule s.trace (.tx m0))
    (hon : IsApOn m0 → s.k.apSent = true)
    (hstart : msgType m0 = msgStartEp → appEp ≤ msgEp m0 → s.k.apOn = true) :
    Inv (rtkSend env m0 s).2 := by
  obtain ⟨r, heq | ⟨hcap, heq⟩⟩ := rtkSend_cases env m0 s
  · rw [heq]
    exact h.reads r
  · rw [heq]
    exact h.push r (hrule hcap) hon hstart

end Send

/-! ## Receiving -/

section Receive

variable {env : Env} {s : St} {m0 m1 : Nat}

/-- A message that is not a map of endpoints. -/
theorem Inv.receive_other (h : Inv s) (hother : ¬ (m1 % 2 ^ 8 = 0 ∧ msgType m0 = msgEpMap)) :
    Inv (receive m0 m1 s) := by
  refine h.mark (fun _ => nofun) (fun _ => nofun) trivial (fun e he => ?_)
    (by rw [mem_append, h.appStarted]; simp)
  refine (h.eps e he).trans ?_
  rw [Announced, Announced, received_concat, or_iff_left]
  rintro ⟨hzero, htype, -⟩
  exact hother ⟨hzero, htype⟩

theorem testBit_foldl_eps (base m0 w j : Nat) (l : List Nat) (eps : Nat → Nat) :
    (l.foldl (fun eps i =>
      if m0.testBit i then Function.update eps base (eps base ||| 1 <<< i)
      else eps) eps w).testBit j = true ↔
      (eps w).testBit j = true ∨ w = base ∧ j ∈ l ∧ m0.testBit j = true := by
  induction l generalizing eps with
  | nil => simp
  | cons i l ih =>
    rw [foldl_cons, ih, mem_cons]
    by_cases hbit : m0.testBit i = true
    · rw [if_pos hbit]
      by_cases hw : w = base
      · subst hw
        rw [Function.update_self, Nat.testBit_or, Nat.one_shiftLeft,
          Nat.testBit_two_pow, Bool.or_eq_true, decide_eq_true_iff]
        constructor
        · rintro ((hold | rfl) | ⟨-, hmem, hj⟩)
          · exact .inl hold
          · exact .inr ⟨rfl, .inl rfl, hbit⟩
          · exact .inr ⟨rfl, .inr hmem, hj⟩
        · rintro (hold | ⟨-, rfl | hmem, hj⟩)
          · exact .inl (.inl hold)
          · exact .inl (.inr rfl)
          · exact .inr ⟨rfl, hmem, hj⟩
      · rw [Function.update_of_ne hw]
        simp [hw]
    · rw [if_neg hbit]
      constructor
      · rintro (hold | ⟨hw, hmem, hj⟩)
        · exact .inl hold
        · exact .inr ⟨hw, .inr hmem, hj⟩
      · rintro (hold | ⟨hw, rfl | hmem, hj⟩)
        · exact .inl hold
        · exact absurd hj hbit
        · exact .inr ⟨hw, hmem, hj⟩

/-- A map of endpoints, which is taken over. -/
theorem Inv.receive_map (h : Inv s) (hzero : m1 % 2 ^ 8 = 0) (htype : msgType m0 = msgEpMap) :
    Inv { s with
      k := { s.k with
        rx := s.k.rx + 1
        eps := addEps (m0 / 2 ^ 32 % 8) m0 s.k.eps }
      trace := s.trace ++ [.rx m0 m1] } := by
  refine h.mark (fun _ => nofun) (fun _ => nofun) trivial (fun e he => ?_)
    (by rw [mem_append, h.appStarted]; simp)
  have hmem : e % 32 ∈ List.range 32 := mem_range.2 (Nat.mod_lt _ (by decide))
  rw [addEps, testBit_foldl_eps, Announced, received_concat]
  refine or_congr (h.eps e he) ⟨?_, ?_⟩
  · rintro ⟨hw, -, hbit⟩
    exact ⟨hzero, htype, hw.symm, hbit⟩
  · rintro ⟨-, -, hw, hbit⟩
    exact ⟨hw.symm, hmem, hbit⟩

end Receive

/-! ## Starting endpoints -/

section Start

variable {env : Env} {s : St} {i : Nat}

theorem systemEp_lt (h : systemEp i = true) : i < appEp := by
  simp only [systemEp, Bool.or_eq_true, beq_iff_eq] at h
  rw [appEp]
  omega

/-- The message that starts an endpoint keeps to the rules if the endpoint does
so. -/
theorem rule_startEp {pre : List Event} (hi : i < 256) (hrule : StartRule pre i)
    (hcap : sends pre < 16) :
    Rule pre (.tx (startEp i)) := by
  obtain ⟨htype, hep⟩ := msgType_startEp hi
  refine ⟨fun _ => hep.symm ▸ hrule, ?_, ?_, ?_, hcap⟩
  · rintro ⟨hon, -⟩
    cases htype.symm.trans hon
  · intro hiop
    cases htype.symm.trans hiop
  · intro hhello
    cases htype.symm.trans hhello

theorem startEp_not_on (hi : i < 256) : ¬ IsApOn (startEp i) := by
  rintro ⟨hon, -⟩
  cases (msgType_startEp hi).1.symm.trans hon

theorem Inv.startSystem (h : Inv s) {is : List Nat} (his : ∀ i ∈ is, i < 256) :
    Inv (startEps env systemEp is s).2 := by
  induction is generalizing s with
  | nil => exact h
  | cons i is ih =>
    have hi := his i mem_cons_self
    have hrest : ∀ j ∈ is, j < 256 :=
      fun j hj => his j (mem_cons_of_mem i hj)
    rw [startEps]
    split
    next hwant =>
      rw [Bool.and_eq_true] at hwant
      have hlow := systemEp_lt hwant.2
      have hsend : Inv (rtkSend env (startEp i) s).2 := by
        refine h.send (fun hcap => ?_) (fun hon => ?_) (fun _ happ => ?_)
        · refine rule_startEp hi ⟨(h.eps i hi).1 hwant.1, fun happ => ?_⟩
            (h.sent ▸ hcap)
          omega
        · exact absurd hon (startEp_not_on hi)
        · rw [(msgType_startEp hi).2] at happ
          omega
      split
      next s' heq =>
        rw [heq] at hsend
        exact ih hsend hrest
      next s' heq =>
        rw [heq] at hsend
        exact hsend
    next => exact ih h hrest

/-- The application endpoints from `i` on, none of which has been started. -/
theorem Inv.startApps (h : Inv s) (hap : s.k.apOn = true)
    (hrun : s.k.shutdown = false) (hon : Received s.trace IsApOn) (n i : Nat)
    (hi : appEp ≤ i) (hn : i + n ≤ 256)
    (hfresh : ∀ e, i ≤ e → ¬ Started s.trace e) :
    ∃ done s', startEps env (fun _ => true) (List.range' i n) s = (done, s') ∧
      Inv s' ∧ s'.k.ep = s.k.ep ∧ s.trace ⊆ s'.trace ∧
      (done = true → ∀ e, i ≤ e → e < i + n → s.k.ep e = true → Started s'.trace e) := by
  induction n generalizing i s with
  | zero =>
    exact ⟨true, s, rfl, h, rfl, List.Subset.refl _, fun _ e hle hlt => by omega⟩
  | succ n ih =>
    rw [range'_succ, startEps, Bool.and_true]
    by_cases hep : s.k.ep i = true
    · rw [if_pos hep]
      obtain ⟨htype, hmsg⟩ := msgType_startEp (show i < 256 by omega)
      obtain ⟨r, heq | ⟨hcap, heq⟩⟩ := rtkSend_cases env (startEp i) s
      · rw [heq]
        exact ⟨false, _, rfl, h.reads r, rfl, List.Subset.refl _, nofun⟩
      · have hrule : StartRule s.trace i :=
          ⟨(h.eps i (by omega)).1 hep, fun _ =>
            ⟨hfresh i (Nat.le_refl i), hon, h.running hrun⟩⟩
        have hpush := h.push r (rule_startEp (show i < 256 by omega) hrule (h.sent ▸ hcap))
          (fun hon => absurd hon (startEp_not_on (by omega)))
          (fun _ _ => hap)
        have hgrow : s.trace ⊆ (s.push (startEp i) r).trace := subset_append_left _ _
        obtain ⟨done, s', hloop, hinv, hsame, hsub, hall⟩ :=
          ih hpush hap hrun
            (by
              obtain ⟨a, b, hmem, hrest⟩ := hon
              exact ⟨a, b, hgrow hmem, hrest⟩)
            (i + 1) (by omega) (by omega) (by
              rintro e he ⟨m, hmem, hm, rfl⟩
              rcases mem_append.1 hmem with hold | hnew
              · exact hfresh _ (by omega) ⟨m, hold, hm, rfl⟩
              · obtain rfl := Event.tx.inj (mem_singleton.1 hnew)
                omega)
        rw [heq]
        refine ⟨done, s', hloop, hinv, hsame,
          List.Subset.trans hgrow hsub, fun hdone e hle hlt he => ?_⟩
        rcases Nat.eq_or_lt_of_le hle with rfl | hlater
        · exact ⟨startEp i, hsub (mem_append_right _ mem_cons_self), htype, hmsg⟩
        · exact hall hdone e (by omega) (by omega) he
    · rw [if_neg hep]
      obtain ⟨done, s', hloop, hinv, hsame, hsub, hall⟩ :=
        ih h hap hrun hon (i + 1) (by omega) (by omega) (fun e he => hfresh e (by omega))
      refine ⟨done, s', hloop, hinv, hsame, hsub, fun hdone e hle hlt he => ?_⟩
      rcases Nat.eq_or_lt_of_le hle with rfl | hlater
      · exact absurd he hep
      · exact hall hdone e (by omega) (by omega) he

end Start

/-! ## A message -/

section Handle

variable {env : Env} {s : St} {m0 m1 : Nat} {pre : List Event}

/-- A message of a type that no rule is about. -/
theorem rule_tx_plain {m : Nat} (hstart : msgType m ≠ msgStartEp)
    (hon : ¬ IsApOn m) (hiop : msgType m ≠ msgSetIopPwr)
    (hhello : msgType m ≠ msgHelloReply) (hcap : sends pre < 16) :
    Rule pre (.tx m) :=
  ⟨fun h => absurd h hstart, fun h => absurd h hon, fun h => absurd h hiop,
    fun h => absurd h hhello, hcap⟩

theorem Inv.hello (h : Inv s) (hzero : m1 % 2 ^ 8 = 0) (htype : msgType m0 = msgHello) :
    Inv (handleHello env m0 (receive m0 m1 s)) := by
  have hrx : Inv (receive m0 m1 s) := by
    refine h.receive_other ?_
    rintro ⟨-, hmap⟩
    cases htype.symm.trans hmap
  have hflag : Inv { receive m0 m1 s with
      k := { (receive m0 m1 s).k with hello := true } } := { hrx with }
  have hreply : msgType helloReply = msgHelloReply := by decide
  rw [handleHello]
  simp only
  split
  · exact hflag
  next hrange =>
  rw [not_or, Nat.not_lt, Nat.not_lt] at hrange
  refine hflag.send (fun hcap => ⟨?_, ?_, ?_, ?_, ?_⟩) (fun hon => ?_) (fun hstart _ => ?_)
  · intro hstart
    cases hreply.symm.trans hstart
  · rintro ⟨hon, -⟩
    cases hreply.symm.trans hon
  · intro hiop
    cases hreply.symm.trans hiop
  · intro _
    exact ⟨m0, m1, getLast?_concat, hzero, htype, hrange⟩
  · exact hflag.sent ▸ hcap
  · cases hreply.symm.trans hon.1
  · cases hreply.symm.trans hstart

theorem Inv.epMap (h : Inv s) (hzero : m1 % 2 ^ 8 = 0) (htype : msgType m0 = msgEpMap) :
    Inv (handleEpMap env m0 (receive m0 m1 s)) := by
  have hrx := h.receive_map hzero htype
  have hreply := msgType_epMapReply m0
  have hon : ¬ IsApOn (epMapReply m0) := by
    rintro ⟨hon, -⟩
    cases hreply.symm.trans hon
  have hstart : msgType (epMapReply m0) ≠ msgStartEp := by
    rw [hreply]
    decide
  have hsend : Inv (rtkSend env (epMapReply m0) _).2 := hrx.send
    (fun hcap => rule_tx_plain hstart hon (by rw [hreply]; decide)
      (by rw [hreply]; decide) (hrx.sent ▸ hcap))
    (fun h => absurd h hon) (fun h => absurd h hstart)
  rw [handleEpMap]
  simp only
  split
  next s' heq =>
    exact (congrArg (fun r => Inv r.2) heq).mp hsend
  next s' heq =>
    have hs' : Inv s' := (congrArg (fun r => Inv r.2) heq).mp hsend
    split
    · refine Inv.startSystem (s := { s' with
        k := { s'.k with epmapLast := true } }) { hs' with } ?_
      exact fun i hi => mem_range.1 hi
    · exact hs'

theorem Inv.iopAck (h : Inv s) : Inv (handleIopAck env m0 s) := by
  rw [handleIopAck]
  split
  · exact { h with }
  split
  next hflags =>
    obtain ⟨hrun, hsent, -⟩ := hflags
    rw [Bool.not_eq_true'] at hrun hsent
    obtain ⟨r, heq | ⟨hcap, heq⟩⟩ := rtkSend_cases env (apPwr pwrOn) s
    · rw [heq]
      exact h.reads r
    · rw [heq]
      have htype : msgType (apPwr pwrOn) = msgApPwr := by decide
      -- The flag may be set first, since it promises less.
      have hflag : Inv { s with k := { s.k with apSent := true } } :=
        { h with apSent := fun hflag => by cases hflag }
      refine hflag.push r ⟨?_, fun _ => ?_, ?_, ?_, ?_⟩ (fun _ => rfl) ?_
      · intro hstart
        cases htype.symm.trans hstart
      · exact ⟨h.apSent hsent, h.running hrun⟩
      · intro hiop
        cases htype.symm.trans hiop
      · intro hhello
        cases htype.symm.trans hhello
      · exact h.sent ▸ hcap
      · intro hstart
        cases htype.symm.trans hstart
  next => exact h

theorem announced_lt {e : Nat} (h : Announced pre e) : e < 256 := by
  obtain ⟨m, -, -, -, -, hbase, -⟩ := h
  omega

theorem Inv.apAck (h : Inv s) (hzero : m1 % 2 ^ 8 = 0) (htype : msgType m0 = msgApPwr) :
    Inv (handleApPwr env m0 (receive m0 m1 s)) := by
  have hrx : Inv (receive m0 m1 s) := by
    refine h.receive_other ?_
    rintro ⟨-, hmap⟩
    cases htype.symm.trans hmap
  rw [handleApPwr]
  split
  next hack =>
    obtain ⟨hstop, hstate⟩ := hack
    have hflag : Inv { receive m0 m1 s with
        k := { (receive m0 m1 s).k with apAcked := true } } := { hrx with }
    have hsmall : s.k.iopState < 2 ^ 52 := Nat.lt_trans h.iopState (by decide)
    have hmsg : msgType (setIopPwr s.k.iopState) = msgSetIopPwr := msgType_setIopPwr hsmall
    refine hflag.send (fun hcap => ⟨?_, ?_, ?_, ?_, ?_⟩) (fun hon => ?_) (fun hstart _ => ?_)
    · intro hstart
      cases hmsg.symm.trans hstart
    · rintro ⟨hon, -⟩
      cases hmsg.symm.trans hon
    · intro _
      obtain ⟨before, after, htrace⟩ := append_of_mem (h.stopping hstop)
      refine ⟨before, s.k.apState, after ++ [.rx m0 m1], ?_, m0, m1,
        mem_append_right _ mem_cons_self, hzero, htype, hstate⟩
      show s.trace ++ [.rx m0 m1] = _
      rw [htrace, append_assoc, cons_append]
    · intro hhello
      cases hmsg.symm.trans hhello
    · exact hflag.sent ▸ hcap
    · cases hmsg.symm.trans hon.1
    · cases hmsg.symm.trans hstart
  split
  next hflags =>
    obtain ⟨hrun, hstate, hfirst⟩ := hflags
    rw [Bool.not_eq_true'] at hrun hfirst
    have hflag : Inv { receive m0 m1 s with
        k := { (receive m0 m1 s).k with apOn := true } } :=
      { hrx with apOn := fun hflag => by cases hflag }
    simp only
    split
    · exact hflag
    obtain ⟨done, s', hloop, hinv, hep, -, hall⟩ := hflag.startApps rfl hrun
      ⟨m0, m1, mem_append_right _ mem_cons_self, hzero, htype, hstate⟩
      224 appEp le_rfl (by decide)
      (fun e he => hrx.apOn hfirst e he)
    rw [hloop]
    cases done with
    | false => exact hinv
    | true =>
      refine hinv.mark (fun _ => nofun) (fun _ => nofun) (fun e he hann => ?_)
        (fun e he => (hinv.eps e he).trans
          (received_other (e := .appStarted) (fun _ _ => nofun)).symm)
        (by simp)
      have hlt := announced_lt hann
      have hbit := (hinv.eps e hlt).2 hann
      rw [hep] at hbit
      exact hall rfl e he (by rw [appEp]; omega) hbit
  next => exact hrx

/-- A message is handled after it has been received. -/
theorem Inv.handle (h : Inv s) : Inv (rtkHandle env m0 m1 (receive m0 m1 s)) := by
  rw [rtkHandle]
  split
  next hother => exact h.receive_other fun hmap => hother hmap.1
  next hzero =>
  rw [ne_eq, not_not] at hzero
  split
  next htype => exact h.hello hzero htype
  split
  next htype => exact h.epMap hzero htype
  next hmap =>
  have hrx : Inv (receive m0 m1 s) := h.receive_other fun hboth => hmap hboth.2
  split
  · exact hrx.iopAck
  split
  next htype => exact h.apAck hzero htype
  split
  · rw [handleIdle]
    split
    · exact { hrx with }
    · exact hrx
  · exact hrx

end Handle

/-! ## The session -/

section Session

variable {env : Env} {s : St}

theorem Inv.poll (h : Inv s) (n : Nat) : Inv (pollLoop env n s).2 := by
  induction n generalizing s with
  | zero =>
    rw [pollLoop]
    split
    · exact h.reads _
    · split
      · exact h.reads _
      · exact h.reads _
  | succ n ih =>
    rw [pollLoop]
    split
    · exact h.reads _
    split
    · exact h.reads _
    split
    · exact ih (h.reads _).handle
    · exact h.reads _
    · exact h.reads _

theorem Inv.startRounds (h : Inv s) (n settle : Nat) : Inv (startPhase env n settle s).2 := by
  induction n generalizing settle s with
  | zero => exact h
  | succ n ih =>
    have hpoll := @Inv.poll env s h 4
    rw [startPhase]
    split
    · exact h
    rw [pollOnce]
    split
    next s' heq =>
      rw [heq] at hpoll
      exact hpoll
    next s' heq =>
      rw [heq] at hpoll
      exact ih hpoll _

theorem Inv.chanRounds (h : Inv s) (n : Nat) : Inv (chanPolls env n s) := by
  induction n generalizing s with
  | zero => exact h
  | succ n ih => exact ih (h.poll 4)

theorem Inv.chan (h : Inv s) : Inv (chanRun env s) := by
  rw [chanRun]
  split
  · exact h
  split
  · exact { h.chanRounds _ with }
  · exact h

theorem Inv.stopRounds (h : Inv s) (n : Nat) : Inv (shutdownPhase env n s) := by
  induction n generalizing s with
  | zero => exact h
  | succ n ih =>
    have hpoll := @Inv.poll env s h 4
    rw [shutdownPhase]
    split
    · exact h
    rw [pollOnce]
    split
    next s' heq =>
      rw [heq] at hpoll
      exact hpoll
    next s' heq =>
      rw [heq] at hpoll
      exact ih hpoll

theorem Inv.stopBegins (h : Inv s) : Inv (beginShutdown env s) where
  rule := past_concat.2 ⟨h.rule, trivial⟩
  sent := by
    rw [beginShutdown, sends_concat]
  eps := fun x hx => (h.eps x hx).trans (received_other (e := .shutdown _) (fun _ _ => nofun)).symm
  apSent := fun hflag m0 hmem =>
    h.apSent hflag m0 ((tx_mem_other (e := .shutdown _) (fun _ => nofun)).1 hmem)
  apOn := fun hflag x hx hstarted => h.apOn hflag x hx
    ((started_other (e := .shutdown _) (fun _ => nofun)).1 hstarted)
  running := fun hflag => by cases hflag
  stopping := fun _ => mem_append_right _ mem_cons_self
  iopState := by
    rw [beginShutdown]
    simp only
    split <;> decide
  appStarted := by
    rw [beginShutdown, mem_append, h.appStarted]
    simp

theorem Inv.session (h : Inv s) : Inv (rtkSession env s) := by
  have hstart := @Inv.startRounds env s h ((env.waitMs + 9) / 10) 0
  rw [rtkSession]
  split
  next s1 heq =>
    rw [heq] at hstart
    exact hstart
  next s1 heq =>
  rw [heq] at hstart
  have hchan := @Inv.chan env s1 hstart
  simp only
  split
  · exact hchan
  have hbegin := @Inv.stopBegins env _ hchan
  have hstate : (beginShutdown env (chanRun env s1)).k.apState < 2 ^ 8 ∧
      (beginShutdown env (chanRun env s1)).k.apState ≠ pwrOn := by
    rw [beginShutdown]
    simp only
    split <;> decide
  have htype : msgType (apPwr (beginShutdown env (chanRun env s1)).k.apState) =
      msgApPwr := msgType_apPwr (Nat.lt_trans hstate.1 (by decide))
  have hon := mt (isApOn_apPwr hstate.1).1 hstate.2
  have hsend : Inv (rtkSend env (apPwr _) _).2 := hbegin.send
    (fun hcap => rule_tx_plain (by rw [htype]; decide) hon
      (by rw [htype]; decide) (by rw [htype]; decide) (hbegin.sent ▸ hcap))
    (fun h => absurd h hon) (fun h => nomatch htype.symm.trans h)
  split
  next s2 heq2 =>
    exact (congrArg (fun r => Inv r.2) heq2).mp hsend
  next s2 heq2 =>
    exact ((congrArg (fun r => Inv r.2) heq2).mp hsend).stopRounds 60

end Session

/-- Every session keeps to the rules, and `app_started` is set where the trace
says so. -/
theorem rtkSession_disciplined (env : Env) : Past Rule (rtkSession env {}).trace ∧
      ((rtkSession env {}).k.appStarted = true ↔ .appStarted ∈ (rtkSession env {}).trace) :=
  ⟨inv_init.session.rule, inv_init.session.appStarted⟩

end OmarchyAne.H15
