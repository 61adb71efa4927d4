import OmarchyAne.H18.Rtk

/-!
# The shutdown of the H18 session

Once the shutdown has begun, the host must not ask for AP power ON and must
not start an application endpoint.  A round of the shutdown can do so in two
ways (`RoundQuiet`).

* A message of that kind is still queued, and a TX slot is free for it.
* The firmware acknowledges the IOP power state ON and the host has not sent
  AP power ON yet.  The branch that answers it does not look at
  `rtk_shutdown`.

The second way needs no delay.  `rtk_ap_on` lets the shutdown begin, and an
acknowledgement of AP power ON sets it even if the host never asked.

`Moves` is the step relation of the proofs: it says what a part of the session
stores in TX and that it leaves the flags of the shutdown alone.
-/

namespace OmarchyAne.H18

open List

open OmarchyAne.H15 (msgHello msgEpMap msgIopPwrAck msgApPwr msgIopIdle
  msgStartEp msgSetIopPwr msgHelloReply msgType msgEp rtkVersion helloReply
  epMapReply startEp apPwr setIopPwr pwrOn pwrOff pwrSleep pwrQuiesced appEp
  systemEp IsApOn msgType_startEp msgType_epMapReply msgType_setIopPwr
  systemEp_lt isApOn_apPwr msgType_apPwr)

/-- The message asks for AP power ON or starts an application endpoint. -/
def Wakes (m : Nat) : Prop :=
  IsApOn m ∨ msgType m = msgStartEp ∧ appEp ≤ msgEp m

/-- Nothing that is stored behind the mark of the shutdown wakes the AP. -/
def Quiet (trace : List Event) : Prop :=
  ∀ pre post, trace = pre ++ .shutdown :: post →
    ∀ m ∈ stored post, ¬ Wakes m

/-! ## The condition -/

/-- The message acknowledges the IOP power state ON, and the host answers it
with AP power ON. -/
def AnswersOn (env : Env) (k : Rtk) (m0 m1 : Nat) : Prop :=
  env.hello = true ∧ env.start = true ∧ m1 % 2 ^ 8 = 0 ∧
    msgType m0 = msgIopPwrAck ∧ m0 % 2 ^ 8 = pwrOn ∧
    m0 % 2 ^ 16 ≠ k.iopState ∧ k.apSent = false

/-- What a round of the shutdown must meet, in the state before it.  No
message that goes out of the queue wakes the AP.  If all of them go out, the
answer with AP power ON does not find its way into TX. -/
def RoundQuiet (env : Env) (s : St) : Prop :=
  env.inside = true →
    (∀ m ∈ s.k.txq.take (freeSlots env s.reads s.k.txq), ¬ Wakes m) ∧
    let r := s.reads + s.k.txq.length
    (freeSlots env s.reads s.k.txq = s.k.txq.length → rxWaits (env.read r) = true →
      AnswersOn env s.k (env.read (r + 1)) (env.read (r + 2)) →
      s.sent < maxSend → slotFree (env.read (r + 3)) = false)

/-- Every round of the shutdown meets the condition. -/
def RoundsQuiet (env : Env) : Nat → St → Prop
  | 0, _ => True
  | n + 1, s => s.k.iopAcked = false → s.k.iopIdle = false →
    RoundQuiet env s ∧ RoundsQuiet env n (rtkitStep env s)

/-- The state in which the shutdown begins. -/
def shutdownStart (env : Env) : St :=
  beginShutdown env (drainRounds env 60 (bootPhase env {}))

/-- If the session comes to the rounds of the shutdown, they all meet the
condition. -/
def ShutdownQuiet (env : Env) : Prop :=
  env.stop ≠ 0 → (bootPhase env {}).k.apOn = true →
    let r := rtkitSend env (apPwr (shutdownStart env).k.apState)
      (shutdownStart env)
    r.1 = true → RoundsQuiet env 60 r.2

/-! ## What a part of the session stores -/

/-- From `s` to `s'` the messages `ms` are stored, in that order, and the
flags of the shutdown stay. -/
structure Moves (ms : List Nat) (s s' : St) : Prop where
  trace : ∃ ext, s'.trace = s.trace ++ ext ∧ stored ext = ms ∧
    .shutdown ∉ ext
  shutdown : s'.k.shutdown = s.k.shutdown
  iopState : s'.k.iopState = s.k.iopState

section Moves

variable {env : Env} {s s' t : St} {m m0 m1 : Nat} {ms ms' : List Nat}

/-- Nothing is stored. -/
theorem Moves.none (htrace : s'.trace = s.trace) (hshutdown : s'.k.shutdown = s.k.shutdown)
    (hiop : s'.k.iopState = s.k.iopState) : Moves [] s s' :=
  ⟨⟨[], by rw [htrace, append_nil], rfl, not_mem_nil⟩, hshutdown, hiop⟩

theorem Moves.trans (h : Moves ms s s') (h' : Moves ms' s' t) : Moves (ms ++ ms') s t := by
  obtain ⟨ext, htrace, hstored, hmark⟩ := h.trace
  obtain ⟨ext', htrace', hstored', hmark'⟩ := h'.trace
  refine ⟨⟨ext ++ ext', ?_, ?_, ?_⟩, h'.shutdown.trans h.shutdown, h'.iopState.trans h.iopState⟩
  · rw [htrace', htrace, append_assoc]
  · rw [stored_append, hstored, hstored']
  · rw [mem_append]
    exact fun h => h.elim hmark hmark'

/-- A start that only differs in other fields. -/
theorem Moves.start (h : Moves ms t s') (htrace : t.trace = s.trace)
    (hshutdown : t.k.shutdown = s.k.shutdown)
    (hiop : t.k.iopState = s.k.iopState) : Moves ms s s' :=
  ⟨htrace ▸ h.trace, h.shutdown.trans hshutdown, h.iopState.trans hiop⟩

/-- A send stores its message, or nothing. -/
theorem rtkitSend_moves (env : Env) (m : Nat) (s : St) :
    ∃ ms, Moves ms s (rtkitSend env m s).2 ∧ (∀ x ∈ ms, x = m) ∧
      (ms = [] ↔ ¬(s.sent < maxSend ∧ s.k.txq = [] ∧ slotFree (env.read s.reads) = true)) := by
  obtain ⟨r, hwhy, heq⟩ | ⟨hcap, hempty, hfree, heq⟩ |
    ⟨-, hroom, hbusy, r, heq⟩ := rtkitSend_cases env m s
  · rw [heq]
    refine ⟨[], .none rfl rfl rfl, by simp, iff_of_true rfl ?_⟩
    rintro ⟨hcap, hempty, -⟩
    obtain hwhy | hwhy := hwhy
    · omega
    · rw [hempty] at hwhy
      exact absurd hwhy (by decide)
  · rw [heq]
    exact ⟨[m], ⟨⟨[.tx m], rfl, rfl, by simp⟩, rfl, rfl⟩, by simp,
      iff_of_false (by simp) (not_not_intro ⟨hcap, hempty, hfree⟩)⟩
  · rw [heq]
    refine ⟨[], .none rfl rfl rfl, by simp, iff_of_true rfl ?_⟩
    rintro ⟨-, hempty, hfree⟩
    exact Bool.false_ne_true ((hbusy hempty).symm.trans hfree)

theorem startEps_moves (want : Nat → Bool) (is : List Nat) (s : St) :
    ∃ ms, Moves ms s (startEps env want is s) ∧
      ∀ x ∈ ms, ∃ i ∈ is, want i = true ∧ x = startEp i := by
  induction is generalizing s with
  | nil => exact ⟨[], .none rfl rfl rfl, by simp⟩
  | cons i is ih =>
    rw [startEps]
    split
    case isTrue hwant =>
      obtain ⟨ms, hsend, hms, -⟩ := rtkitSend_moves env (startEp i) s
      have hfirst : ∀ x ∈ ms, ∃ j ∈ i :: is, want j = true ∧
          x = startEp j := fun x hx =>
        ⟨i, mem_cons_self, (Bool.and_eq_true_iff.mp hwant).2, hms x hx⟩
      split
      case h_1 s₁ heq =>
        rw [heq] at hsend
        obtain ⟨ms', hrest, hms'⟩ := ih s₁
        refine ⟨ms ++ ms', hsend.trans hrest, fun x hx => ?_⟩
        obtain hx | hx := mem_append.mp hx
        · exact hfirst x hx
        · obtain ⟨j, hj, hwj, rfl⟩ := hms' x hx
          exact ⟨j, mem_cons_of_mem _ hj, hwj, rfl⟩
      case h_2 s₁ heq =>
        rw [heq] at hsend
        exact ⟨ms, hsend, hfirst⟩
    case isFalse =>
      obtain ⟨ms, hrest, hms⟩ := ih s
      refine ⟨ms, hrest, fun x hx => ?_⟩
      obtain ⟨j, hj, hwj, rfl⟩ := hms x hx
      exact ⟨j, mem_cons_of_mem _ hj, hwj, rfl⟩

theorem rtkitFlush_moves (env : Env) (s : St) :
    Moves (s.k.txq.take (freeSlots env s.reads s.k.txq)) s (rtkitFlush env s) := by
  rw [rtkitFlush_eq]
  refine ⟨⟨_, rfl, stored_map_tx _, fun hmark => ?_⟩, rfl, rfl⟩
  obtain ⟨m, -, hm⟩ := mem_map.mp hmark
  exact absurd hm nofun

/-! ## What a message makes the host store -/

/-- The shutdown is under way. -/
def Stopping (s : St) : Prop :=
  s.k.shutdown = true ∧ s.k.iopState ≤ 1

theorem Moves.stopping (h : Moves ms s s') (hs : Stopping s) : Stopping s' :=
  ⟨h.shutdown.trans hs.1, h.iopState.symm ▸ hs.2⟩

theorem not_wakes_of_type (hap : msgType m ≠ msgApPwr)
    (hstart : msgType m ≠ msgStartEp) : ¬ Wakes m := by
  rintro (⟨htype, -⟩ | ⟨htype, -⟩)
  · exact hap htype
  · exact hstart htype

theorem wakes_apOn : Wakes (apPwr pwrOn) := .inl ((isApOn_apPwr (by decide)).mpr rfl)

theorem not_wakes_apPwr {state : Nat} (hlt : state < 2 ^ 8)
    (hne : state ≠ pwrOn) : ¬ Wakes (apPwr state) := by
  rintro (hon | ⟨htype, -⟩)
  · exact hne ((isApOn_apPwr hlt).mp hon)
  · rw [msgType_apPwr (by omega)] at htype
    exact absurd htype (by decide)

theorem not_wakes_system {i : Nat} (hi : i < 256)
    (hsys : systemEp i = true) : ¬ Wakes (startEp i) := by
  obtain ⟨htype, hep⟩ := msgType_startEp hi
  rintro (⟨hap, -⟩ | ⟨-, happ⟩)
  · rw [htype] at hap
    exact absurd hap (by decide)
  · have := systemEp_lt hsys
    omega

theorem handleHello_moves (env : Env) (m0 : Nat) (s : St) :
    ∃ ms, Moves ms s (handleHello env m0 s) ∧ ∀ x ∈ ms, ¬ Wakes x := by
  unfold handleHello
  split
  · exact ⟨[], .none rfl rfl rfl, by simp⟩
  · obtain ⟨ms, hmoves, hms, -⟩ := rtkitSend_moves env helloReply s
    refine ⟨ms, hmoves, fun x hx => ?_⟩
    rw [hms x hx]
    exact not_wakes_of_type (by decide) (by decide)

theorem handleEpMap_moves (env : Env) (m0 : Nat) (s : St) :
    ∃ ms, Moves ms s (handleEpMap env m0 s) ∧ ∀ x ∈ ms, ¬ Wakes x := by
  unfold handleEpMap
  obtain ⟨ms, hsend, hms, -⟩ := rtkitSend_moves env (epMapReply m0)
    { s with k := { s.k with eps := addEps (m0 / 2 ^ 32 % 8) m0 s.k.eps } }
  have hreply : ∀ x ∈ ms, ¬ Wakes x := by
    intro x hx
    rw [hms x hx]
    apply not_wakes_of_type <;> rw [msgType_epMapReply] <;> decide
  replace hsend := hsend.start (s := s) rfl rfl rfl
  simp only
  split
  case h_1 s₁ heq =>
    rw [heq] at hsend
    exact ⟨ms, hsend, hreply⟩
  case h_2 s₁ heq =>
    rw [heq] at hsend
    split
    · obtain ⟨ms', hrest, hms'⟩ :=
        @startEps_moves env systemEp (List.range 256) s₁
      refine ⟨ms ++ ms', hsend.trans hrest, fun x hx => ?_⟩
      obtain hx | hx := mem_append.mp hx
      · exact hreply x hx
      · obtain ⟨i, hi, hsys, rfl⟩ := hms' x hx
        exact not_wakes_system (mem_range.mp hi) hsys
    · exact ⟨ms, hsend, hreply⟩

/-- The branch of the AP power state that starts application endpoints does
not run in the shutdown. -/
theorem handleApPwr_moves (env : Env) (m0 : Nat) (s : St) :
    ∃ ms, Moves ms s (handleApPwr env m0 s) ∧ (Stopping s → ∀ x ∈ ms, ¬ Wakes x) := by
  unfold handleApPwr
  split
  · obtain ⟨ms, hsend, hms, -⟩ := rtkitSend_moves env
      (setIopPwr s.k.iopState) { s with k := { s.k with apAcked := true } }
    refine ⟨ms, hsend.start rfl rfl rfl, ?_⟩
    intro hs x hx
    rw [hms x hx]
    have hlt : s.k.iopState < 2 ^ 52 := by
      have := hs.2
      omega
    apply not_wakes_of_type <;> rw [msgType_setIopPwr hlt] <;> decide
  · split
    case isTrue hon =>
      obtain ⟨ms, hrest, -⟩ := @startEps_moves env (fun _ => true) (List.range' appEp 224)
        { s with k := { s.k with apOn := true, appStarted := true } }
      refine ⟨ms, hrest.start rfl rfl rfl, ?_⟩
      intro hs
      exact absurd hon.2.1 (by simp [hs.1])
    case isFalse => exact ⟨[], .none rfl rfl rfl, by simp⟩

/-- In the shutdown the acknowledgement of an IOP power state wakes the AP
exactly if it is answered with AP power ON and the answer is stored. -/
theorem handleIopAck_moves (env : Env) (m0 : Nat) (s : St) :
    ∃ ms, Moves ms s (handleIopAck env m0 s) ∧
      (Stopping s → ((∀ x ∈ ms, ¬ Wakes x) ↔ (env.start = true → m0 % 2 ^ 8 = pwrOn →
          m0 % 2 ^ 16 ≠ s.k.iopState → s.k.apSent = false →
          ¬(s.sent < maxSend ∧ s.k.txq = [] ∧ slotFree (env.read s.reads) = true)))) := by
  unfold handleIopAck
  split
  case isTrue hack =>
    refine ⟨[], .none rfl rfl rfl, fun _ => iff_of_true (by simp) ?_⟩
    exact fun _ _ hne => absurd hack.2 hne
  case isFalse hack =>
    split
    case isTrue hon =>
      obtain ⟨ms, hsend, hms, hempty⟩ := rtkitSend_moves env (apPwr pwrOn) s
      have hquiet : Stopping s → ((∀ x ∈ ms, ¬ Wakes x) ↔
          (env.start = true → m0 % 2 ^ 8 = pwrOn → m0 % 2 ^ 16 ≠ s.k.iopState → s.k.apSent = false →
            ¬(s.sent < maxSend ∧ s.k.txq = [] ∧
              slotFree (env.read s.reads) = true))) := by
        intro hs
        obtain ⟨hstart, hsent, hstate⟩ := hon
        have hne : m0 % 2 ^ 16 ≠ s.k.iopState :=
          fun heq => hack ⟨hs.1, heq⟩
        constructor
        · intro hall _ _ _ _
          rw [← hempty, eq_nil_iff_forall_not_mem]
          intro x hx
          exact hall x hx (hms x hx ▸ wakes_apOn)
        · intro hfree
          rw [hempty.mpr (hfree hstart hstate hne (by simpa using hsent))]
          simp
      split
      case h_1 s₁ heq =>
        rw [heq] at hsend
        exact ⟨ms, ⟨hsend.trace, hsend.shutdown, hsend.iopState⟩, hquiet⟩
      case h_2 s₁ heq =>
        rw [heq] at hsend
        exact ⟨ms, hsend, hquiet⟩
    case isFalse hon =>
      refine ⟨[], .none rfl rfl rfl, fun _ => iff_of_true (by simp) ?_⟩
      intro hstart hstate _ hsent
      exact absurd ⟨hstart, by simp [hsent], hstate⟩ hon

theorem rtkitHandle_moves (env : Env) (m0 m1 : Nat) (s : St) :
    ∃ ms, Moves ms s (rtkitHandle env m0 m1 s) ∧
      (Stopping s → ((∀ x ∈ ms, ¬ Wakes x) ↔ (AnswersOn env s.k m0 m1 →
        ¬(s.sent < maxSend ∧ s.k.txq = [] ∧ slotFree (env.read s.reads) = true)))) := by
  -- All messages but the acknowledgement of an IOP power state are quiet.
  have hquiet : ∀ {s' : St}, (∃ ms, Moves ms s s' ∧ (Stopping s → ∀ x ∈ ms, ¬ Wakes x)) →
      (AnswersOn env s.k m0 m1 → False) →
      ∃ ms, Moves ms s s' ∧ (Stopping s → ((∀ x ∈ ms, ¬ Wakes x) ↔
        (AnswersOn env s.k m0 m1 → ¬(s.sent < maxSend ∧ s.k.txq = [] ∧
          slotFree (env.read s.reads) = true)))) := by
    rintro s' ⟨ms, hmoves, hms⟩ hno
    exact ⟨ms, hmoves, fun hs => iff_of_true (hms hs) (fun h => (hno h).elim)⟩
  have hstay : ∃ ms, Moves ms s s ∧ (Stopping s → ∀ x ∈ ms, ¬ Wakes x) :=
    ⟨[], .none rfl rfl rfl, by simp⟩
  unfold rtkitHandle
  split
  case isTrue hout =>
    refine hquiet hstay ?_
    rintro ⟨hhello, -, hep, -⟩
    obtain hout | hout := hout
    · exact hout hep
    · simp [hhello] at hout
  case isFalse hin =>
    rw [not_or, not_not] at hin
    have hno : ∀ {type : Nat}, msgType m0 = type → type ≠ msgIopPwrAck →
        AnswersOn env s.k m0 m1 → False :=
      fun htype hne h => hne (htype.symm.trans h.2.2.2.1)
    split
    case isTrue htype =>
      obtain ⟨ms, hmoves, hms⟩ := handleHello_moves env m0 s
      exact hquiet ⟨ms, hmoves, fun _ => hms⟩ (hno htype (by decide))
    case isFalse =>
    split
    case isTrue htype =>
      obtain ⟨ms, hmoves, hms⟩ := handleEpMap_moves env m0 s
      exact hquiet ⟨ms, hmoves, fun _ => hms⟩ (hno htype (by decide))
    case isFalse =>
    split
    case isTrue htype =>
      obtain ⟨ms, hmoves, hms⟩ := handleIopAck_moves env m0 s
      refine ⟨ms, hmoves, fun hs => (hms hs).trans ?_⟩
      constructor
      · rintro h ⟨-, hstart, -, -, hstate, hne, hsent⟩
        exact h hstart hstate hne hsent
      · intro h hstart hstate hne hsent
        exact h ⟨by simpa using hin.2, hstart, hin.1, htype, hstate, hne, hsent⟩
    case isFalse hack =>
    split
    case isTrue htype =>
      exact hquiet (handleApPwr_moves env m0 s) (hno htype (by decide))
    case isFalse =>
    split
    case isTrue htype =>
      refine hquiet ?_ (hno htype (by decide))
      unfold handleIdle
      split
      · exact ⟨[], .none rfl rfl rfl, by simp⟩
      · exact hstay
    case isFalse => exact hquiet hstay (fun h => hack h.2.2.2.1)

/-! ## A round and the session -/

theorem receive_moves (m0 m1 : Nat) (s : St) : Moves [] s (receive m0 m1 s) :=
  ⟨⟨[.rx m0 m1], rfl, rfl, by simp⟩, rfl, rfl⟩

theorem rtkitRx_moves (env : Env) (s : St) : ∃ ms, Moves ms s (rtkitRx env s) ∧
      (Stopping s → ((∀ x ∈ ms, ¬ Wakes x) ↔ (rxWaits (env.read s.reads) = true →
          AnswersOn env s.k (env.read (s.reads + 1)) (env.read (s.reads + 2)) →
          ¬(s.sent < maxSend ∧ s.k.txq = [] ∧ slotFree (env.read (s.reads + 3)) = true)))) := by
  unfold rtkitRx
  split
  case isTrue hwaits =>
    have hrx := receive_moves (env.read (s.reads + 1)) (env.read (s.reads + 2)) s
    obtain ⟨ms, hmoves, hms⟩ := rtkitHandle_moves env
      (env.read (s.reads + 1)) (env.read (s.reads + 2))
      (receive (env.read (s.reads + 1)) (env.read (s.reads + 2)) s)
    refine ⟨ms, hrx.trans hmoves, fun hs => ?_⟩
    rw [hms (hrx.stopping hs)]
    exact (imp_iff_right hwaits).symm
  case isFalse hwaits =>
    exact ⟨[], .none rfl rfl rfl, fun _ => iff_of_true (by simp) (fun h => absurd h hwaits)⟩

/-- A round of the shutdown is quiet exactly if it meets the condition. -/
theorem rtkitStep_moves (env : Env) (s : St) : ∃ ms, Moves ms s (rtkitStep env s) ∧
      (Stopping s → ((∀ x ∈ ms, ¬ Wakes x) ↔ RoundQuiet env s)) := by
  unfold rtkitStep RoundQuiet
  split
  case isTrue hinside =>
    have hflush := rtkitFlush_moves env s
    obtain ⟨ms, hrx, hms⟩ := rtkitRx_moves env (rtkitFlush env s)
    refine ⟨_, hflush.trans hrx, fun hs => ?_⟩
    rw [forall_mem_append, hms (hflush.stopping hs), rtkitFlush_eq, imp_iff_right hinside]
    refine and_congr_right fun _ => ?_
    simp only [drop_eq_nil_iff]
    have hle := @freeSlots_le env s.reads s.k.txq
    by_cases hall : freeSlots env s.reads s.k.txq = s.k.txq.length
    · simp only [hall, if_true, Nat.add_zero, le_refl, true_and, true_imp_iff,
        not_and, Bool.not_eq_true]
      exact Iff.rfl
    · have hsome : ¬ s.k.txq.length ≤ freeSlots env s.reads s.k.txq := by
        omega
      simp [hall, hsome]
  case isFalse hout =>
    exact ⟨[], .none rfl rfl rfl, fun _ => iff_of_true (by simp) (fun h => absurd h hout)⟩

theorem polls_moves (env : Env) (n : Nat) (s : St) : ∃ ms, Moves ms s (polls env n s) := by
  induction n generalizing s with
  | zero => exact ⟨[], .none rfl rfl rfl⟩
  | succ n ih =>
    obtain ⟨ms, hstep, -⟩ := rtkitStep_moves env s
    obtain ⟨ms', hrest⟩ := ih (rtkitStep env s)
    exact ⟨_, hstep.trans hrest⟩

theorem drainRounds_moves (env : Env) (n : Nat) (s : St) :
    ∃ ms, Moves ms s (drainRounds env n s) := by
  induction n generalizing s with
  | zero => exact ⟨[], .none rfl rfl rfl⟩
  | succ n ih =>
    rw [drainRounds]
    split
    · exact ⟨[], .none rfl rfl rfl⟩
    · obtain ⟨ms, hstep, -⟩ := rtkitStep_moves env s
      obtain ⟨ms', hrest⟩ := ih (rtkitStep env s)
      exact ⟨_, hstep.trans hrest⟩

theorem bootPhase_moves (env : Env) (s : St) : ∃ ms, Moves ms s (bootPhase env s) := by
  obtain ⟨ms, hboot⟩ := polls_moves env env.bootPolls s
  unfold bootPhase handshakePolls
  split
  · exact ⟨ms, hboot⟩
  · split
    case h_2.isTrue n _ _ =>
      obtain ⟨ms', hpolls⟩ := polls_moves env n ((polls env env.bootPolls s).under 0)
      have hrest := hpolls.start (s := polls env env.bootPolls s) rfl rfl rfl
      exact ⟨_, hboot.trans ⟨hrest.trace, hrest.shutdown, hrest.iopState⟩⟩
    case h_2.isFalse => exact ⟨ms, hboot⟩

/-- The rounds of the shutdown are quiet exactly if each one meets the
condition. -/
theorem stopRounds_moves (env : Env) (n : Nat) (s : St) (hs : Stopping s) :
    ∃ ms, Moves ms s (stopRounds env n s) ∧ ((∀ x ∈ ms, ¬ Wakes x) ↔ RoundsQuiet env n s) := by
  induction n generalizing s with
  | zero => exact ⟨[], .none rfl rfl rfl, iff_of_true (by simp) trivial⟩
  | succ n ih =>
    rw [stopRounds, RoundsQuiet]
    split
    case isTrue hdone =>
      refine ⟨[], .none rfl rfl rfl, iff_of_true (by simp) ?_⟩
      intro hack hidle
      simp [hack, hidle] at hdone
    case isFalse hgoes =>
      obtain ⟨ms, hstep, hround⟩ := rtkitStep_moves env s
      obtain ⟨ms', hrest, hrounds⟩ := ih _ (hstep.stopping hs)
      refine ⟨_, hstep.trans hrest, ?_⟩
      rw [Bool.not_eq_true, Bool.or_eq_false_iff] at hgoes
      rw [forall_mem_append, hround hs, hrounds, imp_iff_right hgoes.1, imp_iff_right hgoes.2]

end Moves

/-- A trace with one mark is quiet exactly if what follows the mark is. -/
theorem quiet_iff {pre post : List Event} (hpre : .shutdown ∉ pre) (hpost : .shutdown ∉ post) :
    Quiet (pre ++ .shutdown :: post) ↔ ∀ m ∈ stored post, ¬ Wakes m := by
  constructor
  · intro h
    exact h pre post rfl
  · intro h pre' post' heq
    obtain ⟨-, -, rfl⟩ := (append_cons_inj_of_notMem hpre hpost).mp heq
    exact h

/-- The power state that the shutdown asks for does not wake the AP. -/
theorem shutdownStart_send (env : Env) : Stopping (shutdownStart env) ∧
      ¬ Wakes (apPwr (shutdownStart env).k.apState) := by
  unfold shutdownStart beginShutdown Stopping
  by_cases hstop : env.stop = 2
  · simp only [hstop, if_true]
    exact ⟨⟨trivial, by decide⟩, not_wakes_apPwr (by decide) (by decide)⟩
  · simp only [hstop, if_false]
    exact ⟨⟨trivial, by decide⟩, not_wakes_apPwr (by decide) (by decide)⟩

/-- The shutdown from its beginning is quiet exactly if its rounds are. -/
theorem shutdown_moves (env : Env) :
    let r := rtkitSend env (apPwr (shutdownStart env).k.apState) (shutdownStart env)
    ∃ ms, Moves ms (shutdownStart env)
        (match r with
          | (false, s) => s
          | (true, s) => stopRounds env 60 s) ∧
      ((∀ x ∈ ms, ¬ Wakes x) ↔ (r.1 = true → RoundsQuiet env 60 r.2)) := by
  intro r
  obtain ⟨hstopping, hstate⟩ := shutdownStart_send env
  obtain ⟨ms, hsend, hms, -⟩ := rtkitSend_moves env
    (apPwr (shutdownStart env).k.apState) (shutdownStart env)
  change Moves ms (shutdownStart env) r.2 at hsend
  have hquiet : ∀ x ∈ ms, ¬ Wakes x := fun x hx => hms x hx ▸ hstate
  obtain ⟨ok, s⟩ := r
  cases ok with
  | false => exact ⟨ms, hsend, iff_of_true hquiet nofun⟩
  | true =>
    obtain ⟨ms', hrest, hrounds⟩ := stopRounds_moves env 60 s (hsend.stopping hstopping)
    refine ⟨_, hsend.trans hrest, ?_⟩
    rw [forall_mem_append, and_iff_right hquiet, hrounds]
    exact (imp_iff_right rfl).symm

/-- For every device, once the shutdown has begun the host asks for no AP
power ON and starts no application endpoint, exactly if every round of the
shutdown meets the condition. -/
theorem stageBoot_quiet_iff (env : Env) : Quiet (stageBoot env {}).trace ↔ ShutdownQuiet env := by
  obtain ⟨ms, hmoves⟩ := bootPhase_moves env {}
  unfold stageBoot ShutdownQuiet
  by_cases hstop : env.stop ≠ 0 ∧ (bootPhase env {}).k.apOn = true
  · rw [if_pos hstop, imp_iff_right hstop.1, imp_iff_right hstop.2]
    obtain ⟨ms', hdrain⟩ := drainRounds_moves env 60 (bootPhase env {})
    obtain ⟨pre, hpre, -, hmark⟩ := (hmoves.trans hdrain).trace
    obtain ⟨ms, ⟨⟨post, hpost, hstored, hmark'⟩, -, -⟩, hms⟩ :=
      shutdown_moves env
    have htrace : (shutdownStart env).trace = pre ++ [.shutdown] := by
      show (drainRounds env 60 (bootPhase env {})).trace ++ _ = _
      rw [hpre]
      rfl
    rw [htrace, append_assoc, singleton_append] at hpost
    rw [← hms, ← hstored, ← quiet_iff hmark hmark', ← hpost]
    exact Iff.rfl
  · rw [if_neg hstop]
    obtain ⟨boot, hboot, -, hmark⟩ := hmoves.trace
    refine iff_of_true ?_ (fun h₁ h₂ => absurd ⟨h₁, h₂⟩ hstop)
    intro pre post heq
    rw [hboot] at heq
    have hmem : .shutdown ∈ [] ++ boot := heq ▸ mem_append_right pre mem_cons_self
    exact absurd hmem hmark

/-- The firmware acknowledges AP power ON unasked.  In the shutdown it then
acknowledges the IOP power state ON.  TX always has a free slot. -/
def unaskedEnv : Env where
  read := fun n =>
    [0x101, apPwr pwrOn, 0, 0x100, 0x101, msgIopPwrAck <<< 52 ||| pwrOn, 0, 0x100].getD n 0
  inside := true
  hello := true
  start := true
  stop := 1
  bootPolls := 1
  hsPolls := none

/-- The host asks for AP power ON in the shutdown. -/
theorem unasked_wakes : (stageBoot unaskedEnv {}).trace =
      [.rx (apPwr pwrOn) 0, .shutdown, .tx (apPwr pwrQuiesced),
        .rx (msgIopPwrAck <<< 52 ||| pwrOn) 0, .tx (apPwr pwrOn)] ∧
    Wakes (apPwr pwrOn) ∧ ¬ Quiet (stageBoot unaskedEnv {}).trace := by
  have htrace : (stageBoot unaskedEnv {}).trace =
      [.rx (apPwr pwrOn) 0, .shutdown, .tx (apPwr pwrQuiesced),
        .rx (msgIopPwrAck <<< 52 ||| pwrOn) 0, .tx (apPwr pwrOn)] := by
    decide +kernel
  refine ⟨htrace, wakes_apOn, fun hquiet => ?_⟩
  refine hquiet [.rx (apPwr pwrOn) 0] _ htrace (apPwr pwrOn) ?_ wakes_apOn
  decide +kernel

end OmarchyAne.H18
