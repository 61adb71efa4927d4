import OmarchyAne.Stats.Protocol

/-!
# Busy time

`Inv` is what every interleaving keeps.  The sentinel belongs to one
submission, and without it `inflight` counts the members (`Inv.balance`).  The
periods in the log follow each other, and `busy_ns` is the sum of their lengths
(`Inv.busy`, `Inv.ordered`).  A submission that left its period lies in a
folded period or in the open one (`Inv.covered`), and a folded period is the
interval of the submission that closed it (`Inv.recorded`).  So on an idle
counter the log and the recorded intervals cover the same moments.
-/

namespace OmarchyAne.Stats

open Lib Stats.Sub List

/-- The invariant of the counters and the submissions. -/
structure Inv (c : Counters) (subs : List Sub) : Prop where
  balance :
    (subs.countP transit = 0 ∧ c.inflight = subs.countP member) ∨
    (subs.countP transit = 1 ∧ subs.countP member = 0 ∧ c.inflight = inflightTrans)
  ok : ∀ u ∈ subs, u.Ok c
  busy : c.busyNs = Periods.total c.folds
  ordered : Periods.Ordered c.folds
  proper : ∀ p ∈ c.folds, p.1 < p.2 ∧ p.2 ≤ c.maxEnd
  behind : (∃ u ∈ subs, u.running) → ∀ p ∈ c.folds, p.2 ≤ c.lastBusyEnd
  covered : ∀ u ∈ subs, u.left → ∀ x, u.startNs ≤ x → x < u.fin →
    Periods.Inside c.folds x ∨
      ((∃ v ∈ subs, v.running) ∧ c.lastBusyEnd ≤ x ∧ x < c.maxEnd)
  recorded : ∀ p ∈ c.folds, ∃ u ∈ subs, u.left ∧ u.startNs = p.1 ∧ u.fin = p.2
  jobs : c.jobs = subs.countP counted

namespace Inv

variable {c c' : Counters} {subs : List Sub} {i j : Nat} {u u' v : Sub}

/-- Beside the holder of the sentinel nobody is in a period. -/
theorem alone (h : Inv c subs) (hu : subs[i]? = some u) (ht : u.transit)
    (hv : subs[j]? = some v) (hne : j ≠ i) : v.pc.stage.isIdle := by
  have hpos : 0 < subs.countP transit := countP_pos_iff.mpr ⟨u, mem_of_getElem? hu, ht⟩
  obtain ⟨hzero, -⟩ | ⟨hone, hnone, -⟩ := h.balance
  · omega
  · refine Stage.isIdle_of_not ?_ (fun htv => ?_)
    · exact countP_eq_zero.mp hnone v (mem_of_getElem? hv)
    · exact hne (index_eq_of_countP_le_one (by omega) hv hu htv ht)

/-- On an idle counter nobody is in a period. -/
theorem idle (h : Inv c subs) (hzero : c.inflight = 0) (hv : v ∈ subs) : v.pc.stage.isIdle := by
  obtain ⟨hnone, heq⟩ | ⟨-, -, heq⟩ := h.balance
  · exact Stage.isIdle_of_not (countP_eq_zero.mp (heq.symm.trans hzero) v hv)
      (countP_eq_zero.mp hnone v hv)
  · rw [hzero] at heq
    exact absurd heq (by decide)

/-- Beside a member nobody holds the sentinel. -/
theorem steady (h : Inv c subs) (hu : u ∈ subs) (hm : u.member)
    (hv : v ∈ subs) : v.transit = false := by
  have hpos : 0 < subs.countP member := countP_pos_iff.mpr ⟨u, hu, hm⟩
  obtain ⟨hzero, -⟩ | ⟨-, hnone, -⟩ := h.balance
  · simpa using countP_eq_zero.mp hzero v hv
  · omega

/-- While a member is there, `inflight` counts. -/
theorem inflight_ne_zero (h : Inv c subs) (hu : u ∈ subs)
    (hm : u.pc.stage = .member) : c.inflight ≠ 0 := by
  intro hzero
  have hidle := h.idle hzero hu
  rw [hm] at hidle
  exact absurd hidle (by decide)

/-- A counter that is neither idle nor in transition has a member. -/
theorem exists_member (h : Inv c subs) (hzero : c.inflight ≠ 0)
    (htrans : c.inflight ≠ inflightTrans) : ∃ u ∈ subs, u.member := by
  obtain ⟨-, heq⟩ | ⟨-, -, heq⟩ := h.balance
  · exact countP_pos_iff.mp (show 0 < subs.countP member by omega)
  · exact absurd heq htrans

theorem exists_running (h : Inv c subs) (hzero : c.inflight ≠ 0)
    (htrans : c.inflight ≠ inflightTrans) : ∃ u ∈ subs, u.running := by
  obtain ⟨u, hu, hm⟩ := h.exists_member hzero htrans
  exact ⟨u, hu, running_of_member hm⟩

/-! ## One move -/

section Move

variable (h : Inv c subs) (hu : subs[i]? = some u)

include h hu

theorem balance_move (hmove : u.Move c c' u') :
    ((subs.set i u').countP transit = 0 ∧ c'.inflight = (subs.set i u').countP member) ∨
    ((subs.set i u').countP transit = 1 ∧ (subs.set i u').countP member = 0 ∧
      c'.inflight = inflightTrans) := by
  have hb := h.balance
  have htr := countP_set transit hu u'
  have hme := countP_set member hu u'
  rw [transit, transit] at htr
  rw [member, member] at hme
  have htrans : inflightTrans = 0xFFFFFFFF := rfl
  cases hmove with
  | stay stage =>
    rw [stage] at htr hme
    omega
  | join stage busy stage' | feed stage busy stage' =>
    rw [stage, stage'] at htr hme
    simp only [Stage.isTransit, Stage.isMember, Bool.toNat_true, Bool.toNat_false] at htr hme
    simp only
    omega
  | grab stage idle stage' | shut stage last stage' =>
    rw [stage, stage'] at htr hme
    simp only [Stage.isTransit, Stage.isMember, Bool.toNat_true, Bool.toNat_false] at htr hme
    simp only [and_true]
    omega
  | latch stage above stage' | openUp stage above stage' | count stage stage'
  | release stage stage' | drop stage above stage'
  | fold stage above stage' =>
    rw [stage, stage'] at htr hme
    simp only [Pc.stage, Stage.isTransit, Stage.isMember, Bool.toNat_true,
      Bool.toNat_false] at htr hme
    simp only
    omega
  | skip stage above stage' =>
    rw [stage, stage'] at htr hme
    simp only [Pc.stage, Stage.isTransit, Stage.isMember, Bool.toNat_true,
      Bool.toNat_false] at htr hme
    omega

/-- A submission that moves keeps what it says of the counters, and the
others too. -/
theorem ok_move (hmove : u.Move c c' u') (hok : u'.Ok c') : ∀ v ∈ subs.set i u', v.Ok c' := by
  intro v hv
  obtain ⟨j, hj⟩ := mem_iff_getElem?.mp hv
  obtain ⟨-, rfl⟩ | ⟨hne, hv⟩ := getElem?_set_cases hj
  · exact hok
  · have hold := h.ok v (mem_of_getElem? hv)
    cases hmove with
    | latch stage =>
      refine ok_of_idle (h.alone hu ?_ hv hne)
      rw [transit, stage]
      rfl
    | feed stage above =>
      refine hold.mono (h.steady (mem_of_getElem? hu) ?_
        (mem_of_getElem? hv)) rfl (Nat.le_of_lt above)
      rw [member, stage]
      rfl
    | _ => exact hold.congr rfl rfl

/-- The holder of the sentinel leaves no running submission behind. -/
theorem not_running_set (ht : u.transit) (hu' : ¬ u'.running = true) :
    ¬ ∃ v ∈ subs.set i u', v.running := by
  rintro ⟨v, hv, hrun⟩
  obtain ⟨j, hj⟩ := mem_iff_getElem?.mp hv
  obtain ⟨-, rfl⟩ | ⟨hne, hv⟩ := getElem?_set_cases hj
  · exact hu' hrun
  · exact Stage.not_running_of_isIdle (h.alone hu ht hv hne) hrun

/-- Beside the holder of the sentinel nobody runs. -/
theorem not_running (ht : u.transit) (hu' : ¬ u.running = true) : ¬ ∃ v ∈ subs, v.running := by
  rintro ⟨v, hv, hrun⟩
  obtain ⟨j, hj⟩ := mem_iff_getElem?.mp hv
  by_cases hne : j = i
  · subst hne
    obtain rfl := Option.some.inj (hj.symm.trans hu)
    exact hu' hrun
  · exact Stage.not_running_of_isIdle (h.alone hu ht hj hne) hrun

theorem behind_move (hmove : u.Move c c' u') (hrun : ∃ v ∈ subs.set i u', v.running) :
    ∀ p ∈ c'.folds, p.2 ≤ c'.lastBusyEnd := by
  cases hmove with
  | join stage busy => exact h.behind (h.exists_running busy.1 busy.2)
  | openUp stage above =>
    intro p hp
    exact Nat.le_trans (h.proper p hp).2 above
  | latch stage above stage' | fold stage above stage' =>
    -- The submission holds the sentinel before the step and does not run
    -- after it.
    refine absurd hrun (h.not_running_set hu ?_ ?_)
    · rw [transit, stage]; rfl
    · rw [running, stage']; decide
  | stay stage =>
    refine h.behind (exists_of_mem_set hu ?_ hrun)
    rw [running, stage]
    exact id
  | feed stage | drop stage | shut stage =>
    refine h.behind (exists_of_mem_set hu (fun _ => ?_) hrun)
    rw [running, stage]
    rfl
  | skip stage =>
    refine h.behind (exists_of_mem_set hu (fun _ => ?_) hrun)
    rw [running, stage]
    rfl
  | grab stage idle stage' =>
    refine h.behind (exists_of_mem_set hu (fun hrun' => ?_) hrun)
    rw [running, stage'] at hrun'
    exact absurd hrun' (by decide)
  | release stage stage' | count stage stage' =>
    refine h.behind (exists_of_mem_set hu (fun hrun' => ?_) hrun)
    rw [running, stage'] at hrun'
    exact absurd hrun' (by decide)

/-- An open period goes on, or is closed and folded. -/
theorem run_move (hmove : u.Move c c' u') (hrun : ∃ v ∈ subs, v.running) :
    ((∃ v ∈ subs.set i u', v.running) ∧ c'.lastBusyEnd = c.lastBusyEnd ∧
      c.maxEnd ≤ c'.maxEnd ∧ c'.busyNs = c.busyNs) ∨
    (u.pc.stage = .closing ∧ c'.lastBusyEnd = c.lastBusyEnd ∧
      c'.busyNs = c.busyNs + (c.maxEnd - c.lastBusyEnd) ∧
      ∀ x, c.lastBusyEnd ≤ x → x < c.maxEnd → Periods.Inside c'.folds x) := by
  cases hmove with
  | stay stage =>
    refine .inl ⟨exists_mem_set hu ?_ hrun, rfl, le_rfl, rfl⟩
    rw [running, running, stage]
    exact id
  | join stage busy stage' | shut stage busy stage' =>
    refine .inl ⟨exists_mem_set hu (fun _ => ?_) hrun, rfl, le_rfl, rfl⟩
    rw [running, stage']
    rfl
  | feed stage above stage' =>
    refine .inl ⟨exists_mem_set hu (fun _ => ?_) hrun, rfl, Nat.le_of_lt above, rfl⟩
    rw [running, stage']
    rfl
  | count stage =>
    refine .inl ⟨exists_mem_set hu (fun hrun' => ?_) hrun, rfl, le_rfl, rfl⟩
    rw [running, stage] at hrun'
    exact absurd hrun' (by decide)
  | drop stage others stage' =>
    -- There is a second member.
    have hone := countP_set member hu u'
    have hb := h.balance
    rw [member, member, stage, stage'] at hone
    simp only [Pc.stage, Stage.isMember, Bool.toNat_true, Bool.toNat_false] at hone
    obtain ⟨v, hv, hmem⟩ := countP_pos_iff.mp (show 0 < (subs.set i u').countP member by omega)
    exact .inl ⟨⟨v, hv, running_of_member hmem⟩, rfl, le_rfl, rfl⟩
  | fold stage proper stage' =>
    exact .inr ⟨stage, rfl, rfl, fun x hlo hhi =>
      Periods.inside_concat.mpr (.inr ⟨hlo, hhi⟩)⟩
  | skip stage empty =>
    exact .inr ⟨stage, rfl, by omega, fun x hlo hhi => by omega⟩
  | grab stage idle =>
    obtain ⟨v, hv, hrun'⟩ := hrun
    exact absurd hrun' (Stage.not_running_of_isIdle (h.idle idle hv))
  | latch stage | openUp stage | release stage =>
    refine absurd hrun (h.not_running hu ?_ ?_)
    · rw [transit, stage]; rfl
    · rw [running, stage]; exact Bool.false_ne_true

omit h in
/-- What a submission that left its period recorded. -/
theorem left_move (hmove : u.Move c c' u') (hleft : u'.left) :
    (u.left ∧ u'.startNs = u.startNs ∧ u'.fin = u.fin) ∨
      ((∃ v ∈ subs, v.running) ∧ u'.startNs = c.lastBusyEnd ∧ u'.fin ≤ c.maxEnd) := by
  have hrunning : u.running → ∃ v ∈ subs, v.running :=
    fun hrun => ⟨u, mem_of_getElem? hu, hrun⟩
  cases hmove with
  | stay stage counted record =>
    have hleft' : u.left := by
      rw [left, stage] at hleft
      exact hleft
    exact .inl ⟨hleft', record hleft'⟩
  | release stage stage' record | count stage stage' record =>
    exact .inl ⟨by rw [left, stage]; rfl, record⟩
  | drop stage others stage' start fin fed =>
    exact .inr ⟨hrunning (by rw [running, stage]; rfl), start, fin ▸ fed⟩
  | fold stage proper stage' start fin =>
    exact .inr ⟨hrunning (by rw [running, stage]; rfl), start, Nat.le_of_eq fin⟩
  | skip stage empty stage' start fin =>
    exact .inr ⟨hrunning (by rw [running, stage]; rfl), start, fin⟩
  | join stage busy stage' | grab stage busy stage' | shut stage busy stage'
  | feed stage busy stage' | latch stage busy stage'
  | openUp stage busy stage' =>
    rw [left, stage'] at hleft
    exact absurd hleft (by decide)

theorem covered_move (hmove : u.Move c c' u') :
    ∀ v ∈ subs.set i u', v.left → ∀ x, v.startNs ≤ x → x < v.fin → Periods.Inside c'.folds x ∨
        ((∃ w ∈ subs.set i u', w.running) ∧ c'.lastBusyEnd ≤ x ∧ x < c'.maxEnd) := by
  -- What was covered stays so.
  have hkeep : ∀ x, Periods.Inside c.folds x ∨
      ((∃ w ∈ subs, w.running) ∧ c.lastBusyEnd ≤ x ∧ x < c.maxEnd) →
      Periods.Inside c'.folds x ∨
        ((∃ w ∈ subs.set i u', w.running) ∧ c'.lastBusyEnd ≤ x ∧
          x < c'.maxEnd) := by
    rintro x (hin | ⟨hrun, hlo, hhi⟩)
    · obtain ⟨heq, -⟩ | ⟨-, -, -, -, -, -, heq, -⟩ := hmove.folds
      · exact .inl (heq ▸ hin)
      · rw [heq]
        exact .inl (Periods.inside_concat.mpr (.inl hin))
    · obtain ⟨hrun', hlatch, hmax, -⟩ | ⟨-, -, -, hin⟩ :=
        h.run_move hu hmove hrun
      · exact .inr ⟨hrun', hlatch ▸ hlo, Nat.lt_of_lt_of_le hhi hmax⟩
      · exact .inl (hin x hlo hhi)
  intro v hv hleft x hlo hhi
  obtain ⟨j, hj⟩ := mem_iff_getElem?.mp hv
  obtain ⟨-, rfl⟩ | ⟨hne, hv⟩ := getElem?_set_cases hj
  · obtain ⟨hold, hstart, hfin⟩ | ⟨hrun, hstart, hfin⟩ :=
      left_move hu hmove hleft
    · exact hkeep x (h.covered u (mem_of_getElem? hu) hold x (hstart ▸ hlo) (hfin ▸ hhi))
    · exact hkeep x (.inr ⟨hrun, hstart ▸ hlo, by omega⟩)
  · exact hkeep x (h.covered v (mem_of_getElem? hv) hleft x hlo hhi)

theorem recorded_move (hmove : u.Move c c' u') : ∀ p ∈ c'.folds, ∃ v ∈ subs.set i u',
      v.left ∧ v.startNs = p.1 ∧ v.fin = p.2 := by
  -- A submission that left its period keeps its record.
  have hrecord : ∀ p : Nat × Nat, u.left ∧ u.startNs = p.1 ∧ u.fin = p.2 →
      u'.left ∧ u'.startNs = p.1 ∧ u'.fin = p.2 := by
    rintro p ⟨hleft, hstart, hfin⟩
    cases hmove with
    | stay stage counted record =>
      obtain ⟨hs, hf⟩ := record hleft
      refine ⟨?_, hs.trans hstart, hf.trans hfin⟩
      rw [left, stage]
      exact hleft
    | release stage stage' record | count stage stage' record =>
      refine ⟨?_, record.1.trans hstart, record.2.trans hfin⟩
      rw [left, stage']
      rfl
    | join stage | grab stage | latch stage | openUp stage | feed stage
    | drop stage | shut stage | fold stage | skip stage =>
      rw [left, stage] at hleft
      exact absurd hleft Bool.false_ne_true
  intro p hp
  have hold : p ∈ c.folds → ∃ v ∈ subs.set i u', v.left ∧ v.startNs = p.1 ∧ v.fin = p.2 :=
    fun hp => exists_mem_set hu (hrecord p) (h.recorded p hp)
  obtain ⟨heq, -⟩ | ⟨-, stage', -, -, hstart, hfin, heq, -⟩ := hmove.folds
  · exact hold (heq ▸ hp)
  · rw [heq, mem_append, mem_singleton] at hp
    obtain hp | rfl := hp
    · exact hold hp
    · refine ⟨u', mem_set_self hu u', ?_, hstart, hfin⟩
      rw [left, stage']
      rfl

theorem jobs_move (hmove : u.Move c c' u') : c'.jobs = (subs.set i u').countP counted := by
  have hjobs := h.jobs
  have hset := countP_set counted hu u'
  cases hmove with
  | stay stage counted =>
    rw [counted] at hset
    omega
  | count stage stage' =>
    rw [counted, counted, stage, stage'] at hset
    simp only [Pc.counted, Bool.toNat_true, Bool.toNat_false] at hset
    simp only
    omega
  | join stage busy stage' | grab stage busy stage' | feed stage busy stage'
  | shut stage busy stage' =>
    rw [counted_of_stage (by rw [stage]; decide), counted_of_stage (by rw [stage']; decide)] at hset
    simp only
    omega
  | latch stage busy stage' | openUp stage busy stage'
  | drop stage busy stage' | fold stage busy stage'
  | release stage stage' =>
    rw [counted_of_stage (by rw [stage]; simp [Pc.stage]), counted, stage'] at hset
    simp only [Pc.counted] at hset
    simp only
    omega
  | skip stage busy stage' =>
    rw [counted_of_stage (by rw [stage]; decide), counted, stage'] at hset
    simp only [Pc.counted] at hset
    omega

/-- A move keeps the invariant. -/
theorem move (hmove : u.Move c c' u') (hok : u'.Ok c') : Inv c' (subs.set i u') where
  balance := h.balance_move hu hmove
  ok := h.ok_move hu hmove hok
  busy := by
    obtain ⟨hf, hb⟩ | ⟨-, -, -, -, -, -, hf, hb⟩ := hmove.folds
    · rw [hf, hb, h.busy]
    · rw [hf, hb, h.busy, Periods.total_concat]
  ordered := by
    obtain ⟨hf, -⟩ | ⟨stage, -, -, -, -, -, hf, -⟩ := hmove.folds
    · rw [hf]
      exact h.ordered
    · rw [hf]
      refine h.ordered.concat (h.behind ⟨u, mem_of_getElem? hu, ?_⟩)
      rw [running, stage]
      rfl
  proper := by
    have hmax : c.maxEnd ≤ c'.maxEnd := hmove.maxEnd_le
    intro p hp
    have hold : p ∈ c.folds → p.1 < p.2 ∧ p.2 ≤ c'.maxEnd := fun hp =>
      ⟨(h.proper p hp).1, Nat.le_trans (h.proper p hp).2 hmax⟩
    obtain ⟨hf, -⟩ | ⟨-, -, hlt, -, -, -, hf, -⟩ := hmove.folds
    · exact hold (hf ▸ hp)
    · rw [hf, mem_append, mem_singleton] at hp
      obtain hp | rfl := hp
      · exact hold hp
      · exact ⟨hlt, hmax⟩
  behind := h.behind_move hu hmove
  covered := h.covered_move hu hmove
  recorded := h.recorded_move hu hmove
  jobs := h.jobs_move hu hmove

end Move

/-! ## A run -/

/-- A new submission is outside. -/
theorem spawn (h : Inv c subs) (submitNs tasks : Nat) : Inv c (subs ++ [begin submitNs tasks]) := by
  have hout : ∀ u ∈ subs ++ [begin submitNs tasks], u ∈ subs ∨ u = begin submitNs tasks := by
    simp
  have hrun : (∃ u ∈ subs ++ [begin submitNs tasks], u.running) → ∃ u ∈ subs, u.running := by
    rintro ⟨u, hu, hrun⟩
    obtain hmem | rfl := hout u hu
    · exact ⟨u, hmem, hrun⟩
    · exact absurd hrun Bool.false_ne_true
  refine ⟨?_, fun u hu => ?_, h.busy, h.ordered, h.proper,
    fun h' => h.behind (hrun h'), fun u hu hleft x hlo hhi => ?_,
    fun p hp => ?_, ?_⟩
  · simpa [countP_append, transit, member, begin, Pc.stage,
      Stage.isTransit, Stage.isMember] using h.balance
  · obtain hmem | rfl := hout u hu
    · exact h.ok u hmem
    · trivial
  · obtain hmem | rfl := hout u hu
    · refine (h.covered u hmem hleft x hlo hhi).imp id ?_
      rintro ⟨⟨v, hv, hrun⟩, hx⟩
      exact ⟨⟨v, mem_append_left _ hv, hrun⟩, hx⟩
    · exact absurd hleft Bool.false_ne_true
  · obtain ⟨u, hu, hrec⟩ := h.recorded p hp
    exact ⟨u, mem_append_left _ hu, hrec⟩
  · simpa [countP_append, counted, begin, Pc.counted] using h.jobs

theorem change (h : Inv c subs) {subs' : List Sub}
    (hchange : Change c subs c' subs') : Inv c' subs' := by
  cases hchange with
  | none => exact h
  | spawn submitNs tasks => exact h.spawn submitNs tasks
  | move entry move ok => exact h.move entry move ok

theorem step {s s' : St} {a : Act} (h : Inv s.ctrs s.subs)
    (hstep : s.step a = some s') : Inv s'.ctrs s'.subs :=
  h.change (step_change h.ok (fun _ hu hm => h.inflight_ne_zero hu hm) hstep)

theorem init {shift : Nat} {s : St} (h : (statsSystem shift).init s) : Inv s.ctrs s.subs := by
  obtain ⟨hctrs, -, -, -, hsubs, -⟩ := h
  rw [hctrs, hsubs]
  refine ⟨.inl ⟨rfl, rfl⟩, by simp, rfl, .nil, by simp, by simp, by simp, by simp, rfl⟩

theorem reachable {shift : Nat} {s : St}
    (h : (statsSystem shift).Reachable s) : Inv s.ctrs s.subs :=
  System.reachable_invariant (I := fun s => Inv s.ctrs s.subs)
    (fun _ => init) (fun _ _ _ hinv hstep => hinv.step hstep) h

end Inv

/-- In every interleaving: when no submission is in flight, `busy_ns` is the
length of the union of the recorded intervals.  The folded periods follow each
other and add up to `busy_ns`.  Outside of a transition `inflight` is the
number of submissions that have begun and not completed, and `jobs` is the
number of completions. -/
theorem busyNs_eq_union {shift : Nat} {s : St} (h : (statsSystem shift).Reachable s) :
    ((∀ u ∈ s.subs, u.pc.stage.isIdle) → s.ctrs.inflight = 0 ∧ s.ctrs.busyNs = {x | ∃ u ∈ s.subs,
        u.left ∧ u.startNs ≤ x ∧ x < u.fin}.ncard) ∧
    (Periods.Ordered s.ctrs.folds ∧ (∀ p ∈ s.ctrs.folds, p.1 < p.2) ∧
      s.ctrs.busyNs = Periods.total s.ctrs.folds) ∧
    ((∀ u ∈ s.subs, ¬ u.transit) → s.ctrs.inflight = s.subs.countP member) ∧
    s.ctrs.jobs = s.subs.countP counted := by
  have hinv := Inv.reachable h
  have hcount : (∀ u ∈ s.subs, ¬ u.transit) → s.ctrs.inflight = s.subs.countP member := by
    intro hno
    obtain ⟨-, heq⟩ | ⟨hone, -⟩ := hinv.balance
    · exact heq
    · obtain ⟨u, hu, ht⟩ := countP_pos_iff.mp
        (show 0 < s.subs.countP transit by omega)
      exact absurd ht (hno u hu)
  refine ⟨fun hidle => ?_, ⟨hinv.ordered, fun p hp => (hinv.proper p hp).1,
    hinv.busy⟩, hcount, hinv.jobs⟩
  · have hzero : s.ctrs.inflight = 0 := by
      rw [hcount (fun u hu => (Stage.not_transit_of_isIdle (hidle u hu)).1), countP_eq_zero]
      exact fun u hu => (Stage.not_transit_of_isIdle (hidle u hu)).2
    have hrun : ¬ ∃ u ∈ s.subs, u.running := by
      rintro ⟨u, hu, hrun⟩
      exact Stage.not_running_of_isIdle (hidle u hu) hrun
    have hset : {x | ∃ u ∈ s.subs, u.left ∧ u.startNs ≤ x ∧ x < u.fin} =
        {x | Periods.Inside s.ctrs.folds x} := by
      ext x
      constructor
      · rintro ⟨u, hu, hleft, hlo, hhi⟩
        exact (hinv.covered u hu hleft x hlo hhi).resolve_right
          (fun h' => hrun h'.1)
      · rintro ⟨p, hp, hlo, hhi⟩
        obtain ⟨u, hu, hleft, hstart, hfin⟩ := hinv.recorded p hp
        exact ⟨u, hu, hleft, hstart ▸ hlo, hfin ▸ hhi⟩
    exact ⟨hzero, by rw [hset, hinv.ordered.ncard, hinv.busy]⟩

/-- Zeroed counters and an empty ring of 256 slots. -/
def zeroed : St where
  ctrs := ⟨0, 0, 0, 0, 0, []⟩
  ring := ⟨0, 255, fun _ => ⟨0, fun _ => ⟨0, 0⟩⟩⟩
  clock := 0
  subs := []
  snaps := []
  reports := []
  shows := []
  lines := []

theorem zeroed_init : (statsSystem 8).init zeroed :=
  ⟨rfl, rfl, rfl, fun _ => rfl, rfl, rfl, rfl, rfl, rfl⟩

/-- Two submissions that overlap: from 10 to 25 and from 20 to 40. -/
def overlapping : List Act :=
  .begin 10 1 :: List.replicate 15 (.sub 0) ++
    .begin 20 1 :: List.replicate 12 (.sub 1) ++
    .complete 0 25 0 0 :: List.replicate 9 (.sub 0) ++
    .complete 1 40 0 0 :: List.replicate 13 (.sub 1)

theorem busyNs_eq_union_overlapping :
    ∃ s, (statsSystem 8).run zeroed overlapping = some s ∧ s.ctrs.inflight = 0 ∧
      30 = {x | ∃ u ∈ s.subs, u.left ∧ u.startNs ≤ x ∧ x < u.fin}.ncard := by
  have hrun : ((statsSystem 8).run zeroed overlapping).map (fun s =>
      (s.ctrs.busyNs, s.subs.all (fun u => u.pc.stage.isIdle))) =
      some (30, true) := by
    decide +kernel
  obtain ⟨s, hs, heq⟩ := Option.map_eq_some_iff.mp hrun
  obtain ⟨hbusy, hidle⟩ := Prod.mk.inj heq
  obtain ⟨hzero, hunion⟩ := (busyNs_eq_union ⟨_, _, zeroed_init, hs⟩).1 (all_eq_true.mp hidle)
  exact ⟨s, hs, hzero, hbusy ▸ hunion⟩

end OmarchyAne.Stats
