import OmarchyAne.Promotion.Entries
import OmarchyAne.Promotion.Propose

/-!
# Rows of another die

A flip is the flip of a chip's die-0 overlay.  The verdict keeps the dies
apart, so the rows of die 0 alone give the same entries for die 0
(`jsonVerdict_die0`).  But a proposal and the gate go by the name of the chip.

`die0` drops the rows of the other dies.  A run of `propose` asks for the same
flips without them exactly when no other die of a chip that is not enabled is
promoted (`attempts_die0_iff`).  The gate decides the same without them
exactly when the chip has a row of die 0, or its lowest other die does not
back the record (`gate_die0_iff`).  In a run whose steps meet these conditions
the other dies change nothing.
-/

namespace OmarchyAne.Promotion

open Lib List

variable {U : Unicode} {on : List Text} {rows : List Row} {key : Key} {refuses : Text → Dir → Bool}
  {chips : List Entry} {s : Repo} {chip : Text}

/-! ## The verdict -/

/-- The rows of die 0. -/
def die0 (U : Unicode) (rows : List Row) : List Row :=
  rows.filter fun row => dieOf U row = 0

theorem dieOf_of_dieKey {row : Row} (h : dieKey U row = some key) : dieOf U row = key.2 := by
  rw [dieKey, Option.map_eq_some_iff] at h
  obtain ⟨s, -, rfl⟩ := h
  rfl

theorem keys_die0 (rows : List Row) :
    keys U (die0 U rows) = (keys U rows).filter fun key => key.2 = 0 := by
  have hall : (keys U rows).Pairwise fun a b => toLex a < toLex b := keys_strict
  have hstrict := hall.filter fun key => decide (key.2 = 0)
  refine List.Perm.eq_of_pairwise
    (fun a b _ _ hab hba => absurd hba (lt_asymm hab)) keys_strict hstrict ?_
  have hnodup : ∀ {l : List Key}, (l.Pairwise fun a b => toLex a < toLex b) →
      l.Nodup := by
    intro l h
    refine h.imp fun {a b} (hlt : toLex a < toLex b) (heq : a = b) => ?_
    subst heq
    exact lt_irrefl _ hlt
  rw [perm_ext_iff_of_nodup (hnodup keys_strict) (hnodup hstrict)]
  intro key
  simp only [mem_filter, mem_keys, die0, decide_eq_true_eq]
  constructor
  · rintro ⟨row, ⟨hrow, hdie⟩, hkey⟩
    exact ⟨⟨row, hrow, hkey⟩, by rw [← dieOf_of_dieKey hkey, hdie]⟩
  · rintro ⟨⟨row, hrow, hkey⟩, hzero⟩
    exact ⟨row, ⟨hrow, by rw [dieOf_of_dieKey hkey, hzero]⟩, hkey⟩

private theorem filter_die0 (hkey : key.2 = 0) (q : Row → Bool) :
    (die0 U rows).filter (fun row => dieKey U row = some key ∧ q row) =
      rows.filter fun row => dieKey U row = some key ∧ q row := by
  rw [die0, filter_filter]
  refine filter_congr fun row _ => ?_
  by_cases h : dieKey U row = some key
  · simp [h, dieOf_of_dieKey h, hkey]
  · simp [h]

theorem entryOf_die0 (hkey : key.2 = 0) :
    entryOf U on (die0 U rows) key = entryOf U on rows key := by
  have hrows : rowsOf U (die0 U rows) key = rowsOf U rows key := by
    have h := @filter_die0 U rows key hkey fun _ => true
    simpa [rowsOf] using h
  have hverdict : verdict U on (die0 U rows) key = verdict U on rows key := by
    unfold verdict
    rw [filter_die0 hkey (judged U)]
  rw [entryOf_eq, entryOf_eq, hrows, hverdict]

/-- The rows of die 0 give the entries of die 0. -/
theorem jsonVerdict_die0 (rows : List Row) : jsonVerdict U on (die0 U rows) =
      (jsonVerdict U on rows).filter fun c => c.die = 0 := by
  rw [jsonVerdict, jsonVerdict, keys_die0, filter_map]
  have hfilter : ((fun c : Entry => decide (c.die = 0)) ∘ entryOf U on rows) =
      fun key => decide (key.2 = 0) := by
    funext key
    simp
  rw [hfilter]
  refine map_congr_left fun key hmem => ?_
  exact entryOf_die0 (of_decide_eq_true (mem_filter.mp hmem).2)

/-! ## Proposals -/

/-- The flips of a verdict that the tree does not have yet. -/
def attempts (refuses : Text → Dir → Bool) (on : List Text)
    (chips : List Entry) : List Pull :=
  (flips chips).filter fun p =>
    promoteChip refuses on p.chip p.dir ≠ .nothing

theorem proposeLoop_attempts (done : Proposed) (l : List Pull) :
    proposeLoop refuses on done (l.filter fun p =>
      promoteChip refuses on p.chip p.dir ≠ .nothing) = proposeLoop refuses on done l := by
  induction l generalizing done with
  | nil => rfl
  | cons p l ih =>
    cases hp : promoteChip refuses on p.chip p.dir with
    | nothing => simp only [filter_cons, hp, proposeLoop, ne_eq,
        not_true_eq_false, decide_false, Bool.false_eq_true, if_false, ih]
    | refused => simp [hp, proposeLoop]
    | flipped => simp only [filter_cons, hp, proposeLoop, ne_eq,
        reduceCtorEq, not_false_eq_true, decide_true, if_true, ih]

/-- A run of `propose` depends on its attempts alone. -/
theorem propose_congr {chips' : List Entry}
    (h : attempts refuses s.on chips = attempts refuses s.on chips') :
    propose refuses chips s = propose refuses chips' s := by
  have hloop : ∀ c, proposeLoop refuses s.on ⟨s.pulls, [], false⟩ (flips c) =
      proposeLoop refuses s.on ⟨s.pulls, [], false⟩
        (attempts refuses s.on c) := fun c => (proposeLoop_attempts _ _).symm
  unfold propose
  rw [hloop chips, hloop chips', h]

theorem mem_attempts {p : Pull} : p ∈ attempts refuses on chips ↔
      ∃ c ∈ chips, ∃ dir, direction c.verdict = some dir ∧ p = ⟨c.chip, dir, c⟩ ∧
          promoteChip refuses on c.chip dir ≠ .nothing := by
  simp only [attempts, flips, mem_filter, mem_filterMap,
    Option.map_eq_some_iff, decide_eq_true_eq]
  constructor
  · rintro ⟨⟨c, hc, dir, hdir, rfl⟩, hp⟩
    exact ⟨c, hc, dir, hdir, rfl, hp⟩
  · rintro ⟨c, hc, dir, hdir, rfl, hp⟩
    exact ⟨⟨c, hc, dir, hdir, rfl⟩, hp⟩

theorem flips_filter (chips : List Entry) (q : Entry → Bool) :
    flips (chips.filter q) = (flips chips).filter fun p => q p.recorded := by
  induction chips with
  | nil => rfl
  | cons c chips ih =>
    unfold flips at ih ⊢
    cases hdir : direction c.verdict <;> cases hq : q c <;>
      simp [hdir, hq, ih]

theorem attempts_die0 (rows : List Row) : attempts refuses on (jsonVerdict U on (die0 U rows)) =
      (attempts refuses on (jsonVerdict U on rows)).filter fun p =>
        p.recorded.die = 0 := by
  rw [attempts, attempts, jsonVerdict_die0, flips_filter, filter_filter, filter_filter]
  simp only [Bool.and_comm]

instance : Decidable (Promotes U rows key) :=
  decidable_of_iff _ promotes_iff.symm

/-- No other die is promoted, but of a chip that the tool finds enabled. -/
def NoRide (U : Unicode) (on : List Text) (rows : List Row) : Prop :=
  ∀ key ∈ keys U rows, key.2 ≠ 0 → Promotes U rows key →
    key.1 ∈ marketing ∧ key.1 ∈ on

instance : Decidable (NoRide U on rows) :=
  inferInstanceAs (Decidable (∀ key ∈ keys U rows, _))

theorem promoteChip_defaultOn : promoteChip refuses on chip .defaultOn = .nothing ↔
      chip ∈ marketing ∧ chip ∈ on := by
  unfold promoteChip
  by_cases hm : chip ∈ marketing <;> by_cases ho : chip ∈ on <;>
    simp [hm, ho]
  split <;> simp

/-- Another die of a chip is never enabled, so it has one direction. -/
theorem direction_other (hkey : key.2 ≠ 0) {dir : Dir} :
    direction (entryOf U on rows key).verdict = some dir ↔
      dir = .defaultOn ∧ Promotes U rows key := by
  have hoff : isOn on key = false := by simp [isOn, hkey]
  have hpromote := @entryOf_promote_iff U on rows key
  have hrevert := @entryOf_revert U on rows key
  simp only [hoff, true_and, Bool.false_eq_true] at hpromote hrevert
  rw [← hpromote]
  cases hv : (entryOf U on rows key).verdict with
  | promote => simp [direction, eq_comm]
  | revert => exact absurd hv hrevert
  | stay | on | conflict => simp [direction]

theorem attempts_die0_iff : attempts refuses on (jsonVerdict U on rows) =
        attempts refuses on (jsonVerdict U on (die0 U rows)) ↔
      NoRide U on rows := by
  rw [attempts_die0, eq_comm, filter_eq_self]
  constructor
  · intro h key hkey hdie hpromotes
    by_contra hnot
    have hmem : (⟨key.1, .defaultOn, entryOf U on rows key⟩ : Pull) ∈
        attempts refuses on (jsonVerdict U on rows) := by
      refine mem_attempts.mpr ⟨entryOf U on rows key,
        mem_jsonVerdict.mpr ⟨key, mem_keys.mp hkey, rfl⟩, .defaultOn,
        (direction_other hdie).mpr ⟨rfl, hpromotes⟩, by simp, ?_⟩
      rw [entryOf_chip, ne_eq, promoteChip_defaultOn]
      exact hnot
    have hzero := h _ hmem
    simp only [entryOf_die, decide_eq_true_eq] at hzero
    exact hdie hzero
  · intro h p hp
    obtain ⟨c, hc, dir, hdir, rfl, hnew⟩ := mem_attempts.mp hp
    obtain ⟨key, hkey, rfl⟩ := mem_jsonVerdict.mp hc
    by_contra hdie
    simp only [entryOf_die, decide_eq_true_eq] at hdie
    obtain ⟨rfl, hpromotes⟩ := (direction_other hdie).mp hdir
    rw [entryOf_chip, ne_eq, promoteChip_defaultOn] at hnew
    exact hnew (h key (mem_keys.mpr hkey) hdie hpromotes)

/-! ## The gate -/

/-- In an ordered list the least entry with a property is the first one. -/
private theorem find?_least {α : Type} {lt : α → α → Prop} {p : α → Bool}
    {l : List α} {a : α} (hl : l.Pairwise lt) (ha : a ∈ l) (hpa : p a = true)
    (hleast : ∀ b, p b = true → ¬ lt b a) : l.find? p = some a := by
  induction l with
  | nil => simp at ha
  | cons b l ih =>
    rw [pairwise_cons] at hl
    obtain rfl | ha := mem_cons.mp ha
    · simp [hpa]
    · have hb : p b = false := by
        by_contra hb
        exact hleast b (by simpa using hb) (hl.1 a ha)
      simp [hb, ih hl.2 ha]

/-- A chip with a row of die 0 is looked up at die 0. -/
theorem chipVerdict_die0 (h : (chip, 0) ∈ keys U rows) :
    chipVerdict (jsonVerdict U on rows) chip = some (entryOf U on rows (chip, 0)) := by
  unfold chipVerdict jsonVerdict
  rw [find?_map]
  have hfind : (keys U rows).find? ((fun c : Entry => decide (c.chip = chip)) ∘
      entryOf U on rows) = some (chip, 0) := by
    refine find?_least keys_strict h (by simp) ?_
    intro key hkey hlt
    simp only [Function.comp_apply, entryOf_chip, decide_eq_true_eq] at hkey
    simp [Prod.Lex.toLex_lt_toLex, hkey] at hlt
  rw [hfind]
  rfl

theorem chipVerdict_die0_none (h : (chip, 0) ∉ keys U rows) :
    chipVerdict (jsonVerdict U on (die0 U rows)) chip = none := by
  unfold chipVerdict
  rw [jsonVerdict_die0, find?_eq_none]
  intro c hc
  obtain ⟨hc, hdie⟩ := mem_filter.mp hc
  obtain ⟨key, hkey, rfl⟩ := mem_jsonVerdict.mp hc
  simp only [entryOf_die, entryOf_chip, decide_eq_true_eq] at hdie ⊢
  rintro rfl
  exact h (mem_keys.mpr (by rw [← hdie]; exact hkey))

/-- The gate refuses the record as merged already, or the chip has a row of
die 0, or its lowest other die does not back the record. -/
def GateAlone (U : Unicode) (on : List Text) (rows : List Row)
    (recorded : Entry) : Prop :=
  (recorded.verdict = .promote ↔ recorded.chip ∈ on) ∨
    (recorded.chip, 0) ∈ keys U rows ∨
      ((chipVerdict (jsonVerdict U on rows) recorded.chip).all fun fresh =>
        !(newEvidence recorded fresh).isEmpty) = true

instance {recorded : Entry} : Decidable (GateAlone U on rows recorded) :=
  inferInstanceAs (Decidable (_ ∨ _ ∨ _))

theorem gate_isOk {recorded : Entry} : (gate on chips recorded).isOk = true ↔
      ¬ (recorded.verdict = .promote ↔ recorded.chip ∈ on) ∧
        ∃ fresh, chipVerdict chips recorded.chip = some fresh ∧
          newEvidence recorded fresh = [] := by
  unfold gate
  split
  · next h => simp [h, Except.isOk, Except.toBool]
  · next h =>
    cases hfresh : chipVerdict chips recorded.chip with
    | none => simp [Except.isOk, Except.toBool]
    | some fresh =>
      cases hnew : newEvidence recorded fresh <;>
        simp [h, hnew, Except.isOk, Except.toBool]

theorem gate_die0_iff {recorded : Entry} : (gate on (jsonVerdict U on rows) recorded).isOk =
        (gate on (jsonVerdict U on (die0 U rows)) recorded).isOk ↔
      GateAlone U on rows recorded := by
  rw [Bool.eq_iff_iff, gate_isOk, gate_isOk, GateAlone]
  by_cases hon : recorded.verdict = .promote ↔ recorded.chip ∈ on
  · simp only [hon, not_true_eq_false, false_and, true_or]
  by_cases hzero : (recorded.chip, 0) ∈ keys U rows
  · -- Both look the chip up at die 0, in the same rows.
    have hzero' : (recorded.chip, 0) ∈ keys U (die0 U rows) := by
      rw [keys_die0, mem_filter]
      exact ⟨hzero, by simp⟩
    simp only [chipVerdict_die0 hzero, chipVerdict_die0 hzero', hzero,
      entryOf_die0, true_or, or_true]
  · simp only [chipVerdict_die0_none hzero, hon, hzero, false_or]
    cases chipVerdict (jsonVerdict U on rows) recorded.chip <;> simp

/-! ## Runs -/

/-- The step without the rows of the other dies. -/
def Act.die0 (U : Unicode) : Act → Act
  | .propose rows => .propose (Promotion.die0 U rows)
  | .gate rows chip dir => .gate (Promotion.die0 U rows) chip dir

/-- The condition on a step: no other die takes part in its decisions. -/
def isolated (U : Unicode) (s : Repo) : Act → Bool
  | .propose rows => decide (NoRide U s.on rows)
  | .gate rows chip dir =>
    match s.pulls.find? fun p => p.chip = chip ∧ p.dir = dir with
    | none => true
    | some p => decide (GateAlone U s.on rows p.recorded)

theorem flowStep_die0 {refuses : List Text → Text → Dir → Bool} {a : Act}
    (h : isolated U s a = true) :
    flowStep U refuses s (a.die0 U) = flowStep U refuses s a := by
  cases a with
  | propose rows =>
    have hsame : attempts (refuses s.on) s.on (jsonVerdict U s.on rows) =
        attempts (refuses s.on) s.on (jsonVerdict U s.on (Promotion.die0 U rows)) :=
      attempts_die0_iff.mpr (of_decide_eq_true h)
    exact congrArg some (propose_congr hsame.symm)
  | gate rows chip dir =>
    simp only [isolated] at h
    simp only [Act.die0, flowStep]
    cases hfind : s.pulls.find? fun p => p.chip = chip ∧ p.dir = dir with
    | none => rfl
    | some p =>
      simp only [hfind, decide_eq_true_eq] at h
      have hsame := gate_die0_iff.mpr h
      dsimp only
      generalize gate s.on (jsonVerdict U s.on rows) p.recorded = g at hsame ⊢
      generalize gate s.on (jsonVerdict U s.on (Promotion.die0 U rows)) p.recorded = g' at hsame ⊢
      cases g <;> cases g' <;> simp [Except.isOk, Except.toBool] at hsame ⊢

theorem run_die0 {refuses : List Text → Text → Dir → Bool} {as : List Act}
    (h : (flow U refuses).StepsMeet (isolated U) s as) :
    (flow U refuses).run s (as.map (Act.die0 U)) = (flow U refuses).run s as := by
  induction as generalizing s with
  | nil => rfl
  | cons a as ih =>
    have hstep : (flow U refuses).step s (a.die0 U) = (flow U refuses).step s a := flowStep_die0 h.1
    rw [map_cons, System.run, System.run, hstep]
    cases hs : (flow U refuses).step s a with
    | none => rfl
    | some t => exact ih (h.2 t hs)

/-- Proposals and gate decisions take no part of another die exactly under the
two conditions, and in a run whose steps all meet them the rows of the other
dies change nothing. -/
theorem flips_die_isolated (U : Unicode) (refuses : List Text → Text → Dir → Bool) :
    (∀ on rows, attempts (refuses on) on (jsonVerdict U on rows) =
          attempts (refuses on) on (jsonVerdict U on (die0 U rows)) ↔
        NoRide U on rows) ∧
    (∀ on rows recorded, (gate on (jsonVerdict U on rows) recorded).isOk =
          (gate on (jsonVerdict U on (die0 U rows)) recorded).isOk ↔
        GateAlone U on rows recorded) ∧
    (∀ s as, (flow U refuses).StepsMeet (isolated U) s as →
      (flow U refuses).run s (as.map (Act.die0 U)) = (flow U refuses).run s as) :=
  ⟨fun _ _ => attempts_die0_iff, fun _ _ _ => gate_die0_iff, fun _ _ => run_die0⟩

/-- A row of die 0 that passes promotes the chip beside a failing row of
die 1. -/
theorem flips_die_isolated_failing_die1 :
    let rows :=
      [sampleRow "0123456789abcdef" "t6002" (passingBlock "t6002" 0),
        sampleRow "fedcba9876543210" "t6002"
          { passingBlock "t6002" 1 with dmesg := ["ane: timed out".toList] }]
    let acts := [Act.propose rows, .gate rows "t6002".toList .defaultOn]
    let S := flow .ascii fun _ _ _ => false
    ∃ s, S.run ⟨[], [], []⟩ acts = some s ∧ s.merged.map (·.die) = [0] ∧
      S.StepsMeet (isolated .ascii) ⟨[], [], []⟩ acts ∧
      S.run ⟨[], [], []⟩ (acts.map (Act.die0 .ascii)) = some s := by
  intro rows acts S
  have hsome : ((S.restrict (isolated .ascii)).run ⟨[], [], []⟩ acts).map
      (fun s => s.merged.map (·.die)) = some [0] := by decide +kernel
  obtain ⟨s, hrun, hdies⟩ := Option.map_eq_some_iff.mp hsome
  obtain ⟨hrun, hmeet⟩ := System.run_restrict_iff.mp hrun
  refine ⟨s, hrun, hdies, hmeet, ?_⟩
  rw [(flips_die_isolated .ascii fun _ _ _ => false).2.2 _ _ hmeet]
  exact hrun

/-- A passing row of die 1 opens the flip of a chip without a row of die 0, and
the gate merges it. -/
theorem other_die_flips :
    let rows := [sampleRow "0123456789abcdef" "t6002" (passingBlock "t6002" 1)]
    let acts := [Act.propose rows, .gate rows "t6002".toList .defaultOn]
    let S := flow .ascii fun _ _ _ => false
    (S.run ⟨[], [], []⟩ acts).map (fun s => (s.on, s.merged.map (·.die))) =
        some (["t6002".toList], [1]) ∧
      S.run ⟨[], [], []⟩ (acts.map (Act.die0 .ascii)) = none := by
  decide +kernel

end OmarchyAne.Promotion
