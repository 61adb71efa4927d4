import OmarchyAne.Promotion.Entries

/-!
# Verdicts and the order of the rows

The rows of a dataset come in some order, and `jsonVerdict` should not depend
on it.  Most of an entry does not: its key, its state, whether it is promoted
and the set of its row entries are the same for every order.  One decision
does.  An enabled key is reverted on its latest judged row, and of several rows
with the largest time the tool takes the first.

`jsonVerdict_orderFree_iff` says when the order does not matter: for every
enabled key, the judged rows with the largest time are all clean or all not
clean.  A row without a time counts as the earliest.
-/

namespace OmarchyAne.Promotion

open Lib List

variable {U : Unicode} {on : List Text} {rows rows' : List Row} {key : Key} {first : Row}
  {rest : List Row} {row : Row}

/-! ## The latest row -/

/-- The time of a row.  A missing time is the empty text. -/
def stamp (row : Row) : Text := row.receivedAt.getD []

/-- The row has the largest time of the list. -/
def IsLatest (rows : List Row) (row : Row) : Prop :=
  row ∈ rows ∧ ∀ other ∈ rows, stamp other ≤ stamp row

theorem latest_isLatest (first : Row) (rest : List Row) :
    IsLatest (first :: rest) (latest first rest) := by
  induction rest generalizing first with
  | nil =>
    refine ⟨mem_cons_self, fun other h => ?_⟩
    rw [mem_singleton.mp h]
    exact le_rfl
  | cons row rest ih =>
    unfold latest
    split
    · next hlt =>
      obtain ⟨hmem, hmax⟩ := ih row
      refine ⟨mem_cons_of_mem _ hmem, fun other h => ?_⟩
      rcases mem_cons.mp h with rfl | h
      · exact (le_of_lt hlt).trans (hmax row mem_cons_self)
      · exact hmax other h
    · next hle =>
      obtain ⟨hmem, hmax⟩ := ih first
      refine ⟨?_, fun other h => ?_⟩
      · rcases mem_cons.mp hmem with h | h
        · rw [h]
          exact mem_cons_self
        · exact mem_cons_of_mem _ (mem_cons_of_mem _ h)
      · rcases mem_cons.mp h with rfl | h
        · exact hmax _ mem_cons_self
        · rcases mem_cons.mp h with rfl | h
          · exact (not_lt.mp hle).trans (hmax first mem_cons_self)
          · exact hmax other (mem_cons_of_mem _ h)

/-- A first row that no other is later than is taken. -/
theorem latest_first (h : ∀ other ∈ rest, stamp other ≤ stamp first) :
    latest first rest = first := by
  induction rest with
  | nil => rfl
  | cons row rest ih =>
    have hrow : ¬ first.receivedAt.getD [] < row.receivedAt.getD [] :=
      not_lt.mpr (h row mem_cons_self)
    rw [latest, if_neg hrow]
    exact ih fun other hother => h other (mem_cons_of_mem _ hother)

theorem IsLatest.perm (h : IsLatest rows row) (hperm : rows.Perm rows') : IsLatest rows' row :=
  ⟨hperm.mem_iff.mp h.1, fun other hother =>
    h.2 other (hperm.mem_iff.mpr hother)⟩

/-- The row has no reason to revert its chip. -/
def clean (U : Unicode) (row : Row) : Bool :=
  match block U row with
  | some oa => (unclean U oa).isEmpty
  | none => true

/-! ## What decides an entry -/

theorem judgedOf_perm (h : rows.Perm rows') :
    (judgedOf U rows key).Perm (judgedOf U rows' key) := h.filter _

theorem isEmpty_perm {α : Type} {l l' : List α} (h : l.Perm l') : l.isEmpty = l'.isEmpty := by
  rw [Bool.eq_iff_iff, List.isEmpty_iff, List.isEmpty_iff]
  constructor
  · rintro rfl
    exact h.symm.eq_nil
  · rintro rfl
    exact h.eq_nil

/-- A decision reads a result only this far. -/
theorem decision_congr {r r' : Result} (hon : r.on = r'.on)
    (hrevert : r.revert.isEmpty = r'.revert.isEmpty)
    (hpromote : r.promote = r'.promote) (hconflict : r.conflict = r'.conflict)
    (hintree : r.intree.isEmpty = r'.intree.isEmpty) :
    decision on key (some r) = decision on key (some r') := by
  simp only [decision, targets, hon, hrevert, hpromote, hconflict, hintree]

theorem resultOf_revert (first : Row) (rest : List Row) :
    (resultOf U on key first rest).revert.isEmpty =
      (!isOn on key || clean U (latest first rest)) := by
  simp only [resultOf, clean]
  cases isOn on key with
  | false => rfl
  | true =>
    cases block U (latest first rest) with
    | none => rfl
    | some oa => rfl

/-- The judged rows decide up to their order, but for the latest row of an
enabled key. -/
theorem resultOf_perm {first' : Row} {rest' : List Row} (h : (first :: rest).Perm (first' :: rest'))
    (hlatest : isOn on key = true → clean U (latest first rest) = clean U (latest first' rest')) :
    decision on key (some (resultOf U on key first rest)) =
      decision on key (some (resultOf U on key first' rest')) := by
  have hok := isEmpty_perm (h.filter (passes U))
  have hbad := isEmpty_perm (h.filter fun row => !passes U row)
  refine decision_congr rfl ?_ ?_ ?_ ?_
  · rw [resultOf_revert, resultOf_revert]
    cases hon : isOn on key with
    | false => rfl
    | true => rw [hlatest hon]
  · simp only [resultOf, hok, hbad]
  · simp only [resultOf, hok, hbad]
  · exact isEmpty_perm (((h.filter _).filter _).map _)

/-- For every enabled key, the judged rows with the largest time agree on
whether they are clean. -/
def LatestAgree (U : Unicode) (on : List Text) (rows : List Row) : Prop :=
  ∀ key, isOn on key = true → ∀ row row',
    IsLatest (judgedOf U rows key) row → IsLatest (judgedOf U rows key) row' →
    clean U row = clean U row'

theorem decision_perm (hagree : LatestAgree U on rows) (h : rows.Perm rows') (key : Key) :
    decision on key (verdict U on rows key) = decision on key (verdict U on rows' key) := by
  have hjudged : (judgedOf U rows key).Perm (judgedOf U rows' key) := judgedOf_perm h
  obtain ⟨hj, hv⟩ | ⟨first, rest, hj, hv⟩ := verdict_cases U on rows key
  · obtain ⟨-, hv'⟩ | ⟨first', rest', hj', -⟩ := verdict_cases U on rows' key
    · rw [hv, hv']
    · rw [hj, hj'] at hjudged
      exact absurd hjudged.symm.eq_nil (cons_ne_nil _ _)
  · obtain ⟨hj', -⟩ | ⟨first', rest', hj', hv'⟩ := verdict_cases U on rows' key
    · rw [hj, hj'] at hjudged
      exact absurd hjudged.eq_nil (cons_ne_nil _ _)
    · rw [hv, hv']
      rw [hj, hj'] at hjudged
      refine resultOf_perm hjudged fun hon => ?_
      refine hagree key hon _ _ ?_ ?_
      · rw [hj]
        exact latest_isLatest first rest
      · rw [hj]
        exact (latest_isLatest first' rest').perm hjudged.symm

/-- The keys do not depend on the order. -/
theorem keys_perm (h : rows.Perm rows') : keys U rows = keys U rows' := by
  refine List.Perm.eq_of_pairwise
    (fun a b _ _ (hab : toLex a < toLex b) hba => absurd hab (lt_asymm hba))
    keys_strict keys_strict ?_
  · refine (sortBy_perm _ _).trans (List.Perm.trans ?_ (sortBy_perm _ _).symm)
    exact (h.filterMap _).dedup

/-! ## Every order -/

/-- Two entries that say the same, with the same set of row entries. -/
structure SameEntry (c c' : Entry) : Prop where
  chip : c.chip = c'.chip
  die : c.die = c'.die
  state : c.state = c'.state
  verdict : c.verdict = c'.verdict
  targets : c.targets = c'.targets
  rows : ∀ r, r ∈ c.rows ↔ r ∈ c'.rows

/-- Every order of the rows gives the same entries. -/
def OrderFree (U : Unicode) (on : List Text) (rows : List Row) : Prop :=
  ∀ rows', rows.Perm rows' →
    List.Forall₂ SameEntry (jsonVerdict U on rows) (jsonVerdict U on rows')

theorem entryOf_same (h : rows.Perm rows')
    (hdecision : decision on key (verdict U on rows key) =
      decision on key (verdict U on rows' key)) :
    SameEntry (entryOf U on rows key) (entryOf U on rows' key) := by
  rw [entryOf_eq, entryOf_eq, hdecision]
  exact ⟨rfl, rfl, rfl, rfl, rfl, fun r =>
    ((h.filter _).map (rowEntry U)).mem_iff⟩

/-- The verdict of an enabled key when a latest row comes first. -/
theorem verdict_of_latest_first (hon : isOn on key = true)
    (hrow : dieKey U row = some key ∧ judged U row = true)
    (hlatest : ∀ other ∈ judgedOf U rest key, stamp other ≤ stamp row) :
    (entryOf U on (row :: rest) key).verdict = if clean U row then .on else .revert := by
  have hj : judgedOf U (row :: rest) key = row :: judgedOf U rest key :=
    filter_cons_of_pos (by simpa using hrow)
  obtain ⟨hnil, -⟩ | ⟨first, rest', hj', hv⟩ := verdict_cases U on (row :: rest) key
  · rw [hj] at hnil
    cases hnil
  · rw [hj, List.cons.injEq] at hj'
    obtain ⟨rfl, rfl⟩ := hj'
    have hrevert : (resultOf U on key row (judgedOf U rest
        key)).revert.isEmpty = _ := resultOf_revert row (judgedOf U rest key)
    rw [latest_first hlatest, hon] at hrevert
    rw [entryOf_eq, hv]
    show (decision on key (some (resultOf U on key row (judgedOf U rest key)))).2.1 = _
    rw [decision, if_pos (show (resultOf U on key row _).on = true from hon), hrevert]
    rfl

/-- The order of the rows does not matter exactly when, for every enabled key,
the judged rows with the largest time are all clean or all not clean. -/
theorem jsonVerdict_orderFree_iff (U : Unicode) (on : List Text)
    (rows : List Row) : OrderFree U on rows ↔ LatestAgree U on rows := by
  constructor
  · -- Put one latest row first, then the other.
    intro hfree key hon row row' hrow hrow'
    have hkey : key ∈ keys U rows := mem_keys.mpr
      ⟨row, (mem_judgedOf.mp hrow.1).1, (mem_judgedOf.mp hrow.1).2.1⟩
    have hverdict : ∀ q, IsLatest (judgedOf U rows key) q → (entryOf U on rows key).verdict =
          if clean U q then .on else .revert := by
      intro q hq
      obtain ⟨hmem, hjudged⟩ := mem_judgedOf.mp hq.1
      obtain ⟨before, after, rfl⟩ := append_of_mem hmem
      have hperm : (before ++ q :: after).Perm (q :: (before ++ after)) := perm_middle
      have hsame := hfree _ hperm
      rw [jsonVerdict, jsonVerdict, ← keys_perm hperm,
        List.forall₂_map_left_iff, List.forall₂_map_right_iff,
        List.forall₂_same] at hsame
      rw [(hsame key hkey).verdict]
      refine verdict_of_latest_first hon hjudged fun other hother => ?_
      refine hq.2 other ((judgedOf_perm hperm).mem_iff.mpr ?_)
      obtain ⟨hin, hother⟩ := mem_judgedOf.mp hother
      exact mem_judgedOf.mpr ⟨mem_cons_of_mem _ hin, hother⟩
    have heq := (hverdict row hrow).symm.trans (hverdict row' hrow')
    cases hc : clean U row <;> cases hc' : clean U row' <;>
      simp [hc, hc'] at heq ⊢
  · intro hagree rows' hperm
    rw [jsonVerdict, jsonVerdict, ← keys_perm hperm,
      List.forall₂_map_left_iff, List.forall₂_map_right_iff,
      List.forall₂_same]
    exact fun key _ => entryOf_same hperm (decision_perm hagree hperm key)

/-- Two judged rows of an enabled chip without a time, one that was ready and
one that was not: the first of them decides. -/
theorem first_row_decides :
    let pass := sampleRow "0123456789abcdef" "t8103" (passingBlock "t8103" 0)
    let fail := sampleRow "fedcba9876543210" "t8103"
      { passingBlock "t8103" 0 with
        check := ⟨some true, some 1, some "failed".toList, []⟩ }
    (jsonVerdict .ascii ["t8103".toList] [pass, fail]).map
        (fun c => (c.verdict, c.targets)) = [(.on, [])] ∧
      (jsonVerdict .ascii ["t8103".toList] [fail, pass]).map
        (fun c => (c.verdict, c.targets)) = [(.revert, [.overlay])] := by
  decide +kernel

end OmarchyAne.Promotion
