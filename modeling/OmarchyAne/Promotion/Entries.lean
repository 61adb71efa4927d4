import OmarchyAne.Promotion.Check
import Mathlib.Data.List.Dedup

/-!
# The entries of a verdict

What `jsonVerdict` says of each chip and die, in terms of the rows.  There is
one entry for each key of the rows, in order (`mem_keys`, `keys_strict`), and
an entry depends on the rows of its key alone.  A key is promoted when it is
not enabled, has a judged row and all its judged rows pass
(`entryOf_promote_iff`); only an enabled chip is reverted, and only at die 0
(`entryOf_revert`).
-/

namespace OmarchyAne.Promotion

open Lib List

variable {U : Unicode} {on : List Text} {rows : List Row} {key : Key} {overlays : Text}

/-! ## Keys -/

theorem mem_keys : key ∈ keys U rows ↔ ∃ row ∈ rows, dieKey U row = some key := by
  rw [keys, (sortBy_perm _ _).mem_iff, mem_dedup, mem_filterMap]

theorem keys_strict : (keys U rows).Pairwise fun a b => toLex a < toLex b := by
  refine sortBy_strict (fun key : Key => toLex key) ?_
  exact (nodup_dedup _).map toLex.injective

theorem mem_jsonVerdict {c : Entry} : c ∈ jsonVerdict U on rows ↔
    ∃ key, (∃ row ∈ rows, dieKey U row = some key) ∧
      entryOf U on rows key = c := by
  simp only [jsonVerdict, mem_map, mem_keys]

/-! ## One entry -/

/-- The judged rows of a key. -/
def judgedOf (U : Unicode) (rows : List Row) (key : Key) : List Row :=
  rows.filter fun row => dieKey U row = some key ∧ judged U row

theorem mem_judgedOf {row : Row} : row ∈ judgedOf U rows key ↔
    row ∈ rows ∧ dieKey U row = some key ∧ judged U row = true := by
  simp [judgedOf]

/-- The verdict of an entry and what it changes, from its result. -/
def decision (on : List Text) (key : Key) :
    Option Result → State × Verdict × List Target
  | none => if isOn on key then (.on, .on, []) else (.optIn, .stay, [])
  | some r =>
    if r.on then (.on, if r.revert.isEmpty then .on else .revert, targets r)
    else
      (.optIn,
        if r.promote then .promote else if r.conflict then .conflict
          else .stay,
        targets r)

theorem entryOf_eq : entryOf U on rows key =
    { chip := key.1, die := key.2
      state := (decision on key (verdict U on rows key)).1
      verdict := (decision on key (verdict U on rows key)).2.1
      targets := (decision on key (verdict U on rows key)).2.2
      rows := (rowsOf U rows key).map (rowEntry U) } := by
  unfold entryOf decision
  cases verdict U on rows key with
  | none => by_cases h : isOn on key <;> simp [h]
  | some r => by_cases h : r.on <;> simp [h]

@[simp] theorem entryOf_chip : (entryOf U on rows key).chip = key.1 := by
  rw [entryOf_eq]

@[simp] theorem entryOf_die : (entryOf U on rows key).die = key.2 := by
  rw [entryOf_eq]

@[simp] theorem entryOf_rows : (entryOf U on rows key).rows =
    (rowsOf U rows key).map (rowEntry U) := by
  rw [entryOf_eq]

/-- The judged rows of the key are there, and all of them pass. -/
def Promotes (U : Unicode) (rows : List Row) (key : Key) : Prop :=
  (∃ row ∈ rows, dieKey U row = some key ∧ judged U row = true) ∧
    ∀ row ∈ rows, dieKey U row = some key → judged U row = true →
      passes U row = true

theorem promotes_iff : Promotes U rows key ↔
    judgedOf U rows key ≠ [] ∧
      ∀ row ∈ judgedOf U rows key, passes U row = true := by
  constructor
  · rintro ⟨⟨row, hrow, hkey, hj⟩, hall⟩
    refine ⟨ne_nil_of_mem (mem_judgedOf.mpr ⟨hrow, hkey, hj⟩), ?_⟩
    intro r hr
    obtain ⟨hr, hk, hj⟩ := mem_judgedOf.mp hr
    exact hall r hr hk hj
  · rintro ⟨hne, hall⟩
    obtain ⟨row, hrow⟩ := exists_mem_of_ne_nil _ hne
    exact ⟨⟨row, mem_judgedOf.mp hrow⟩, fun r hr hk hj =>
      hall r (mem_judgedOf.mpr ⟨hr, hk, hj⟩)⟩

/-- The three ways in which a verdict on a key comes about. -/
theorem verdict_cases (U : Unicode) (on : List Text) (rows : List Row) (key : Key) :
    (judgedOf U rows key = [] ∧ verdict U on rows key = none) ∨
      ∃ first rest, judgedOf U rows key = first :: rest ∧
        verdict U on rows key = some (resultOf U on key first rest) := by
  unfold verdict judgedOf
  cases rows.filter fun row => dieKey U row = some key ∧ judged U row with
  | nil => exact .inl ⟨rfl, rfl⟩
  | cons first rest => exact .inr ⟨first, rest, rfl, rfl⟩

theorem resultOf_promote {first : Row} {rest : List Row} :
    (resultOf U on key first rest).promote = true ↔
      ∀ row ∈ first :: rest, passes U row = true := by
  have hbad : ((first :: rest).filter fun row => !passes U row) = [] ↔
      ∀ row ∈ first :: rest, passes U row = true := by
    rw [filter_eq_nil_iff]
    simp
  constructor
  · intro h
    simp only [resultOf, Bool.and_eq_true, List.isEmpty_iff] at h
    exact hbad.mp h.2
  · intro h
    have hok : (first :: rest).filter (passes U) = first :: rest := filter_eq_self.mpr h
    simp only [resultOf, Bool.and_eq_true, List.isEmpty_iff, hok, hbad.mpr h]
    simp

theorem entryOf_promote_iff :
    (entryOf U on rows key).verdict = .promote ↔
      isOn on key = false ∧ Promotes U rows key := by
  rw [promotes_iff, entryOf_eq]
  obtain ⟨hj, hv⟩ | ⟨first, rest, hj, hv⟩ := verdict_cases U on rows key
  · rw [hv, hj, decision]
    split <;> simp
  · rw [hv, hj, ← @resultOf_promote U on key, decision]
    have hon : (resultOf U on key first rest).on = isOn on key := rfl
    rw [hon]
    cases isOn on key with
    | true =>
      simp only [if_true, Bool.true_eq_false, false_and, iff_false]
      split <;> simp
    | false =>
      cases (resultOf U on key first rest).promote with
      | true => simp
      | false =>
        simp only [Bool.false_eq_true, if_false]
        split <;> simp

theorem entryOf_revert (h : (entryOf U on rows key).verdict = .revert) : isOn on key = true := by
  rw [entryOf_eq] at h
  obtain ⟨-, hv⟩ | ⟨first, rest, -, hv⟩ := verdict_cases U on rows key
  · rw [hv, decision] at h
    split at h <;> simp at h
  · rw [hv, decision] at h
    split at h
    · next hon => exact hon
    · simp only at h
      repeat' split at h
      all_goals simp at h

/-- A row passes only on a chip with a golden. -/
theorem golden_of_passes {row : Row} {s : Text} (hs : soc row = some s)
    (hj : judged U row = true) (h : passes U row = true) :
    (get golden s).isSome = true := by
  have hblock : ∃ oa, block U row = some oa := by
    unfold judged at hj
    split at hj
    · simp at hj
    · next oa hoa => exact ⟨oa, hoa⟩
  obtain ⟨oa, hoa⟩ := hblock
  simp only [passes, failures, hs, hoa, List.isEmpty_iff, List.append_eq_nil_iff] at h
  cases hg : get golden s with
  | none => simp [hg] at h
  | some want => rfl

/-! ## The names of the chips -/

private theorem splitOnP_notMem {p : Char → Bool} {t piece : Text}
    (h : piece ∈ t.splitOnP p) : ∀ c ∈ piece, p c = false := by
  induction t generalizing piece with
  | nil =>
    rw [splitOnP_nil, mem_singleton] at h
    simp [h]
  | cons c t ih =>
    rw [splitOnP_cons_eq_if_modifyHead] at h
    split at h
    · obtain rfl | h := mem_cons.mp h
      · simp
      · exact ih h
    · next hc =>
      cases hs : t.splitOnP p with
      | nil => exact absurd hs (splitOnP_ne_nil p t)
      | cons first rest =>
        rw [hs] at h
        obtain rfl | h := mem_cons.mp h
        · have hfirst : ∀ c ∈ first, p c = false := ih (by simp [hs])
          simpa [hc] using hfirst
        · exact ih (by simp [hs, h])

private theorem mem_of_mapM {α β : Type} {f : α → Option β} {l : List α}
    {ys : List β} (h : l.mapM f = some ys) :
    ∀ y ∈ ys, ∃ x ∈ l, f x = some y := by
  induction l generalizing ys with
  | nil =>
    simp only [mapM_nil, Option.pure_def, Option.some.injEq] at h
    subst h
    simp
  | cons x l ih =>
    simp only [mapM_cons, Option.bind_eq_bind, Option.bind_eq_some_iff,
      Option.pure_def, Option.some.injEq] at h
    obtain ⟨y, hy, zs, hzs, rfl⟩ := h
    rw [forall_mem_cons]
    refine ⟨⟨x, mem_cons_self, hy⟩, fun z hz => ?_⟩
    obtain ⟨w, hw, hwz⟩ := ih hzs z hz
    exact ⟨w, mem_cons_of_mem x hw, hwz⟩

/-- The chip of a row of the overlay table is a word. -/
theorem overlayLines_word {lines : List (Text × Text × Text)}
    (h : overlayLines overlays = some lines) {line : Text × Text × Text}
    (hline : line ∈ lines) :
    line.1 ≠ [] ∧ ∀ c ∈ line.1, isSpace c = false := by
  obtain ⟨l, -, hl⟩ := mem_of_mapM h line hline
  split at hl
  · next chip source state hwords =>
    cases hl
    have hword : chip ∈ (l.splitOnP isSpace).filter (· ≠ []) := by
      rw [hwords]
      exact mem_cons_self
    rw [mem_filter] at hword
    exact ⟨of_decide_eq_true hword.2, splitOnP_notMem hword.1⟩
  · cases hl

/-- An enabled chip is a word of the overlay table. -/
theorem defaultOn_noSpace (h : defaultOn overlays = some on) {chip : Text}
    (hchip : chip ∈ on) : ∀ c ∈ chip, isSpace c = false := by
  rw [defaultOn, Option.map_eq_some_iff] at h
  obtain ⟨lines, hlines, rfl⟩ := h
  obtain ⟨line, hline, rfl⟩ := mem_map.mp hchip
  exact (overlayLines_word hlines (mem_filter.mp hline).1).2

theorem golden_noSpace : ∀ kv ∈ golden, ∀ c ∈ kv.1, isSpace c = false := by
  have hall : golden.all (fun kv => kv.1.all fun c => !isSpace c) = true := by
    decide +kernel
  simpa using hall

/-- The chip of a flip has no space in its name: it has a golden or it is
enabled. -/
theorem entryOf_noSpace (hon : defaultOn overlays = some on)
    (h : (entryOf U on rows key).verdict = .promote ∨ (entryOf U on rows key).verdict = .revert) :
    ∀ c ∈ key.1, isSpace c = false := by
  obtain h | h := h
  · obtain ⟨-, ⟨row, hrow, hkey, hj⟩, hall⟩ := entryOf_promote_iff.mp h
    have hsoc : soc row = some key.1 := by
      rw [dieKey, Option.map_eq_some_iff] at hkey
      obtain ⟨s, hs, rfl⟩ := hkey
      exact hs
    have hgolden := golden_of_passes hsoc hj (hall row hrow hkey hj)
    rw [get, Option.isSome_map, find?_isSome] at hgolden
    obtain ⟨kv, hkv, hname⟩ := hgolden
    rw [decide_eq_true_eq] at hname
    exact hname ▸ golden_noSpace kv hkv
  · have hisOn := entryOf_revert h
    rw [isOn, Bool.and_eq_true, decide_eq_true_eq, decide_eq_true_eq] at hisOn
    exact defaultOn_noSpace hon hisOn.2

/-! ## A row that passes -/

/-- A block with everything that a pass needs. -/
def passingBlock (chip : String) (die : Nat) : Block where
  check := ⟨some true, some 0, some "ready".toList, []⟩
  module := get driver chip.toList
  smoke := ⟨none, none, some true, some true, none,
    some (List.replicate 20 ((get golden chip.toList).getD [])), some 0⟩
  dmesg := []
  dmesgFaults := []
  driverSource := some "dkms".toList
  die := some die

def sampleRow (sha chip : String) (oa : Block) : Row where
  contentSha256 := sha.toList
  chip := some ("apple,".toList ++ chip.toList)
  receivedAt := none
  runtime := .block oa
  truncated := []
  aneLinux := none

end OmarchyAne.Promotion
