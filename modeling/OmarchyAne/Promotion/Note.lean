import OmarchyAne.Promotion.Entries
import OmarchyAne.Promotion.Propose

/-!
# The note in the overlay source

A promotion writes its note, with the ids and driver sources of the judged
rows, into one line of a block comment of the overlay source.  `Source` is
such a file: its state line stands inside a block comment and nowhere else.

The note stays inside its line (`Confined`) exactly when no id and no driver
source of a judged row holds the characters that close a comment or a line
break (`commitNote_plain`, `confined_iff`).  Then the text outside the
comments is that of a promotion without a note, so it is the same for all such
rows.  A revert does not write its note into the file.
-/

namespace OmarchyAne.Promotion

open Lib List

variable {c : Entry} {U : Unicode} {on : List Text} {rows : List Row} {key : Key}
  {chip l note : Text}

/-! ## Plain text -/

/-- The text neither closes a comment nor ends a line. -/
def PlainText (t : Text) : Prop :=
  ¬ closing <:+: t ∧ ∀ c ∈ t, isLineBreak c = false

instance (t : Text) : Decidable (PlainText t) :=
  decidable_of_iff (¬ closing <:+: t ∧ t.all (fun c => !isLineBreak c) = true)
    (by simp [PlainText])

theorem plain_append_cons {a : Char} {u v : Text} (ha : a ∉ closing)
    (hbreak : isLineBreak a = false) :
    PlainText (u ++ a :: v) ↔ PlainText u ∧ PlainText v := by
  simp only [PlainText, infix_append_cons ha, forall_mem_append, forall_mem_cons, hbreak, true_and]
  tauto

theorem plain_intercalate {parts : List Text} :
    PlainText (",".toList.intercalate parts) ↔ ∀ p ∈ parts, PlainText p := by
  have hin : ['*', '/'] <:+: [','].intercalate parts ↔ ∃ p ∈ parts, ['*', '/'] <:+: p :=
    infix_intercalate (by decide) (by decide)
  have hbreak : (∀ c ∈ [','].intercalate parts, isLineBreak c = false) ↔
      ∀ p ∈ parts, ∀ c ∈ p, isLineBreak c = false :=
    forall_mem_intercalate (by simp [isLineBreak])
  rw [show ",".toList = [','] from rfl]
  simp only [PlainText, closing, hin, hbreak, not_exists, not_and]
  exact forall_and.symm.trans (forall_congr' fun p => imp_and.symm)

theorem noteRows_plain : PlainText (noteRows c) ↔ ∀ r ∈ judgedEntries c, PlainText r.rowSha := by
  have hparts := @plain_intercalate ((judgedEntries c).map (·.rowSha))
  rw [forall_mem_map] at hparts
  rw [← hparts]
  unfold noteRows
  split
  · next h =>
    rw [h]
    exact iff_of_true (by decide) (by decide)
  · rfl

theorem noteSources_plain : PlainText (noteSources c) ↔
    ∀ r ∈ judgedEntries c, ∀ source, r.driverSource = some source → PlainText source := by
  rw [noteSources, plain_intercalate]
  simp only [(sortBy_perm _ _).mem_iff, mem_dedup, mem_filter, mem_filterMap]
  constructor
  · intro h r hr source hsource
    by_cases hne : source = []
    · subst hne
      decide
    · exact h source ⟨⟨r, hr, hsource⟩, by simpa using hne⟩
  · rintro h source ⟨⟨r, hr, hsource⟩, -⟩
    exact h r hr source hsource

/-- The note is plain when the parts that come from the rows are. -/
theorem commitNote_plain : PlainText (commitNote c) ↔ ∀ r ∈ judgedEntries c, PlainText r.rowSha ∧
      ∀ source, r.driverSource = some source → PlainText source := by
  have hjoint : PlainText (noteRows c ++
      if noteSources c = [] then [] else "; ".toList ++ noteSources c) ↔
        PlainText (noteRows c) ∧ PlainText (noteSources c) := by
    split
    · next h =>
      rw [h, append_nil]
      exact (and_iff_left (by decide)).symm
    · show PlainText (noteRows c ++ ';' :: ([] ++ ' ' :: noteSources c)) ↔ _
      rw [plain_append_cons (by decide) (by decide),
        plain_append_cons (by decide) (by decide)]
      exact and_congr_right fun _ => and_iff_right (by decide)
  have hstart : PlainText (commitNote c) ↔ PlainText (noteRows c ++
      if noteSources c = [] then [] else "; ".toList ++ noteSources c) := by
    show PlainText ("row".toList ++ ' ' :: _) ↔ _
    rw [plain_append_cons (by decide) (by decide)]
    exact and_iff_right (by decide)
  rw [hstart, hjoint, noteRows_plain, noteSources_plain]
  exact forall_and.symm.trans (forall_congr' fun r => imp_and.symm)

/-! ## The parts that come from the rows -/

theorem forall_judgedEntries {q : RowEntry → Prop} :
    (∀ r ∈ judgedEntries (entryOf U on rows key), q r) ↔
      ∀ row ∈ rows, dieKey U row = some key → judged U row = true → q (rowEntry U row) := by
  simp only [judgedEntries, entryOf_rows, mem_filter, mem_map, rowsOf, decide_eq_true_eq]
  constructor
  · intro h row hrow hkey hj
    exact h _ ⟨⟨row, ⟨hrow, hkey⟩, rfl⟩, hj⟩
  · rintro h r ⟨⟨row, ⟨hrow, hkey⟩, rfl⟩, hj⟩
    exact h row hrow hkey hj

/-- No judged row of the key carries an id or a driver source that closes a
comment or ends a line. -/
def PlainRows (U : Unicode) (rows : List Row) (key : Key) : Prop :=
  ∀ row ∈ rows, dieKey U row = some key → judged U row = true →
    PlainText (row.contentSha256.take 12) ∧
      ∀ oa, block U row = some oa → PlainText (driverSource oa)

theorem commitNote_plain_iff : PlainText (commitNote (entryOf U on rows key)) ↔
      PlainRows U rows key := by
  rw [commitNote_plain, forall_judgedEntries]
  simp only [PlainRows, rowEntry, Option.map_eq_some_iff]
  constructor
  · intro h row hrow hkey hj
    obtain ⟨hsha, hsource⟩ := h row hrow hkey hj
    exact ⟨hsha, fun oa hoa => hsource _ ⟨oa, hoa, rfl⟩⟩
  · intro h row hrow hkey hj
    obtain ⟨hsha, hsource⟩ := h row hrow hkey hj
    refine ⟨hsha, ?_⟩
    rintro source ⟨oa, hoa, rfl⟩
    exact hsource oa hoa

/-! ## The overlay source -/

/-- An overlay source of an opt-in chip: its one state line stands in a block
comment, and the opt-in marker below it. -/
structure Source (chip : Text) where
  head : Text
  line : Text
  tail : Text
  found : stateLine (head ++ ((line ++ ['\n']) ++ tail)) = .ok (line ++ ['\n'])
  comment : (Scan.code.run head).1 = .block
  once : ¬ line ++ ['\n'] <:+: head ++ line
  onceTail : ¬ line ++ ['\n'] <:+: tail
  unmarked : ¬ marker chip <:+: head
  marked : marker chip <:+: head ++ ((line ++ ['\n']) ++ tail)

def Source.text {chip : Text} (d : Source chip) : Text :=
  d.head ++ ((d.line ++ ['\n']) ++ d.tail)

/-- The lines of a promotion: they begin as the tool writes them, end with a
full stop and have no line break inside. -/
def OnLine (l : Text) : Prop :=
  onStart <+: l ∧ l.getLast? = some '.' ∧ '\n' ∉ l

/-- No end of the marker begins a state line, and no state line begins an end
of the marker. -/
theorem marker_seam : ∀ chip ∈ marketing, ∀ s ∈ (marker chip).tails,
    s ≠ [] → ¬ s <+: onStart ∧ ¬ onStart <+: s := by
  decide +kernel

/-- The marker does not begin inside a state line: the line of the marker ends
with a slash, the state line with a full stop. -/
theorem startsAfter_onLine {t : Text} (hl : OnLine l) :
    StartsAfter (marker chip) (l ++ ['\n']) t := by
  obtain ⟨-, hdot, hbreak⟩ := hl
  rw [startsAfter_iff]
  intro s hs hsuf hpre
  obtain rfl | ⟨x, rfl, hx⟩ := suffix_concat_iff.mp hsuf
  · exact hs rfl
  · obtain ⟨rest, hrest⟩ := hpre
    rw [marker, append_assoc, append_assoc, cons_append, singleton_append] at hrest
    have hmarker : '\n' ∉ markerLine := by decide +kernel
    have hbreak' : '\n' ∉ x := fun h => hbreak (hx.subset h)
    obtain ⟨hline, -⟩ := append_cons_inj hmarker hbreak' hrest
    obtain ⟨front, rfl⟩ := hx
    have hlast : markerLine.getLast? = some '/' := by decide +kernel
    rw [← hline, getLast?_append, hlast, Option.some_or, Option.some.injEq] at hdot
    exact absurd hdot (by decide)

theorem startsAfter_head (d : Source chip) (hchip : chip ∈ marketing) {t : Text} (hl : OnLine l) :
    StartsAfter (marker chip) d.head ((l ++ ['\n']) ++ t) := by
  refine startsAfter_of_seam d.unmarked fun s hs hsuf hpre => ?_
  obtain ⟨hno, hno'⟩ := marker_seam chip hchip s (mem_tails _ _ |>.mpr hsuf) hs
  have hstart : onStart <+: (l ++ ['\n']) ++ t :=
    (hl.1.trans (prefix_append l ['\n'])).trans (prefix_append _ t)
  obtain h | h := prefix_or_prefix_of_prefix hpre hstart
  · exact hno h
  · exact hno' h

/-- What a promotion makes of the file: the state line is the new one, and the
marker is gone from the rest. -/
theorem editDts_promote (d : Source chip) (hchip : chip ∈ marketing)
    {note : Option Text} (hnote : stateOn (note.filter (· ≠ [])) = l ++ ['\n'])
    (hl : OnLine l) :
    editDts d.text chip true note = .ok (d.head ++ ((l ++ ['\n']) ++
      replaceAll (marker chip) [] d.tail)) := by
  have hline : replaceAll (d.line ++ ['\n']) (l ++ ['\n']) d.text =
      d.head ++ ((l ++ ['\n']) ++ d.tail) := by
    have hstart : StartsAfter (d.line ++ ['\n']) d.head
        ((d.line ++ ['\n']) ++ d.tail) := startsAfter_self (by
      rw [dropLast_concat]
      exact d.once)
    rw [Source.text, replaceAll_append hstart,
      replaceAll_self_append (by simp), replaceAll_eq_self d.onceTail]
  have hmarker : replaceAll (marker chip) [] (d.head ++ ((l ++ ['\n']) ++ d.tail)) =
        d.head ++ ((l ++ ['\n']) ++ replaceAll (marker chip) [] d.tail) := by
    rw [replaceAll_append (startsAfter_head d hchip hl), replaceAll_append (startsAfter_onLine hl)]
  unfold editDts
  rw [Source.text, d.found]
  simp only [bind, Except.bind, if_true, if_pos d.marked, hnote]
  rw [← Source.text, hline, hmarker]
  rfl

/-! ## Confinement -/

/-- `line` is one line of `t`, inside a block comment from its first character
to its last. -/
def InCommentLine (t line : Text) : Prop :=
  ∃ head tail l, t = head ++ (line ++ tail) ∧ line = l ++ ['\n'] ∧
    (∀ c ∈ l, isLineBreak c = false) ∧ (Scan.code.run head).1 = .block ∧
    ∀ p, p <+: line → (Scan.block.run p).1.InBlock

/-- A promotion with the note changes nothing outside the comments, and the
note stays inside the one comment line that it is written to. -/
def Confined (d : Source chip) (note : Text) : Prop :=
  ∃ t₀ t, editDts d.text chip true none = .ok t₀ ∧
    editDts d.text chip true (some note) = .ok t ∧
    outsideComments t = outsideComments t₀ ∧
    InCommentLine t (stateOn (some note))

/-- The state line of a promotion with a note, without its line break. -/
def noteLine (note : Text) : Text :=
  onStart ++ ' ' :: ([] ++ '(' :: (note ++ ')' :: ['.']))

theorem stateOn_some (note : Text) : stateOn (some note) = noteLine note ++ ['\n'] := by
  have hopen : " (".toList = [' ', '('] := by decide
  have hclose : ").\n".toList = [')', '.', '\n'] := by decide
  rw [stateOn, hopen, hclose, noteLine]
  simp

theorem onStart_plain : PlainText onStart := by decide +kernel

theorem noteLine_plain : PlainText (noteLine note) ↔ PlainText note := by
  rw [noteLine, plain_append_cons (by decide) (by decide),
    plain_append_cons (by decide) (by decide),
    plain_append_cons (by decide) (by decide)]
  have hnil : PlainText [] := by decide
  have hdot : PlainText ['.'] := by decide
  simp only [onStart_plain, hnil, hdot, true_and, and_true]

theorem noteLine_onLine (h : PlainText note) : OnLine (noteLine note) := by
  refine ⟨prefix_append _ _, ?_, fun hbreak => ?_⟩
  · simp [noteLine, getLast?_append, getLast?_cons]
  · have := (noteLine_plain.mpr h).2 _ hbreak
    exact absurd this (by decide)

/-- The state line of a promotion without a note. -/
theorem stateOn_none : stateOn none = (onStart ++ ['.']) ++ ['\n'] ∧ OnLine (onStart ++ ['.']) ∧
    ¬ closing <:+: (onStart ++ ['.']) ++ ['\n'] := by
  refine ⟨by decide +kernel, ⟨prefix_append _ _, ?_, ?_⟩, by decide +kernel⟩
  · simp
  · decide +kernel

theorem confined_iff (d : Source chip) (hchip : chip ∈ marketing)
    (hne : note ≠ []) : Confined d note ↔ PlainText note := by
  constructor
  · rintro ⟨t₀, t, -, -, -, head, tail, l, -, hl, hbreak, -, hblock⟩
    rw [Scan.block_iff, stateOn_some] at hblock
    rw [stateOn_some] at hl
    rw [← noteLine_plain]
    refine ⟨fun h => hblock (h.trans (prefix_append _ _).isInfix), ?_⟩
    rw [append_cancel_right hl]
    exact hbreak
  · intro hplain
    obtain ⟨hl₀, hon₀, hclose₀⟩ := stateOn_none
    have hon := noteLine_onLine hplain
    have hclose : ¬ closing <:+: noteLine note ++ ['\n'] := by
      rw [infix_append_cons (by decide), not_or]
      exact ⟨(noteLine_plain.mpr hplain).1, by decide⟩
    have hnote : stateOn ((some note).filter (· ≠ [])) = noteLine note ++ ['\n'] := by
      rw [Option.filter_some_pos (by simpa using hne), stateOn_some]
    refine ⟨_, _, editDts_promote d hchip hl₀ hon₀, editDts_promote d hchip hnote hon,
      outsideComments_line d.comment hclose hclose₀, d.head, _, noteLine note,
      by rw [stateOn_some], stateOn_some note, (noteLine_plain.mpr hplain).2,
      d.comment, ?_⟩
    rw [Scan.block_iff, stateOn_some]
    exact hclose

/-! ## Flips -/

/-- What the flip of an entry makes of an overlay source. -/
def flipDts (text : Text) (c : Entry) : Except Refuse Text :=
  editDts text c.chip (c.verdict = .promote) (some (commitNote c))

theorem commitNote_ne_nil (c : Entry) : commitNote c ≠ [] := by
  have h : "row ".toList = ['r', 'o', 'w', ' '] := by simp
  unfold commitNote
  rw [h]
  exact cons_ne_nil _ _

/-- All plain notes leave the same text outside the comments. -/
theorem confined_outside {d : Source chip} (h : Confined d note) :
    (editDts d.text chip true (some note)).map outsideComments =
      (editDts d.text chip true none).map outsideComments := by
  obtain ⟨t₀, t, ht₀, ht, hout, -⟩ := h
  rw [ht, ht₀]
  exact congrArg Except.ok hout

/-- A promotion stays inside its comment line exactly when the judged rows
carry plain text.  With plain rows on both sides, and in every revert, the text
outside the comments does not depend on the rows. -/
theorem flip_outside_comments (U : Unicode) (on : List Text)
    (rows : List Row) (c : Entry) (hc : c ∈ jsonVerdict U on rows)
    (hchip : c.chip ∈ marketing) (d : Source c.chip) :
    (Confined d (commitNote c) ↔ PlainRows U rows (c.chip, c.die)) ∧
    ∀ rows' c', c' ∈ jsonVerdict U on rows' → c'.chip = c.chip → c'.verdict = c.verdict →
      (c.verdict = .promote → PlainRows U rows (c.chip, c.die) →
        PlainRows U rows' (c'.chip, c'.die) →
        (flipDts d.text c).map outsideComments = (flipDts d.text c').map outsideComments) ∧
      (c.verdict ≠ .promote → ∀ text, flipDts text c = flipDts text c') := by
  have hplain : ∀ {rows : List Row} {c : Entry}, c ∈ jsonVerdict U on rows →
      (PlainText (commitNote c) ↔ PlainRows U rows (c.chip, c.die)) := by
    intro rows c hc
    obtain ⟨key, -, rfl⟩ := mem_jsonVerdict.mp hc
    simpa using commitNote_plain_iff
  refine ⟨(confined_iff d hchip (commitNote_ne_nil c)).trans (hplain hc), ?_⟩
  intro rows' c' hc' hsame hverdict
  constructor
  · intro hpromote h h'
    have hleft := (confined_iff d hchip (commitNote_ne_nil c)).mpr ((hplain hc).mpr h)
    have hright := (confined_iff d hchip (commitNote_ne_nil c')).mpr ((hplain hc').mpr h')
    simp only [flipDts, hverdict, hsame, hpromote, decide_true]
    rw [confined_outside hleft, confined_outside hright]
  · intro hrevert text
    simp only [flipDts, hverdict, hsame, hrevert, decide_false]
    rfl

/-- The overlay source of T8112, shortened. -/
def sampleSource : Source "t8112".toList where
  head := "// SPDX-License-Identifier: GPL-2.0+ OR MIT\n/*\n".toList
  line := (" * Overlay state: opt-in (\"ane-t8112\" in " ++
    "/etc/omarchy-mac-boot/dtb-overlays.opt-in).").toList
  tail := " */\n/dts-v1/;\n/plugin/;\n\n/ \x7b\n".toList ++
    (marker "t8112".toList ++ "\x7d;\n".toList)
  found := by decide +kernel
  comment := by decide +kernel
  once := by decide +kernel
  onceTail := by decide +kernel
  unmarked := by decide +kernel
  marked := by decide +kernel

/-- The note of a plain passing row stays inside its line. -/
theorem flip_outside_comments_t8112 :
    let rows := [sampleRow "0123456789abcdef" "t8112" (passingBlock "t8112" 0)]
    ∃ c, c ∈ jsonVerdict .ascii [] rows ∧ c.verdict = .promote ∧
      PlainRows .ascii rows (c.chip, c.die) ∧
      ∃ d : Source c.chip, Confined d (commitNote c) := by
  intro rows
  have hrow : dieKey .ascii (sampleRow "0123456789abcdef" "t8112"
      (passingBlock "t8112" 0)) = some ("t8112".toList, 0) := by decide +kernel
  have hc : entryOf .ascii [] rows ("t8112".toList, 0) ∈ jsonVerdict .ascii [] rows :=
    mem_jsonVerdict.mpr ⟨_, ⟨_, mem_singleton_self _, hrow⟩, rfl⟩
  have hchip : (entryOf .ascii [] rows ("t8112".toList, 0)).chip ∈ marketing := by
    rw [entryOf_chip]
    decide +kernel
  have hplain : PlainRows .ascii rows
      ((entryOf .ascii [] rows ("t8112".toList, 0)).chip,
        (entryOf .ascii [] rows ("t8112".toList, 0)).die) := by
    rw [entryOf_chip, entryOf_die, ← @commitNote_plain_iff _ []]
    decide +kernel
  have d : Source (entryOf .ascii [] rows ("t8112".toList, 0)).chip := by
    rw [entryOf_chip]
    exact sampleSource
  exact ⟨_, hc, by decide +kernel, hplain, d,
    (flip_outside_comments .ascii [] rows _ hc hchip d).1.mpr hplain⟩

/-- A driver source that closes the comment is compiled. -/
theorem flip_writes_code :
    let rows := fun source : String =>
      [sampleRow "0123456789abcdef" "t8112"
        { passingBlock "t8112" 0 with driverSource := some source.toList }]
    let flipped := fun source =>
      (jsonVerdict .ascii [] (rows source)).map fun c =>
        (c.verdict, (flipDts sampleSource.text c).map outsideComments)
    (flipped "*/ / \x7b \x7d; /*").map (·.1) = [.promote] ∧
      (flipped "dkms").map (·.1) = [.promote] ∧
      flipped "*/ / \x7b \x7d; /*" ≠ flipped "dkms" := by
  decide +kernel

end OmarchyAne.Promotion
