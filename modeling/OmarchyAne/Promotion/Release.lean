import OmarchyAne.Promotion.Dies

/-!
# The merges of a release (tools/promote_from_verdict.py)

A release lists the promotions that were merged since the last tag.
`mergedPromotions` reads them from `git log`: it cuts the log into records and
reads a promotion from a record whose subject `promoSubject` matches, or whose
subject is the title of a pull request (`prSubject`) and whose body has a
bullet that `promoSubject` matches.

The gate titles its squash commits `VERDICT: CHIP ANE (row ...)`, and the
pattern asks for the direction between the two (`VERDICT: CHIP ANE -> ...`).
So no title of the gate is read (`title_notSubject`), and the list is complete
exactly when the gate merged nothing (`mergedPromotions_complete`).
-/

namespace OmarchyAne.Promotion

open Lib List

variable {U : Unicode}

/-! ## Reading the log -/

private def noSpace (c : Char) : Bool := !isSpace c

private def hexOrComma (c : Char) : Bool :=
  ('0' ≤ c && c ≤ '9') || ('a' ≤ c && c ≤ 'f') || c = ','

private def lowerOrComma (c : Char) : Bool := ('a' ≤ c && c ≤ 'z') || c = ','

private def flipWord : Rx := .alt (.lit "PROMOTE".toList) (.lit "REVERT".toList)

private def dirWord : Rx :=
  .alt (.lit "default-on".toList) (.lit "opt-in".toList)

/-- `PROMO_SUBJECT`, with the groups of the source. -/
def promoSubject : Rx :=
  .seqs [.group 1 flipWord, .lit ": ".toList, .group 2 (.plus noSpace),
    .lit " ANE -> ".toList, .group 3 dirWord, .lit " (row ".toList,
    .group 4 (.alt (.plus hexOrComma) (.lit "none".toList)),
    .alt (.seqs [.lit "; ".toList, .group 5 (.plus lowerOrComma)]) .eps,
    .lit ")".toList, .stop]

/-- `PR_SUBJECT`. -/
def prSubject (U : Unicode) : Rx :=
  .seqs [.group 1 flipWord, .lit ": ".toList, .plus noSpace, .lit " (".toList,
    .many (· ≠ ')'), .lit ") ANE -> ".toList, dirWord, .lit " (#".toList,
    .plus U.isDecimal, .lit ")".toList, .stop]

/-- A line of the release: what the log says of one merge. -/
structure Promo where
  sha : Text
  verdict : Text
  chip : Text
  dir : Text
  rows : Text
  sources : Text
  deriving DecidableEq

def Promo.ofMatch (sha : Text) (m : Rx.At) : Promo where
  sha := sha
  verdict := (m.cap 1).getD []
  chip := (m.cap 2).getD []
  dir := (m.cap 3).getD []
  rows := (m.cap 4).getD []
  sources := (m.cap 5).getD []

/-- The match of the first bullet of a body that names a promotion. -/
def bullet (body : Text) : Option Rx.At :=
  (body.splitOnP isLineBreak).findSome? fun l =>
    if "* ".toList.isPrefixOf l then promoSubject.matchStart (l.drop 2)
    else none

def readSubject (U : Unicode) (subject body : Text) : Option Rx.At :=
  match promoSubject.matchStart subject with
  | some m => some m
  | none =>
    if ((prSubject U).matchStart subject).isSome then bullet body else none

def isUnit (c : Char) : Bool := c = '\x1f'

def isRecord (c : Char) : Bool := c = '\x1e'

/-- The promotion of one record.  Missing fields are empty. -/
def readRecord (U : Unicode) (record : Text) : Option Promo :=
  match (strip '\n' record).splitOnP isUnit ++ [[], []] with
  | sha :: subject :: body :: _ =>
    (readSubject U subject body).map (Promo.ofMatch sha)
  | _ => none

theorem isUnit_of_notMem {t : Text} (h : '\x1f' ∉ t) : ∀ c ∈ t, isUnit c = false := by
  intro c hc
  rw [isUnit, decide_eq_false_iff_not]
  rintro rfl
  exact h hc

theorem isRecord_of_notMem {t : Text} (h : '\x1e' ∉ t) : ∀ c ∈ t, isRecord c = false := by
  intro c hc
  rw [isRecord, decide_eq_false_iff_not]
  rintro rfl
  exact h hc

def mergedPromotions (U : Unicode) (log : Text) : List Promo :=
  ((log.splitOnP isRecord).filterMap (readRecord U)).reverse

/-! ## The commits -/

/-- A commit as `git log` shows it: hash, subject line and body. -/
structure Commit where
  sha : Text
  subject : Text
  body : Text
  sha_hex : ∀ c ∈ sha, c.isAlphanum = true

def Commit.text (c : Commit) : Text :=
  c.sha ++ '\x1f' :: (c.subject ++ '\x1f' :: c.body)

/-- What the tool asks of `git`.  The log has the format of the source filled in
for each commit, the newest first.  The subject of a message begins as its first
line does, up to any character that is not a space. -/
structure Git where
  log : List Commit → Text
  subject : Text → Text
  log_nil : log [] = []
  log_append : ∀ history c,
    log (history ++ [c]) = c.text ++ '\x1e' :: '\n' :: log history
  subject_line : ∀ u d t, '\n' ∉ u → isSpace d = false →
    ∃ t', subject (u ++ d :: t) = u ++ d :: t'

/-- A merge by the gate: a recorded flip that the gate passed on the verdict of
its moment.  The body of the squash commit is not the gate's. -/
structure GateMerge (G : Git) (U : Unicode) where
  overlays : Text
  on : List Text
  rows : List Row
  recorded : Entry
  commit : Commit
  on_eq : defaultOn overlays = some on
  flip : recorded.verdict = .promote ∨ recorded.verdict = .revert
  passed : (gate on (jsonVerdict U on rows) recorded).isOk = true
  subject_eq : commit.subject = G.subject (commitTitle recorded)

variable {G : Git}

/-- What the release has to say of a merge. -/
def GateMerge.promo (g : GateMerge G U) : Promo where
  sha := g.commit.sha
  verdict := g.recorded.verdict.text
  chip := g.recorded.chip
  dir := match g.recorded.verdict with
    | .promote => Dir.defaultOn.text
    | _ => Dir.optIn.text
  rows := noteRows g.recorded
  sources := noteSources g.recorded

/-- The subject is not the subject of a promotion. -/
def NotSubject (U : Unicode) (subject : Text) : Prop :=
  promoSubject.matchStart subject = none ∧ (prSubject U).matchStart subject = none

/-- What lands on the branch: a merge by the gate, or another commit whose
subject is not one of a promotion. -/
inductive Landed (G : Git) (U : Unicode) where
  | gate (g : GateMerge G U)
  | other (c : Commit) (h : NotSubject U c.subject)

def Landed.commit : Landed G U → Commit
  | .gate g => g.commit
  | .other c _ => c

def Landed.promo? : Landed G U → Option Promo
  | .gate g => some g.promo
  | .other _ _ => none

/-! ## The log, commit by commit -/

/-- The promotions of the records of a text. -/
def reads (U : Unicode) (t : Text) : List Promo :=
  (t.splitOnP isRecord).filterMap (readRecord U)

theorem readRecord_break (t : Text) : readRecord U ('\n' :: t) = readRecord U t := by
  rw [readRecord, readRecord, strip_cons_self]

theorem promoSubject_nil : promoSubject.matchStart [] = none := by
  decide +kernel

theorem readRecord_nil : readRecord U [] = none := by
  have hpr : (prSubject U).matchStart [] = none := by
    cases h : (prSubject U).matchStart [] with
    | none => rfl
    | some e =>
      obtain ⟨u, hu, w, rest, rfl, hw, -⟩ := Rx.matchStart_spells h
      have hnil : w = [] := by
        simp only [nil_eq, append_eq_nil_iff] at hu
        exact hu.1.1
      obtain hw | hw := hw <;> simp [hnil] at hw
  show (readSubject U [] []).map (Promo.ofMatch []) = none
  unfold readSubject
  rw [promoSubject_nil, hpr]
  rfl

theorem reads_break (t : Text) : reads U ('\n' :: t) = reads U t := by
  have hbreak : isRecord '\n' = false := by decide
  obtain ⟨first, rest, h⟩ := exists_cons_of_ne_nil (splitOnP_ne_nil isRecord t)
  rw [reads, reads, splitOnP_cons_eq_if_modifyHead, hbreak, h]
  simp [readRecord_break, filterMap_cons]

theorem reads_append (t t' : Text) : reads U (t ++ '\x1e' :: t') = reads U t ++ reads U t' := by
  rw [reads, reads, reads, splitOnP_append_cons t t' (by decide), filterMap_append]

theorem mergedPromotions_log (G : Git) (history : List Commit) :
    mergedPromotions U (G.log history) =
      history.flatMap fun c => (reads U c.text).reverse := by
  change (reads U (G.log history)).reverse = _
  induction history using List.reverseRecOn with
  | nil => simp [G.log_nil, reads, readRecord_nil]
  | append_singleton history c ih =>
    rw [G.log_append, reads_append, reads_break, reverse_append, ih, flatMap_append,
      flatMap_singleton]

/-! ## The title of a merge -/

/-- The beginning of a title, up to the first character that a row chose. -/
def titleStart (v : Verdict) (chip : Text) : Text :=
  v.text ++ (':' :: ' ' :: (chip ++ ' ' :: "ANE (row".toList))

theorem verdict_noSpace (v : Verdict) : ' ' ∉ v.text := by
  unfold Verdict.text
  split <;> simp

/-- The two words of a subject, cut at the first spaces. -/
theorem words_inj {v w chip s t t' : Text} (hv : ' ' ∉ v) (hw : ' ' ∉ w)
    (hchip : ' ' ∉ chip) (hs : ' ' ∉ s)
    (h : v ++ ':' :: ' ' :: (chip ++ ' ' :: t) = w ++ ':' :: ' ' :: (s ++ ' ' :: t')) : t = t' := by
  have hcut : ∀ x y : Text, x ++ ':' :: ' ' :: y = (x ++ [':']) ++ ' ' :: y := by
    simp
  rw [hcut, hcut] at h
  obtain ⟨-, h⟩ := append_cons_inj (by simpa using hv) (by simpa using hw) h
  exact (append_cons_inj hchip hs h).2

/-- A title of the gate is not read as a promotion. -/
theorem title_notSubject {chip : Text} (v : Verdict) (t : Text)
    (hchip : ' ' ∉ chip) : NotSubject U (titleStart v chip ++ t) := by
  have hword : ∀ w, flipWord.Spells w → ' ' ∉ w := by
    rintro w (hw | hw)
    · rw [Rx.lit_spells.mp hw]; simp
    · rw [Rx.lit_spells.mp hw]; simp
  have hname : ∀ s, (Rx.plus noSpace).Spells s → ' ' ∉ s := by
    intro s hs h
    exact absurd ((Rx.plus_spells.mp hs).2 _ h) (by decide)
  have htitle : titleStart v chip ++ t =
      v.text ++ ':' :: ' ' :: (chip ++ ' ' :: ("ANE (row".toList ++ t)) := by
    simp [titleStart]
  constructor
  · rw [Option.eq_none_iff_forall_ne_some]
    intro e h
    obtain ⟨u, hu, w, -, rfl, hw, colon, -, rfl, hcolon, s, -, rfl, hs, ane,
      rest, rfl, hane, -⟩ := Rx.matchStart_spells h
    rw [Rx.lit_spells.mp hcolon, Rx.lit_spells.mp hane, htitle] at hu
    have hrest : "ANE (row".toList ++ t = "ANE -> ".toList ++ (rest ++ e.rest) :=
      words_inj (verdict_noSpace v) (hword w hw) hchip (hname s hs) (by simpa using hu)
    simp at hrest
  · rw [Option.eq_none_iff_forall_ne_some]
    intro e h
    obtain ⟨u, hu, w, -, rfl, hw, colon, -, rfl, hcolon, s, -, rfl, hs, par,
      rest, rfl, hpar, -⟩ := Rx.matchStart_spells h
    rw [Rx.lit_spells.mp hcolon, Rx.lit_spells.mp hpar, htitle] at hu
    have hrest : "ANE (row".toList ++ t = "(".toList ++ (rest ++ e.rest) :=
      words_inj (verdict_noSpace v) (hword w hw) hchip (hname s hs) (by simpa using hu)
    simp at hrest

theorem titleStart_eq (v : Verdict) (chip : Text) : ∃ u, titleStart v chip = u ++ ['w'] :=
  ⟨v.text ++ (':' :: ' ' :: (chip ++ ' ' :: "ANE (ro".toList)), by simp [titleStart]⟩

/-- The characters of the beginning of a title are not those that frame the
log, and they break no line. -/
theorem titleStart_noBreak {chip : Text} (v : Verdict)
    (hchip : ∀ c ∈ chip, isSpace c = false) {a : Char}
    (ha : a = '\n' ∨ a = '\x1e' ∨ a = '\x1f') : a ∉ titleStart v chip := by
  have hspace : a ∉ chip := by
    intro h
    have := hchip a h
    obtain rfl | rfl | rfl := ha <;> simp [isSpace] at this
  have hv : a ∉ v.text := by
    unfold Verdict.text
    obtain rfl | rfl | rfl := ha <;> split <;> simp
  have hrest : a ∉ ':' :: ' ' :: "ANE (row".toList := by
    obtain rfl | rfl | rfl := ha <;> simp
  simp only [titleStart, mem_append, mem_cons, not_or] at hrest ⊢
  exact ⟨hv, hrest.1, hrest.2.1, hspace, hrest.2.1, hrest.2.2⟩

/-- The subject that git shows begins as the title does. -/
theorem subject_commitTitle (G : Git) {c : Entry} (hchip : ∀ x ∈ c.chip, isSpace x = false) :
    ∃ t, G.subject (commitTitle c) = titleStart c.verdict c.chip ++ t := by
  obtain ⟨u, hu⟩ := titleStart_eq c.verdict c.chip
  have hline : '\n' ∉ u := by
    intro h
    refine titleStart_noBreak c.verdict hchip (.inl rfl) ?_
    rw [hu]
    exact mem_append_left _ h
  obtain ⟨t, ht⟩ : ∃ t, commitTitle c = u ++ 'w' :: t :=
    ⟨' ' :: (noteRows c ++ ((if noteSources c = [] then []
      else "; ".toList ++ noteSources c) ++ ")".toList)), by
      rw [append_cons, ← hu]
      unfold commitTitle titleStart commitNote
      simp⟩
  obtain ⟨t', ht'⟩ := G.subject_line u 'w' t hline (by decide)
  exact ⟨t', by rw [ht, ht', hu, append_cons]⟩

/-! ## The records of a commit -/

/-- A record whose subject is not one of a promotion is passed over. -/
theorem readRecord_none {record sha subject : Text} {rest : List Text}
    (hfields : (strip '\n' record).splitOnP isUnit = sha :: subject :: rest)
    (h : NotSubject U subject) : readRecord U record = none := by
  have hread : ∀ body, readSubject U subject body = none := by
    intro body
    unfold readSubject
    rw [h.1, h.2]
    rfl
  unfold readRecord
  rw [hfields]
  cases rest <;> simp [hread]

theorem Commit.sha_plain (c : Commit) {a : Char} (ha : a.isAlphanum = false) : a ∉ c.sha := by
  intro h
  rw [c.sha_hex a h] at ha
  cases ha

/-- The beginning of a record keeps its hash in a field of its own. -/
theorem Commit.fields (c : Commit) (d : Char) (u t : Text) (hd : d ≠ '\n') :
    ∃ t', (strip '\n' (c.sha ++ '\x1f' :: (u ++ d :: t))).splitOnP isUnit =
      c.sha :: (u ++ d :: t').splitOnP isUnit := by
  have hhead : (c.sha ++ '\x1f' :: u).head? ≠ some '\n' := by
    have := c.sha_plain (a := '\n') (by decide)
    cases hsha : c.sha with
    | nil => simp
    | cons x sha =>
      rw [hsha] at this
      simp only [cons_append, head?_cons, ne_eq, Option.some.injEq]
      rintro rfl
      exact this mem_cons_self
  have hsplit : c.sha.splitOnP isUnit = [c.sha] :=
    splitOnP_single (isUnit_of_notMem (c.sha_plain (by decide)))
  obtain ⟨t', ht'⟩ := strip_append t hhead hd
  refine ⟨t', ?_⟩
  have hassoc : ∀ x, c.sha ++ '\x1f' :: (u ++ d :: x) = (c.sha ++ '\x1f' :: u) ++ d :: x := by simp
  rw [hassoc, ht', ← hassoc, splitOnP_append_cons _ _ (by decide), hsplit]
  rfl

/-- The first record is passed over where its subject is not one of a
promotion, whatever of the message is left in it. -/
theorem Commit.first_unread (c : Commit) {d : Char} {u t : Text}
    (htext : c.text = c.sha ++ '\x1f' :: (u ++ d :: t)) (hd : d ≠ '\n')
    (hrecord : '\x1e' ∉ u ++ [d])
    (hnot : ∀ t', ∃ field fields,
      (u ++ d :: t').splitOnP isUnit = field :: fields ∧ NotSubject U field) :
    reads U c.text = ((c.text.splitOnP isRecord).drop 1).filterMap (readRecord U) := by
  have hclean : '\x1e' ∉ c.sha ++ '\x1f' :: (u ++ [d]) := by
    rw [mem_append, mem_cons, not_or, not_or]
    exact ⟨c.sha_plain (by decide), by decide, hrecord⟩
  obtain ⟨first, rest, -, hsplit⟩ := splitOnP_append (t := t) (isRecord_of_notMem hclean)
  obtain ⟨t', ht'⟩ := c.fields d u first hd
  obtain ⟨field, fields, hfields, hfield⟩ := hnot t'
  rw [hfields] at ht'
  have hnone : readRecord U (c.sha ++ '\x1f' :: (u ++ [d]) ++ first) = none :=
    readRecord_none (by simpa using ht') hfield
  have hcut : c.text = c.sha ++ '\x1f' :: (u ++ [d]) ++ t := by simp [htext]
  rw [reads, hcut, hsplit, filterMap_cons, hnone, drop_one, tail_cons]

/-- The pieces that separators cut off a message: those behind a record
separator, and the first one too where a separator stands in the subject. -/
def Commit.strays (c : Commit) : List Text :=
  (c.text.splitOnP isRecord).drop
    (if c.subject.any fun x => isUnit x || isRecord x then 0 else 1)

/-- The promotions that these pieces spell. -/
def Landed.strays (e : Landed G U) : List Promo :=
  e.commit.strays.filterMap (readRecord U)

theorem GateMerge.chip_noSpace (g : GateMerge G U) : ∀ c ∈ g.recorded.chip, isSpace c = false := by
  obtain ⟨-, fresh, hfresh, hnew⟩ := gate_isOk.mp g.passed
  unfold chipVerdict at hfresh
  have hchip : fresh.chip = g.recorded.chip := by
    simpa using find?_some hfresh
  have hverdict : g.recorded.verdict = fresh.verdict := by
    unfold newEvidence at hnew
    simp only [append_eq_nil_iff] at hnew
    have := hnew.1.1.1
    split at this
    · next h => exact h
    · cases this
  obtain ⟨key, -, rfl⟩ := mem_jsonVerdict.mp (mem_of_find?_eq_some hfresh)
  rw [entryOf_chip] at hchip
  rw [← hchip]
  exact entryOf_noSpace g.on_eq (hverdict ▸ g.flip)

/-- The title of a merge is not read. -/
theorem reads_gate (g : GateMerge G U) : reads U g.commit.text =
    ((g.commit.text.splitOnP isRecord).drop 1).filterMap (readRecord U) := by
  have hchip := g.chip_noSpace
  obtain ⟨t, ht⟩ := subject_commitTitle G hchip
  obtain ⟨u, hu⟩ := titleStart_eq g.recorded.verdict g.recorded.chip
  have htext : g.commit.text =
      g.commit.sha ++ '\x1f' :: (u ++ 'w' :: (t ++ '\x1f' :: g.commit.body)) := by
    rw [Commit.text, g.subject_eq, ht, hu]
    simp
  refine g.commit.first_unread htext (by decide) ?_ fun t' => ?_
  · rw [← hu]
    exact titleStart_noBreak _ hchip (.inr (.inl rfl))
  · obtain ⟨field, fields, -, hfields⟩ := splitOnP_append (t := t')
      (isUnit_of_notMem (titleStart_noBreak g.recorded.verdict hchip (.inr (.inr rfl))))
    have hspace : ' ' ∉ g.recorded.chip := by
      intro h
      have := hchip ' ' h
      simp [isSpace] at this
    refine ⟨_, fields, ?_, title_notSubject g.recorded.verdict field hspace⟩
    rw [← hfields, hu, append_cons]

/-- No separator stands in the subject. -/
theorem Commit.uncut (c : Commit)
    (h : ¬(c.subject.any fun x => isUnit x || isRecord x) = true) :
    '\x1e' ∉ c.subject ∧ '\x1f' ∉ c.subject := by
  simp only [any_eq_true, not_exists, not_and] at h
  exact ⟨fun hc => h _ hc (by decide), fun hc => h _ hc (by decide)⟩

theorem reads_landed (e : Landed G U) : reads U e.commit.text = e.strays := by
  rw [Landed.strays, Commit.strays]
  split
  · rfl
  next hcut =>
  cases e with
  | gate g => exact reads_gate g
  | other c h =>
    obtain ⟨hrecord, hunit⟩ := c.uncut hcut
    refine c.first_unread rfl (by decide) (by simpa using hrecord) fun t' =>
      ⟨_, t'.splitOnP isUnit, ?_, h⟩
    rw [splitOnP_append_cons _ _ (by decide), splitOnP_single (isUnit_of_notMem hunit)]
    rfl

/-- A message without separators has no strays. -/
theorem strays_plain {e : Landed G U}
    (hsubject : (e.commit.subject.any fun x => isUnit x || isRecord x) = false)
    (hbody : '\x1e' ∉ e.commit.body) : e.strays = [] := by
  have hrecord : '\x1e' ∉ e.commit.text := by
    rw [Commit.text, mem_append, mem_cons, mem_append, mem_cons]
    simp [e.commit.sha_plain (a := '\x1e') (by decide),
      (e.commit.uncut (Bool.eq_false_iff.mp hsubject)).1, hbody]
  rw [Landed.strays, Commit.strays, splitOnP_single (isRecord_of_notMem hrecord), hsubject]
  rfl

/-! ## The release -/

/-- The merges that the release has to list, oldest first. -/
def merges (history : List (Landed G U)) : List Promo :=
  history.filterMap Landed.promo?

/-- The release lists exactly the merges of the gate if and only if there are
none and no message hides the record of a promotion behind a separator.  No
stray record may carry the hash of a merge, for then it could stand for it. -/
theorem mergedPromotions_complete (G : Git) (U : Unicode) (history : List (Landed G U))
    (hstray : ∀ g, Landed.gate g ∈ history → ∀ e ∈ history, ∀ p ∈ e.strays, p.sha ≠ g.commit.sha) :
    mergedPromotions U (G.log (history.map Landed.commit)) = merges history ↔
      (∀ g, Landed.gate g ∉ history) ∧ ∀ e ∈ history, e.strays = [] := by
  have hread : mergedPromotions U (G.log (history.map Landed.commit)) =
      history.flatMap fun e => e.strays.reverse := by
    rw [mergedPromotions_log, flatMap_map]
    simp only [reads_landed]
  rw [hread]
  have hnone : (∀ g, Landed.gate g ∉ history) → merges history = [] := by
    intro h
    rw [merges, filterMap_eq_nil_iff]
    intro e he
    cases e with
    | gate g => exact absurd he (h g)
    | other c _ => rfl
  constructor
  · intro h
    have hgate : ∀ g, Landed.gate g ∉ history := by
      intro g hg
      have hmem : g.promo ∈ merges history := mem_filterMap.mpr ⟨.gate g, hg, rfl⟩
      rw [← h, mem_flatMap] at hmem
      obtain ⟨e, he, hp⟩ := hmem
      exact hstray g hg e he _ (mem_reverse.mp hp) rfl
    refine ⟨hgate, fun e he => ?_⟩
    rw [hnone hgate, flatMap_eq_nil_iff] at h
    exact reverse_eq_nil_iff.mp (h e he)
  · rintro ⟨hgate, hsilent⟩
    rw [hnone hgate, flatMap_eq_nil_iff]
    intro e he
    rw [hsilent e he, reverse_nil]

/-- A commit with a subject of another kind. -/
def docsCommit : Commit where
  sha := "ccc".toList
  subject := "docs: something (#12)".toList
  body := "* PROMOTE: t9999 ANE -> default-on (row dead)".toList
  sha_hex := all_eq_true.mp (by decide +kernel)

theorem docsCommit_notSubject : NotSubject .ascii docsCommit.subject := by
  constructor <;> rw [← Option.isNone_iff_eq_none] <;> decide +kernel

/-- The subject is the first line, as git shows it of a title of one line. -/
def lineGit : Git where
  log history := history.reverse.flatMap fun c => c.text ++ '\x1e' :: ['\n']
  subject := takeWhile (· ≠ '\n')
  log_nil := rfl
  log_append := by simp
  subject_line u d t hu hd := by
    have hbreak : d ≠ '\n' := by
      rintro rfl
      cases hd
    refine ⟨t.takeWhile (· ≠ '\n'), ?_⟩
    rw [takeWhile_append_of_pos fun x hx => decide_eq_true (ne_of_mem_of_not_mem hx hu),
      takeWhile_cons, if_pos (decide_eq_true hbreak)]

/-- The merge of the flip of `t8112` on one passing row. -/
def t8112Merge : GateMerge lineGit .ascii where
  overlays := []
  on := []
  rows := [sampleRow "0123456789abcdef" "t8112" (passingBlock "t8112" 0)]
  recorded := entryOf .ascii []
    [sampleRow "0123456789abcdef" "t8112" (passingBlock "t8112" 0)]
    ("t8112".toList, 0)
  commit :=
    { sha := "bbb".toList
      subject := lineGit.subject (commitTitle (entryOf .ascii []
        [sampleRow "0123456789abcdef" "t8112" (passingBlock "t8112" 0)]
        ("t8112".toList, 0)))
      body := []
      sha_hex := all_eq_true.mp (by decide +kernel) }
  on_eq := by decide +kernel
  flip := .inl (by decide +kernel)
  passed := by decide +kernel
  subject_eq := rfl

theorem mergedPromotions_complete_docs :
    mergedPromotions .ascii (lineGit.log [docsCommit, t8112Merge.commit]) ≠
      merges [.other docsCommit docsCommit_notSubject, .gate t8112Merge] := by
  refine fun h => ((mergedPromotions_complete lineGit .ascii
    [.other docsCommit docsCommit_notSubject, .gate t8112Merge] ?_).mp h).1 t8112Merge (by simp)
  intro g _ e he p hp
  have hplain : e.strays = [] := by
    simp only [mem_cons, not_mem_nil, or_false] at he
    obtain rfl | rfl := he <;> exact strays_plain (by decide +kernel) (by decide +kernel)
  rw [hplain] at hp
  cases hp

/-- The release lists nothing where the gate merged a flip. -/
theorem mergedPromotions_misses_t8112 :
    mergedPromotions .ascii (lineGit.log [t8112Merge.commit]) = [] ∧ merges [.gate t8112Merge] =
        [⟨"bbb".toList, "PROMOTE".toList, "t8112".toList, "default-on".toList,
          "0123456789ab".toList, "dkms".toList⟩] := by
  decide +kernel

end OmarchyAne.Promotion
