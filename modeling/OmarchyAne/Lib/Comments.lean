import OmarchyAne.Lib.Text

/-!
# Comments of C source text

What a C or device tree compiler sees of a source text: `outsideComments` is
the text with each block comment replaced by a space and each line comment
dropped.  The scanner goes one character at a time (`Scan.step`), knows string
and character literals, and holds back a slash until it knows whether a
comment begins.

A line inside a block comment has no effect on the rest exactly when it does
not hold the two characters that close the comment (`block_iff`), and then one
such line is as good as another (`outsideComments_line`).
-/

namespace OmarchyAne.Lib

open List

/-- Where the scanner stands. -/
inductive Scan where
  | code
  /-- After a slash in code. -/
  | slash
  | line
  | block
  /-- After an asterisk in a block comment. -/
  | star
  | quote (q : Char)
  /-- After a backslash in a literal. -/
  | escape (q : Char)
  deriving DecidableEq

namespace Scan

/-- One character: where the scanner is next, and what it passes on. -/
def step : Scan → Char → Scan × Text
  | .code, c =>
    if c = '/' then (.slash, [])
    else if c = '"' ∨ c = '\x27' then (.quote c, [c])
    else (.code, [c])
  | .slash, c =>
    if c = '/' then (.line, [])
    else if c = '*' then (.block, [])
    else if c = '"' ∨ c = '\x27' then (.quote c, ['/', c])
    else (.code, ['/', c])
  | .line, c => if c = '\n' then (.code, [c]) else (.line, [])
  | .block, c => if c = '*' then (.star, []) else (.block, [])
  | .star, c =>
    if c = '/' then (.code, [' '])
    else if c = '*' then (.star, [])
    else (.block, [])
  | .quote q, c =>
    if c = '\\' then (.escape q, [c])
    else if c = q then (.code, [c])
    else (.quote q, [c])
  | .escape q, c => (.quote q, [c])

def run : Scan → Text → Scan × Text
  | s, [] => (s, [])
  | s, c :: t =>
    let next := s.step c
    let rest := run next.1 t
    (rest.1, next.2 ++ rest.2)

/-- The scanner is inside a block comment. -/
def InBlock (s : Scan) : Prop := s = .block ∨ s = .star

instance (s : Scan) : Decidable s.InBlock :=
  inferInstanceAs (Decidable (_ ∨ _))

theorem run_append (s : Scan) (t u : Text) : s.run (t ++ u) =
      (((s.run t).1.run u).1, (s.run t).2 ++ ((s.run t).1.run u).2) := by
  induction t generalizing s with
  | nil => rfl
  | cons c t ih => simp [run, ih]

end Scan

/-- What stands outside the comments of a text. -/
def outsideComments (t : Text) : Text :=
  let scanned := Scan.code.run t
  scanned.2 ++ if scanned.1 = .slash then ['/'] else []

/-! ## A line inside a block comment -/

/-- The characters that close a block comment. -/
def closing : Text := ['*', '/']

namespace Scan

/-- The asterisk that the scanner has in mind. -/
private def pending : Scan → Text
  | .star => ['*']
  | _ => []

private theorem run_inBlock {s : Scan} {t : Text} (hs : s.InBlock)
    (h : ¬ closing <:+: s.pending ++ t) :
    (s.run t).1.InBlock ∧ (s.run t).2 = [] := by
  induction t generalizing s with
  | nil => exact ⟨hs, rfl⟩
  | cons c t ih =>
    obtain rfl | rfl := hs
    · have hrest : ¬ closing <:+: t := fun ht =>
        h (ht.trans (suffix_cons c t).isInfix)
      by_cases hc : c = '*'
      · subst hc
        simpa [run, step] using ih (s := .star) (.inr rfl) h
      · simpa [run, step, hc] using ih (s := .block) (.inl rfl) hrest
    · have hrest : ¬ closing <:+: c :: t := fun ht =>
        h (ht.trans (suffix_cons '*' (c :: t)).isInfix)
      by_cases hc : c = '/'
      · subst hc
        exact absurd (prefix_append closing t).isInfix h
      · by_cases hc' : c = '*'
        · subst hc'
          simpa [run, step] using ih (s := .star) (.inr rfl) hrest
        · simpa [run, step, hc, hc'] using ih (s := .block) (.inl rfl)
            fun ht => hrest (ht.trans (suffix_cons c t).isInfix)

/-- A text stays inside the block comment around it exactly when it does not
hold the characters that close it. -/
theorem block_iff {t : Text} :
    (∀ p, p <+: t → (Scan.block.run p).1.InBlock) ↔ ¬ closing <:+: t := by
  constructor
  · rintro h ⟨a, b, rfl⟩
    have hstar := h a ((prefix_append a closing).trans
      (prefix_append _ b))
    have hcode := h (a ++ closing) (prefix_append _ b)
    rw [run_append] at hcode
    obtain hs | hs := hstar <;> rw [hs] at hcode <;> dsimp only at hcode <;>
      exact absurd hcode (by decide)
  · intro h p hp
    exact (run_inBlock (s := .block) (.inl rfl) fun hin =>
      h (hin.trans hp.isInfix)).1

theorem run_block_line {t : Text} (h : ¬ closing <:+: t ++ ['\n']) :
    Scan.block.run (t ++ ['\n']) = (.block, []) := by
  have hin : ¬ closing <:+: t := fun ht =>
    h (ht.trans (prefix_append t ['\n']).isInfix)
  obtain ⟨hs, hout⟩ := run_inBlock (s := .block) (.inl rfl) hin
  rw [run_append]
  obtain hs | hs := hs <;> rw [hs, hout] <;> rfl

end Scan

/-- One line of a block comment is as good as another. -/
theorem outsideComments_line {head l l' tail : Text} (hhead : (Scan.code.run head).1 = .block)
    (hl : ¬ closing <:+: l ++ ['\n']) (hl' : ¬ closing <:+: l' ++ ['\n']) :
    outsideComments (head ++ ((l ++ ['\n']) ++ tail)) =
      outsideComments (head ++ ((l' ++ ['\n']) ++ tail)) := by
  have hline : ∀ x, ¬ closing <:+: x ++ ['\n'] →
      Scan.block.run ((x ++ ['\n']) ++ tail) = Scan.block.run tail := by
    intro x hx
    rw [Scan.run_append, Scan.run_block_line hx]
    rfl
  simp only [outsideComments, Scan.run_append Scan.code, hhead, hline l hl, hline l' hl']

end OmarchyAne.Lib
