import Mathlib.Data.List.Basic
import Mathlib.Data.List.Infix

/-!
# Searching and rewriting text

A text is a list of characters.  `replaceAll` writes another text in the place
of each occurrence from left to right, and `linesKeep` cuts a text into its
lines.

The lemmas say when the first occurrence is where it seems to be.  A
separator that no earlier place can hold is found at its own place
(`replaceAll_append`), and an occurrence does not reach
over a character that it does not have (`infix_append_cons`).
-/

namespace OmarchyAne.Lib

open List

abbrev Text := List Char

instance : LawfulBEq Text := inferInstance

/-! ## Occurrences -/

section Occurrences

variable {α : Type} {l u v : List α} {a : α} {s : List α} {parts : List (List α)}

/-- An occurrence does not reach over a character that it does not have. -/
theorem infix_append_cons (ha : a ∉ l) : l <:+: u ++ a :: v ↔ l <:+: u ∨ l <:+: v := by
  constructor
  · intro h
    rw [infix_append_iff] at h
    obtain h | h | ⟨l₁, l₂, rfl, h₁, h₂⟩ := h
    · exact .inl h
    · rw [infix_cons_iff] at h
      obtain h | h := h
      · cases l with
        | nil => exact .inl nil_infix
        | cons b l =>
          rw [cons_prefix_cons] at h
          exact absurd (h.1 ▸ mem_cons_self) ha
      · exact .inr h
    · cases l₂ with
      | nil => exact .inl (by simpa using h₁.isInfix)
      | cons b l₂ =>
        rw [cons_prefix_cons] at h₂
        exact absurd (by simp [h₂.1]) ha
  · rintro (h | h)
    · exact h.trans (prefix_append u (a :: v)).isInfix
    · exact h.trans ((suffix_cons a v).trans (suffix_append u (a :: v))).isInfix

/-- An occurrence begins with its first character, so it does not begin in a
text without it. -/
theorem infix_append_of_notMem (ha : a ∉ u) : a :: l <:+: u ++ v ↔ a :: l <:+: v := by
  constructor
  · intro h
    rw [infix_append_iff] at h
    obtain h | h | ⟨l₁, l₂, hl, h₁, h₂⟩ := h
    · exact absurd (h.subset mem_cons_self) ha
    · exact h
    · cases l₁ with
      | nil =>
        rw [nil_append] at hl
        exact hl ▸ h₂.isInfix
      | cons b l₁ =>
        rw [cons_append, List.cons.injEq] at hl
        exact absurd (h₁.subset (hl.1 ▸ mem_cons_self)) ha
  · intro h
    exact h.trans (suffix_append u v).isInfix

/-- A character that neither text has before it marks one place. -/
theorem append_cons_inj {u' v' : List α} (hu : a ∉ u) (hu' : a ∉ u')
    (h : u ++ a :: v = u' ++ a :: v') : u = u' ∧ v = v' := by
  induction u generalizing u' with
  | nil =>
    cases u' with
    | nil => exact ⟨rfl, (List.cons.inj h).2⟩
    | cons b u' =>
      exact absurd ((List.cons.inj h).1 ▸ mem_cons_self) hu'
  | cons b u ih =>
    cases u' with
    | nil => exact absurd ((List.cons.inj h).1 ▸ mem_cons_self) hu
    | cons b' u' =>
      obtain ⟨rfl, htail⟩ := List.cons.inj h
      obtain ⟨rfl, hv⟩ := ih (fun hm => hu (mem_cons_of_mem b hm))
        (fun hm => hu' (mem_cons_of_mem b hm)) htail
      exact ⟨rfl, hv⟩

/-- An occurrence in joined parts is in one of them, when it does not have the
first character of the joint and does not begin in the rest of it. -/
theorem infix_intercalate {b : α} (ha : a ∉ b :: l) (hb : b ∉ s) :
    b :: l <:+: (a :: s).intercalate parts ↔ ∃ p ∈ parts, b :: l <:+: p := by
  induction parts with
  | nil => simp [List.intercalate]
  | cons p parts ih =>
    cases parts with
    | nil => simp [List.intercalate]
    | cons q parts =>
      rw [intercalate_cons_cons, append_assoc, cons_append,
        infix_append_cons ha, infix_append_of_notMem hb, ih]
      simp

theorem forall_mem_intercalate {q : α → Prop} (hs : ∀ c ∈ s, q c) :
    (∀ c ∈ s.intercalate parts, q c) ↔ ∀ p ∈ parts, ∀ c ∈ p, q c := by
  induction parts with
  | nil => simp [List.intercalate]
  | cons p parts ih =>
    cases parts with
    | nil => simp [List.intercalate]
    | cons p' parts =>
      rw [intercalate_cons_cons, append_assoc, forall_mem_append, forall_mem_append, ih,
        forall_mem_cons (l := p' :: parts)]
      exact and_congr_right fun _ => and_iff_right hs

end Occurrences

/-! ## The first occurrence -/

/-- No occurrence of `sep` in `u ++ v` begins inside `u`. -/
def StartsAfter (sep : Text) : Text → Text → Prop
  | [], _ => True
  | c :: u, v => ¬ sep <+: c :: (u ++ v) ∧ StartsAfter sep u v

variable {sep old new u v w : Text} {p : Char → Bool} {d : Char}

theorem startsAfter_iff : StartsAfter sep u v ↔ ∀ s, s ≠ [] → s <:+ u → ¬ sep <+: s ++ v := by
  induction u with
  | nil =>
    refine ⟨fun _ s hs hsuf => absurd (suffix_nil.mp hsuf) hs, fun _ => ?_⟩
    trivial
  | cons c u ih =>
    show _ ∧ _ ↔ _
    rw [ih]
    constructor
    · rintro ⟨hhead, htail⟩ s hs hsuf
      obtain rfl | hsuf := suffix_cons_iff.mp hsuf
      · exact hhead
      · exact htail s hs hsuf
    · intro h
      exact ⟨h (c :: u) (cons_ne_nil c u) suffix_rfl,
        fun s hs hsuf => h s hs (hsuf.trans (suffix_cons c u))⟩

/-- No occurrence in the front part, and none across the seam. -/
theorem startsAfter_of_seam (hu : ¬ sep <:+: u)
    (hseam : ∀ s, s ≠ [] → s <:+ sep → ¬ s <+: v) : StartsAfter sep u v := by
  rw [startsAfter_iff]
  intro s hs hsuf hpre
  obtain ⟨rest, hrest⟩ := hpre
  rw [append_eq_append_iff] at hrest
  obtain ⟨x, rfl, -⟩ | ⟨x, rfl, hv⟩ := hrest
  · exact hu ((prefix_append sep x).isInfix.trans hsuf.isInfix)
  · cases x with
    | nil => exact hu (by simpa using hsuf.isInfix)
    | cons c x =>
      exact hseam (c :: x) (cons_ne_nil c x) (suffix_append s _) ⟨rest, hv.symm⟩

/-- The separator itself is the first occurrence when the text up to its last
character holds none. -/
theorem startsAfter_self (h : ¬ sep <:+: u ++ sep.dropLast) : StartsAfter sep u (sep ++ v) := by
  rw [startsAfter_iff]
  intro s hs hsuf hpre
  have hlast : s ++ sep.dropLast <+: s ++ (sep ++ v) := by
    obtain ⟨x, hx⟩ := sep.dropLast_prefix
    exact ⟨x ++ v, by
      rw [append_assoc, ← append_assoc sep.dropLast, hx]⟩
  have hshort : sep <+: s ++ sep.dropLast := by
    refine prefix_of_prefix_length_le hpre hlast ?_
    have := length_pos_of_ne_nil hs
    simp
    omega
  exact h (hshort.isInfix.trans (suffix_append_self_iff.mpr hsuf).isInfix)

/-! ## Rewriting -/

/-- The rest of a rewrite that still has `skip` characters of the last
occurrence to pass. -/
def replaceFrom (old new : Text) : Nat → Text → Text
  | _, [] => []
  | 0, c :: t =>
    if old.isPrefixOf (c :: t) then
      new ++ replaceFrom old new (old.length - 1) t
    else c :: replaceFrom old new 0 t
  | skip + 1, _ :: t => replaceFrom old new skip t

/-- Each occurrence of `old`, from left to right, becomes `new`. -/
def replaceAll (old new t : Text) : Text := replaceFrom old new 0 t

theorem replaceAll_append (h : StartsAfter old u v) :
    replaceAll old new (u ++ v) = u ++ replaceAll old new v := by
  induction u with
  | nil => rfl
  | cons c u ih =>
    have hnot := h.1
    rw [← isPrefixOf_iff_prefix] at hnot
    have := ih h.2
    simp only [replaceAll] at this
    simp [replaceAll, replaceFrom, hnot, this]

private theorem replaceFrom_skip (old new u v : Text) :
    replaceFrom old new u.length (u ++ v) = replaceAll old new v := by
  induction u with
  | nil => rfl
  | cons c u ih => simpa [replaceFrom] using ih

theorem replaceAll_self_append (hne : old ≠ []) :
    replaceAll old new (old ++ v) = new ++ replaceAll old new v := by
  obtain ⟨c, rest, rfl⟩ := exists_cons_of_ne_nil hne
  have hpre : (c :: rest).isPrefixOf (c :: (rest ++ v)) = true := by
    rw [ isPrefixOf_iff_prefix]
    exact prefix_append (c :: rest) v
  have := replaceFrom_skip (c :: rest) new rest v
  simp [replaceAll, replaceFrom, hpre] at this ⊢
  exact this

theorem replaceAll_eq_self (h : ¬ old <:+: u) : replaceAll old new u = u := by
  induction u with
  | nil => rfl
  | cons c u ih =>
    rw [infix_cons_iff, not_or, ← isPrefixOf_iff_prefix] at h
    have := ih h.2
    simp only [replaceAll] at this
    simp [replaceAll, replaceFrom, h.1, this]

/-! ## Lines -/

/-- A text without the characters of a class at its end. -/
def trimEnd (p : Char → Bool) (t : Text) : Text :=
  (t.reverse.dropWhile p).reverse

/-- `str.strip` of one character. -/
def strip (a : Char) (t : Text) : Text :=
  trimEnd (· == a) (t.dropWhile (· == a))

theorem trimEnd_append (u t : Text) (hd : p d = false) :
    ∃ t', trimEnd p (u ++ d :: t) = u ++ d :: t' := by
  refine ⟨trimEnd p t, ?_⟩
  rw [trimEnd, reverse_append, reverse_cons, append_assoc, dropWhile_append]
  split
  · next h =>
    rw [List.isEmpty_iff] at h
    simp [trimEnd, h, hd]
  · simp [trimEnd]

theorem strip_cons_self (a : Char) (t : Text) : strip a (a :: t) = strip a t := by
  simp [strip]

/-- What stands between two other characters stays. -/
theorem strip_append {a : Char} (t : Text) (hu : u.head? ≠ some a) (hd : d ≠ a) :
    ∃ t', strip a (u ++ d :: t) = u ++ d :: t' := by
  have hfront : (u ++ d :: t).dropWhile (· == a) = u ++ d :: t := by
    cases u with
    | nil => simp [hd]
    | cons c u =>
      have hc : c ≠ a := by simpa using hu
      simp [hc]
  rw [strip, hfront]
  exact trimEnd_append u t (by simpa using hd)

/-- A piece begins with what no separator cuts. -/
theorem splitOnP_append {t : Text} (hu : ∀ c ∈ u, p c = false) :
    ∃ first rest, t.splitOnP p = first :: rest ∧ (u ++ t).splitOnP p = (u ++ first) :: rest := by
  induction u with
  | nil =>
    obtain ⟨first, rest, h⟩ :=
      exists_cons_of_ne_nil (splitOnP_ne_nil p t)
    exact ⟨first, rest, h, h⟩
  | cons c u ih =>
    rw [forall_mem_cons] at hu
    obtain ⟨first, rest, hfirst, hsplit⟩ := ih hu.2
    refine ⟨first, rest, hfirst, ?_⟩
    rw [cons_append, splitOnP_cons_eq_if_modifyHead, hu.1, hsplit]
    rfl

theorem splitOnP_single (hu : ∀ c ∈ u, p c = false) : u.splitOnP p = [u] := by
  obtain ⟨first, rest, hnil, h⟩ := splitOnP_append (t := []) hu
  rw [splitOnP_nil, List.cons.injEq] at hnil
  rw [append_nil] at h
  rw [h, ← hnil.1, ← hnil.2, append_nil]

/-- The characters that end a line of a Python text. -/
def isLineBreak (c : Char) : Bool :=
  c = '\n' || c = '\r' || c = '\x0b' || c = '\x0c' || c = '\x1c' ||
    c = '\x1d' || c = '\x1e' || c = '\x85' || c = '\u2028' || c = '\u2029'

/-- The lines of a text, each with its line break.  A carriage return with a
line feed behind it is one break. -/
def linesKeep : Text → List Text
  | [] => []
  | c :: t =>
    if isLineBreak c && !(c = '\r' && t.head? = some '\n') then
      [c] :: linesKeep t
    else
      match linesKeep t with
      | [] => [[c]]
      | l :: ls => (c :: l) :: ls

end OmarchyAne.Lib
