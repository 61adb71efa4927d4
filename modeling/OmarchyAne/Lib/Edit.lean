import OmarchyAne.Lib.Text
import Mathlib.Data.List.InsertIdx
import Mathlib.Order.Defs.LinearOrder

/-!
# Searching and rewriting text

`firstMatch` is the search of a pattern from the left: at every place, or only
where a line starts.  `splitText` is `str.split` and the inverse of
`intercalate` (`splitText_intercalate`, `intercalate_splitText`).  `insort` is
the insertion by binary search of Python's `bisect`.
-/

namespace OmarchyAne.Lib

open List

/-! ## Search -/

/-- What follows `w` in a text that starts with it. -/
def cutPrefix (w t : Text) : Option Text :=
  if w.isPrefixOf t then some (t.drop w.length) else none

section Search

variable {α : Type} (m : Text → Option α) (after : Char → Bool)

/-- The text before the first match, and the match.  A match may start behind
a character of which `after` holds. -/
def firstMatch : Bool → Text → Option (Text × α)
  | _, [] => none
  | may, c :: t =>
    match if may then m (c :: t) else none with
    | some found => some ([], found)
    | none => (firstMatch (after c) t).map fun r => (c :: r.1, r.2)

end Search

/-- A match may start where a line starts. -/
def newline (c : Char) : Bool := c = '\n'

/-! ## Split -/

section Split

variable {sep u v t : Text}

/-- The pieces of a text of which `skip` characters still belong to the last
separator. -/
def splitFrom (sep : Text) : Nat → Text → List Text
  | _, [] => [[]]
  | 0, c :: t =>
    if sep.isPrefixOf (c :: t) then [] :: splitFrom sep (sep.length - 1) t
    else (splitFrom sep 0 t).modifyHead (c :: ·)
  | skip + 1, _ :: t => splitFrom sep skip t

/-- `str.split` with a separator. -/
def splitText (sep t : Text) : List Text := splitFrom sep 0 t

theorem splitText_append (h : StartsAfter sep u v) :
    splitText sep (u ++ v) = (splitText sep v).modifyHead (u ++ ·) := by
  induction u with
  | nil =>
    rw [nil_append]
    cases splitText sep v <;> rfl
  | cons c u ih =>
    have hnot : sep.isPrefixOf (c :: (u ++ v)) = false := by
      rw [Bool.eq_false_iff, ne_eq, isPrefixOf_iff_prefix]
      exact h.1
    have hrest := ih h.2
    rw [splitText] at hrest
    rw [splitText, cons_append, splitFrom, hnot, hrest,
      if_neg Bool.false_ne_true, modifyHead_modifyHead]
    rfl

theorem splitFrom_drop (t : Text) (skip : Nat) :
    splitFrom sep skip t = splitText sep (t.drop skip) := by
  induction skip generalizing t with
  | zero => rfl
  | succ skip ih =>
    cases t with
    | nil => rfl
    | cons c t => exact ih t

theorem splitText_sep (hsep : sep ≠ []) : splitText sep (sep ++ v) = [] :: splitText sep v := by
  obtain ⟨c, rest, rfl⟩ := exists_cons_of_ne_nil hsep
  have hpre : (c :: rest).isPrefixOf (c :: (rest ++ v)) = true := by
    rw [ isPrefixOf_iff_prefix]
    exact prefix_append (c :: rest) v
  rw [splitText, cons_append, splitFrom, if_pos hpre, splitFrom_drop]
  simp

theorem splitText_intercalate (hsep : sep ≠ []) {parts : List Text}
    (hne : parts ≠ []) (h : ∀ p ∈ parts, ∀ v, v = [] ∨ sep <+: v → StartsAfter sep p v) :
    splitText sep (sep.intercalate parts) = parts := by
  induction parts with
  | nil => exact absurd rfl hne
  | cons p parts ih =>
    rw [forall_mem_cons] at h
    cases parts with
    | nil =>
      have hsplit := splitText_append (h.1 [] (.inl rfl))
      rw [append_nil] at hsplit
      simpa [splitText, splitFrom] using hsplit
    | cons q parts =>
      rw [intercalate_cons_cons, append_assoc, splitText_append (h.1 _ (.inr (prefix_append _ _))),
        splitText_sep hsep, ih (cons_ne_nil _ _) h.2]
      simp

theorem splitText_ne_nil (t : Text) : splitText sep t ≠ [] := by
  induction t with
  | nil => exact cons_ne_nil _ _
  | cons c t ih =>
    rw [splitText, splitFrom]
    split
    · exact cons_ne_nil _ _
    · intro h
      obtain ⟨p, parts, hparts⟩ := exists_cons_of_ne_nil ih
      rw [splitText] at hparts
      rw [hparts] at h
      cases h

/-- The pieces with the separator between them are the text. -/
theorem intercalate_splitText (hsep : sep ≠ []) (t : Text) :
    sep.intercalate (splitText sep t) = t := by
  induction hn : t.length using Nat.strong_induction_on generalizing t with
  | _ n ih =>
    cases t with
    | nil => rfl
    | cons c t =>
      by_cases hpre : sep <+: c :: t
      · obtain ⟨r, hr⟩ := hpre
        have hlen : r.length < n := by
          have := congrArg List.length hr
          have := length_pos_of_ne_nil hsep
          simp only [length_append] at *
          omega
        rw [← hr, splitText_sep hsep]
        obtain ⟨p, parts, hparts⟩ := exists_cons_of_ne_nil (@splitText_ne_nil sep r)
        rw [hparts, intercalate_cons_cons, ← hparts, ih _ hlen r rfl]
        rfl
      · have hrest := ih t.length (by rw [← hn]; exact Nat.lt_succ_self _) t rfl
        have happ : splitText sep ([c] ++ t) = _ := splitText_append ⟨by simpa using hpre, trivial⟩
        rw [← singleton_append, happ]
        obtain ⟨p, parts, hparts⟩ := exists_cons_of_ne_nil (@splitText_ne_nil sep t)
        rw [hparts] at hrest ⊢
        rw [modifyHead_cons]
        cases parts with
        | nil => simpa using hrest
        | cons q parts =>
          rw [intercalate_cons_cons, append_assoc] at hrest ⊢
          rw [append_assoc, hrest]

/-- A piece without the first character of the separator. -/
theorem startsAfter_of_head {a : Char} {s : Text} (h : a ∉ u) : StartsAfter (a :: s) u v := by
  induction u with
  | nil => trivial
  | cons c u ih =>
    rw [mem_cons, not_or] at h
    refine ⟨fun hpre => h.1 ?_, ih h.2⟩
    exact (cons_prefix_cons.mp hpre).1

end Split

/-! ## Insertion by binary search -/

section Bisect

variable {α κ : Type} [LinearOrder κ] (key : α → κ)

/-- `bisect_right`: the place behind the keys up to `x`. -/
def bisectFrom (x : κ) (l : List α) : Nat → Nat → Nat → Nat
  | 0, lo, _ => lo
  | fuel + 1, lo, hi =>
    if lo < hi then
      match l[(lo + hi) / 2]? with
      | none => lo
      | some b =>
        if x < key b then bisectFrom x l fuel lo ((lo + hi) / 2)
        else bisectFrom x l fuel ((lo + hi) / 2 + 1) hi
    else lo

/-- `bisect.insort`. -/
def insort (l : List α) (a : α) : List α :=
  l.insertIdx (bisectFrom key (key a) l l.length 0 l.length) a

end Bisect

end OmarchyAne.Lib
