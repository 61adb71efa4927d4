import OmarchyAne.Lib.Text

/-!
# Python's text of a string

`reprStr` is `repr` of a string.  Which characters print as they are is a
property of the Unicode tables, so it is a parameter.
-/

namespace OmarchyAne.Lib

variable (printable : Char → Bool)

/-- The last `k` hexadecimal digits of a number. -/
def hexDigits : Nat → Nat → Text
  | 0, _ => []
  | k + 1, n => hexDigits k (n / 16) ++ [Nat.digitChar (n % 16)]

/-- One character of a string between the quotes `q`. -/
def pyEscape (q c : Char) : Text :=
  if c = q ∨ c = '\\' then ['\\', c]
  else if c = '\t' then ['\\', 't']
  else if c = '\n' then ['\\', 'n']
  else if c = '\r' then ['\\', 'r']
  else if printable c then [c]
  else if c.toNat < 0x100 then '\\' :: 'x' :: hexDigits 2 c.toNat
  else if c.toNat < 0x10000 then '\\' :: 'u' :: hexDigits 4 c.toNat
  else '\\' :: 'U' :: hexDigits 8 c.toNat

/-- The quote that Python picks: the double one only around single ones. -/
def pyQuote (t : Text) : Char :=
  if '\'' ∈ t ∧ '"' ∉ t then '"' else '\''

/-- `repr` of a string. -/
def reprStr (t : Text) : Text :=
  pyQuote t :: (t.flatMap (pyEscape printable (pyQuote t)) ++ [pyQuote t])

theorem pyEscape_ne_nil (q c : Char) : pyEscape printable q c ≠ [] := by
  unfold pyEscape
  split_ifs <;> exact List.cons_ne_nil _ _

/-- A string is shorter than its `repr`. -/
theorem length_lt_reprStr (t : Text) : t.length < (reprStr printable t).length := by
  have hall : ∀ (q : Char) (t : Text),
      t.length ≤ (t.flatMap (pyEscape printable q)).length := by
    intro q t
    induction t with
    | nil => exact Nat.le_refl 0
    | cons c t ih =>
      have := List.length_pos_of_ne_nil (pyEscape_ne_nil printable q c)
      rw [List.flatMap_cons, List.length_append, List.length_cons]
      omega
  have := hall (pyQuote t) t
  rw [reprStr, List.length_cons, List.length_append]
  omega

end OmarchyAne.Lib
