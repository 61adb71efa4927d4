import OmarchyAne.Lib.Insertion
import OmarchyAne.Lib.Text
import Mathlib.Data.Char
import Mathlib.Data.List.Lex

/-!
# JSON text

The values of Python's `json` module and their text.  `Json.render` is
`json.dumps` with its default separators and ASCII output, and `Json.sortKeys`
is the order that `sort_keys=True` gives the members.  A number with a fraction
or an exponent is kept as its text.  A string is a list of Unicode scalar
values.
-/

namespace OmarchyAne.Lib

inductive Json where
  | null
  | bool (b : Bool)
  | int (n : Int)
  | float (lexeme : Text)
  | str (t : Text)
  | arr (items : List Json)
  | obj (members : List (Text × Json))

namespace Json

/-! ## Writing -/

/-- The last four hexadecimal digits of a number. -/
def hex4 (n : Nat) : Text :=
  [Nat.digitChar (n / 4096 % 16), Nat.digitChar (n / 256 % 16),
    Nat.digitChar (n / 16 % 16), Nat.digitChar (n % 16)]

/-- One character of a string: printable ASCII as it is, the rest escaped. -/
def escape (c : Char) : Text :=
  let n := c.toNat
  if c = '"' then ['\\', '"']
  else if c = '\\' then ['\\', '\\']
  else if c = '\n' then ['\\', 'n']
  else if c = '\r' then ['\\', 'r']
  else if c = '\t' then ['\\', 't']
  else if c = '\x0c' then ['\\', 'f']
  else if c = '\x08' then ['\\', 'b']
  else if 32 ≤ n ∧ n ≤ 126 then [c]
  else if n < 65536 then '\\' :: 'u' :: hex4 n
  else
    -- Beyond the first plane a character is two surrogates.
    '\\' :: 'u' :: hex4 (55296 + (n - 65536) / 1024) ++
      '\\' :: 'u' :: hex4 (56320 + (n - 65536) % 1024)

def renderStr (t : Text) : Text := '"' :: (t.flatMap escape ++ ['"'])

def renderInt (n : Int) : Text :=
  if n < 0 then '-' :: Nat.toDigits 10 n.natAbs else Nat.toDigits 10 n.natAbs

mutual

def render : Json → Text
  | .null => "null".toList
  | .bool true => "true".toList
  | .bool false => "false".toList
  | .int n => renderInt n
  | .float lexeme => lexeme
  | .str t => renderStr t
  | .arr [] => "[]".toList
  | .arr (x :: xs) => '[' :: (x.render ++ renderItems xs)
  | .obj [] => ['\x7b', '\x7d']
  | .obj ((k, v) :: kvs) =>
    '\x7b' :: (renderStr k ++ (':' :: ' ' :: (v.render ++ renderMembers kvs)))

/-- The items after the first one. -/
def renderItems : List Json → Text
  | [] => [']']
  | x :: xs => ',' :: ' ' :: (x.render ++ renderItems xs)

/-- The members after the first one. -/
def renderMembers : List (Text × Json) → Text
  | [] => ['\x7d']
  | (k, v) :: kvs =>
    ',' :: ' ' :: (renderStr k ++ (':' :: ' ' :: (v.render ++ renderMembers kvs)))

end

mutual

/-- The value with the members of each object in the order of their keys. -/
def sortKeys : Json → Json
  | .arr items => .arr (sortItems items)
  | .obj members => .obj (sortBy (fun kv => kv.1) (sortMembers members))
  | .null => .null
  | .bool b => .bool b
  | .int n => .int n
  | .float lexeme => .float lexeme
  | .str t => .str t

def sortItems : List Json → List Json
  | [] => []
  | x :: xs => x.sortKeys :: sortItems xs

def sortMembers : List (Text × Json) → List (Text × Json)
  | [] => []
  | (k, v) :: kvs => (k, v.sortKeys) :: sortMembers kvs

end

end Json

end OmarchyAne.Lib
