import Mathlib.Init

/-!
# Dictionaries as lists of items

A Python dictionary that is filled item by item keeps the last value of a key
and the place of its first item.  `kept` and `keys` read it off the list of
the items that were written.
-/

namespace OmarchyAne.Lib

variable {κ α : Type} [BEq κ]

/-- The value that a dictionary keeps for a key: the last one written. -/
def kept (items : List (κ × α)) (key : κ) : Option α :=
  items.reverse.lookup key

/-- The keys of a dictionary, in the order of their first items. -/
def keys (items : List (κ × α)) : List κ := (items.map Prod.fst).eraseDups

end OmarchyAne.Lib
