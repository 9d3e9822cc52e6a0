import Vdc.Json.Basic

/-!
# Objects in the order of their keys

The form in which values are shown to a reader: the entries of every object in the order of their
keys, those of equal keys in the order they had.
-/

namespace Vdc.Json

/-- Puts an entry in front of the first one with a key that is not smaller. -/
def insertEntry (entry : String × Json) : List (String × Json) → List (String × Json)
  | [] => [entry]
  | other :: rest =>
    if other.1 < entry.1 then other :: insertEntry entry rest else entry :: other :: rest

mutual

/-- A value with the entries of all its objects in the order of their keys. -/
def sorted : Json → Json
  | .array items => .array (sortedItems items)
  | .object entries => .object (sortedEntries entries)
  | json => json

/-- Items, each in sorted form. -/
def sortedItems : List Json → List Json
  | [] => []
  | item :: rest => sorted item :: sortedItems rest

/-- Entries in the order of their keys, each value in sorted form. -/
def sortedEntries : List (String × Json) → List (String × Json)
  | [] => []
  | (key, value) :: rest => insertEntry (key, sorted value) (sortedEntries rest)

end

end Vdc.Json
