import Vdc.Number.Numeral

/-!
# JSON values

A value as it stands in a text: the entries of an object keep their order and their repetitions.
Integers that fit 64 bits are kept apart from the other numbers, because a field of integer type
takes only them.

Some parts of a text are well formed and yet denote nothing: a number beyond the range of doubles,
or a string with half a surrogate pair or bytes that are not UTF-8. They read as `Json.unreadable`,
so that a reader who skips over such a part need not notice it, and one who wants its value fails.
-/

namespace Vdc

/-- A JSON number. -/
inductive Number where
  | integer (n : Int)
  | real (d : Double)
deriving DecidableEq, Repr

/-- A JSON value in the form it was written. -/
inductive Json where
  | null
  | boolean (b : Bool)
  | number (n : Number)
  | text (s : String)
  | array (items : List Json)
  | object (entries : List (String × Json))
  /-- Well-formed text without a value. -/
  | unreadable
deriving Inhabited, Repr

namespace Number

/-- The number a numeral of the strict grammar denotes: an integer if it has the form of one and
fits 64 bits, else the nearest double, if it is in range. A negative zero is a double. -/
def ofNumeral? (n : Numeral) : Option Number :=
  if n.isInteger && !(n.negative && n.toInt == 0)
      && decide (-2 ^ 63 ≤ n.toInt ∧ n.toInt < 2 ^ 64) then
    some (.integer n.toInt)
  else if n.toDouble.isFinite then some (.real n.toDouble)
  else none

/-- The double nearest to a number. -/
def toDouble : Number → Double
  | .integer n => Double.ofInt n
  | .real d => d

end Number

namespace Json

/-! ## Nesting -/

mutual

/-- How many arrays and objects stand inside one another. -/
def nesting : Json → Nat
  | .array items => 1 + nestingItems items
  | .object entries => 1 + nestingEntries entries
  | _ => 0

/-- The deepest nesting among some items. -/
def nestingItems : List Json → Nat
  | [] => 0
  | item :: rest => max (nesting item) (nestingItems rest)

/-- The deepest nesting among the values of some entries. -/
def nestingEntries : List (String × Json) → Nat
  | [] => 0
  | (_, value) :: rest => max (nesting value) (nestingEntries rest)

end

/-! ## Parts without a value -/

mutual

/-- Whether every part of a value was readable. -/
def isReadable : Json → Bool
  | .unreadable => false
  | .array items => areReadable items
  | .object entries => entriesReadable entries
  | _ => true

/-- Whether every part of some items was readable. -/
def areReadable : List Json → Bool
  | [] => true
  | item :: rest => isReadable item && areReadable rest

/-- Whether every part of the values of some entries was readable. -/
def entriesReadable : List (String × Json) → Bool
  | [] => true
  | (_, value) :: rest => isReadable value && entriesReadable rest

end

/-! ## Parts without a written form -/

mutual

/-- The first number, in the order of the text, that JSON cannot express. -/
def firstNonFinite? : Json → Option Double
  | .number (.real d) => if d.isFinite then none else some d
  | .array items => firstNonFiniteItem? items
  | .object entries => firstNonFiniteValue? entries
  | _ => none

/-- The first such number among some items. -/
def firstNonFiniteItem? : List Json → Option Double
  | [] => none
  | item :: rest => (firstNonFinite? item).or (firstNonFiniteItem? rest)

/-- The first such number among the values of some entries. -/
def firstNonFiniteValue? : List (String × Json) → Option Double
  | [] => none
  | (_, value) :: rest => (firstNonFinite? value).or (firstNonFiniteValue? rest)

end

end Json

end Vdc
