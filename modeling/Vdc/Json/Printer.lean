import Vdc.Json.Basic

/-!
# Writing JSON

The compact form has no blanks; the indented form puts every item and entry on a line of its own,
two spaces deeper than its container, and leaves empty containers together. Strings escape the
quote, the backslash and the control characters, the latter by letter where they have one, and
nothing else.

What has no written form, a part without a value or a number that is not finite, writes as nothing;
`Json.firstNonFinite?` tells beforehand.
-/

namespace Vdc.Json

/-- A byte inside a string. -/
def escape (b : UInt8) : List UInt8 :=
  match b with
  | 0x22 => [0x5c, 0x22]
  | 0x5c => [0x5c, 0x5c]
  | 0x08 => [0x5c, 0x62]
  | 0x09 => [0x5c, 0x74]
  | 0x0a => [0x5c, 0x6e]
  | 0x0c => [0x5c, 0x66]
  | 0x0d => [0x5c, 0x72]
  | _ =>
    if b < 0x20 then
      [0x5c, 0x75, 0x30, 0x30, 0x30 + b / 16, if b % 16 < 10 then 0x30 + b % 16 else 0x57 + b % 16]
    else [b]

/-- A string between quotes. -/
def quote (s : String) : List UInt8 :=
  0x22 :: ((Utf8.encode s).flatMap escape ++ [0x22])

/-- A number; nothing for one that JSON cannot express. -/
def renderNumber : Number → List UInt8
  | .integer n => Digits.ofInt n
  | .real (.finite v) => v.toText
  | .real _ => []

/-! ## The compact form -/

mutual

/-- A value without blanks. -/
def render : Json → List UInt8
  | .null => [0x6e, 0x75, 0x6c, 0x6c]
  | .boolean true => [0x74, 0x72, 0x75, 0x65]
  | .boolean false => [0x66, 0x61, 0x6c, 0x73, 0x65]
  | .number n => renderNumber n
  | .text s => quote s
  | .array items => 0x5b :: (renderItems items ++ [0x5d])
  | .object entries => 0x7b :: (renderEntries entries ++ [0x7d])
  | .unreadable => []

/-- Items with commas between them. -/
def renderItems : List Json → List UInt8
  | [] => []
  | [item] => render item
  | item :: rest => render item ++ 0x2c :: renderItems rest

/-- Entries with commas between them. -/
def renderEntries : List (String × Json) → List UInt8
  | [] => []
  | [(key, value)] => quote key ++ 0x3a :: render value
  | (key, value) :: rest => quote key ++ 0x3a :: (render value ++ 0x2c :: renderEntries rest)

end

/-! ## The indented form -/

/-- A line break and two spaces for each level. -/
def newline (level : Nat) : List UInt8 :=
  0x0a :: List.replicate (2 * level) 0x20

mutual

/-- A value with one item or entry on a line, inside `level` containers. -/
def indent (level : Nat) : Json → List UInt8
  | .array [] => [0x5b, 0x5d]
  | .array (item :: rest) =>
    0x5b :: (newline (level + 1) ++ indent (level + 1) item ++ indentItems level rest)
  | .object [] => [0x7b, 0x7d]
  | .object ((key, value) :: rest) =>
    0x7b :: (newline (level + 1) ++ quote key ++ [0x3a, 0x20] ++ indent (level + 1) value
      ++ indentEntries level rest)
  | .null => [0x6e, 0x75, 0x6c, 0x6c]
  | .boolean true => [0x74, 0x72, 0x75, 0x65]
  | .boolean false => [0x66, 0x61, 0x6c, 0x73, 0x65]
  | .number n => renderNumber n
  | .text s => quote s
  | .unreadable => []

/-- The items after the first one and the end of their array. -/
def indentItems (level : Nat) : List Json → List UInt8
  | [] => newline level ++ [0x5d]
  | item :: rest =>
    0x2c :: (newline (level + 1) ++ indent (level + 1) item ++ indentItems level rest)

/-- The entries after the first one and the end of their object. -/
def indentEntries (level : Nat) : List (String × Json) → List UInt8
  | [] => newline level ++ [0x7d]
  | (key, value) :: rest =>
    0x2c :: (newline (level + 1) ++ quote key ++ [0x3a, 0x20] ++ indent (level + 1) value
      ++ indentEntries level rest)

end

end Vdc.Json
