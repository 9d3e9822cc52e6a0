import Vdc.Json.Basic
import Vdc.Text.Hex

/-!
# The tokens of a JSON text

The lexer is an automaton over bytes. Its state is the tokens found so far and what it is in the
middle of; one byte changes it or is refused. Running it over a text is a fold, so what it makes of
`a ++ b` is what it makes of `b` after `a`.

A string token carries no value if it is not Unicode, a number token carries none if it is beyond
the range of doubles; both are still tokens.
-/

namespace Vdc.Json

/-- The tokens of JSON. -/
inductive Token where
  | openObject
  | closeObject
  | openArray
  | closeArray
  | colon
  | comma
  | null
  | boolean (b : Bool)
  | number (value : Option Number)
  | text (value : Option String)
deriving DecidableEq, Repr

/-! ## The inside of a string -/

/-- A part of a string: a byte that stands for itself, or an escaped 16-bit unit. -/
inductive Piece where
  | byte (b : UInt8)
  | codeUnit (u : Nat)
deriving DecidableEq, Repr

/-- The bytes of some pieces: a high surrogate takes the low one right after it, and neither may
stand alone. -/
def Piece.toBytes? : List Piece → Option (List UInt8)
  | [] => some []
  | .byte b :: rest => (toBytes? rest).map (b :: ·)
  | .codeUnit u :: rest =>
    if 0xd800 ≤ u ∧ u < 0xdc00 then
      match rest with
      | .codeUnit v :: rest =>
        if 0xdc00 ≤ v ∧ v < 0xe000 then
          let c := Char.ofNat (0x10000 + (u - 0xd800) * 0x400 + (v - 0xdc00))
          (toBytes? rest).map (String.utf8EncodeChar c ++ ·)
        else none
      | _ => none
    else if 0xdc00 ≤ u ∧ u < 0xe000 then none
    else (toBytes? rest).map (String.utf8EncodeChar (Char.ofNat u) ++ ·)

/-- The string some pieces spell, if it is Unicode. -/
def Piece.toString? (pieces : List Piece) : Option String :=
  (toBytes? pieces).bind Utf8.decode?

/-- What a one-letter escape stands for. -/
def unescape? (b : UInt8) : Option UInt8 :=
  match b with
  | 0x22 | 0x5c | 0x2f => some b
  | 0x62 => some 0x08
  | 0x66 => some 0x0c
  | 0x6e => some 0x0a
  | 0x72 => some 0x0d
  | 0x74 => some 0x09
  | _ => none

/-! ## The automaton -/

/-- What the lexer is in the middle of; what was taken stands in reverse. -/
inductive Lexer.Mode where
  | between
  | word (left : List UInt8) (token : Token)
  | numeral (taken : List UInt8)
  | text (taken : List Piece)
  | escape (taken : List Piece)
  | codeUnit (taken : List Piece) (digits value : Nat)
deriving Repr

/-- The tokens found so far, in reverse, and the token under way. -/
structure Lexer where
  found : List Token
  mode : Lexer.Mode
deriving Repr

namespace Lexer

/-- Whether a byte can occur in a numeral. -/
def isNumeralByte (b : UInt8) : Bool :=
  Digits.isDigit b || b == 0x2b || b == 0x2d || b == 0x2e || b == 0x65 || b == 0x45

/-- The token of a numeral, if it is of the strict grammar. -/
def numeralToken? (bytes : List UInt8) : Option Token :=
  match Numeral.scan bytes with
  | some n => if n.isStrict then some (.number (Number.ofNumeral? n)) else none
  | none => none

/-- A byte that does not belong to a token under way. -/
def start (found : List Token) (b : UInt8) : Option Lexer :=
  match b with
  | 0x20 | 0x09 | 0x0a | 0x0d => some ⟨found, .between⟩
  | 0x7b => some ⟨.openObject :: found, .between⟩
  | 0x7d => some ⟨.closeObject :: found, .between⟩
  | 0x5b => some ⟨.openArray :: found, .between⟩
  | 0x5d => some ⟨.closeArray :: found, .between⟩
  | 0x3a => some ⟨.colon :: found, .between⟩
  | 0x2c => some ⟨.comma :: found, .between⟩
  | 0x22 => some ⟨found, .text []⟩
  | 0x6e => some ⟨found, .word [0x75, 0x6c, 0x6c] .null⟩
  | 0x74 => some ⟨found, .word [0x72, 0x75, 0x65] (.boolean true)⟩
  | 0x66 => some ⟨found, .word [0x61, 0x6c, 0x73, 0x65] (.boolean false)⟩
  | _ => if Digits.isDigit b || b == 0x2d then some ⟨found, .numeral [b]⟩ else none

/-- Takes one byte. -/
def step (l : Lexer) (b : UInt8) : Option Lexer :=
  match l.mode with
  | .between => start l.found b
  | .word left token =>
    match left with
    | [] => none
    | [last] => if b = last then some ⟨token :: l.found, .between⟩ else none
    | next :: left => if b = next then some ⟨l.found, .word left token⟩ else none
  | .numeral taken =>
    if isNumeralByte b then some ⟨l.found, .numeral (b :: taken)⟩
    else (numeralToken? taken.reverse).bind fun token => start (token :: l.found) b
  | .text taken =>
    if b = 0x22 then some ⟨.text (Piece.toString? taken.reverse) :: l.found, .between⟩
    else if b = 0x5c then some ⟨l.found, .escape taken⟩
    else if b < 0x20 then none
    else some ⟨l.found, .text (.byte b :: taken)⟩
  | .escape taken =>
    if b = 0x75 then some ⟨l.found, .codeUnit taken 0 0⟩
    else (unescape? b).map fun c => ⟨l.found, .text (.byte c :: taken)⟩
  | .codeUnit taken digits value =>
    (Hex.value? b).map fun d =>
      if digits = 3 then ⟨l.found, .text (.codeUnit (value * 16 + d) :: taken)⟩
      else ⟨l.found, .codeUnit taken (digits + 1) (value * 16 + d)⟩

/-- Ends the text; only between tokens and after a numeral is it complete. -/
def finish (l : Lexer) : Option (List Token) :=
  match l.mode with
  | .between => some l.found.reverse
  | .numeral taken => (numeralToken? taken.reverse).map fun token => (token :: l.found).reverse
  | _ => none

/-- Takes some bytes one after the other. -/
def run (l : Lexer) (bytes : List UInt8) : Option Lexer :=
  bytes.foldlM step l

theorem run_append (l : Lexer) (a b : List UInt8) : l.run (a ++ b) = (l.run a).bind (·.run b) :=
  List.foldlM_append

end Lexer

/-- The tokens of a text. -/
def tokens? (bytes : List UInt8) : Option (List Token) :=
  (Lexer.run ⟨[], .between⟩ bytes).bind Lexer.finish

end Vdc.Json
