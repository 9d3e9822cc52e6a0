import Vdc.Number.Numeral

/-!
# Integers in text

Reading an integer takes an optional sign and digits, and nothing else; a minus sign is taken only
where negative numbers are. The digits are taken from the left, and what is wrong first is what is
reported: a byte that is no digit, or a number that has left its range.
-/

namespace Vdc

/-- Why a text is no integer of its type. -/
inductive IntegerFault where
  | empty
  | invalidDigit
  | tooLarge
  | tooSmall
deriving DecidableEq, Repr

namespace IntegerFault

/-- The fault in words. -/
def message : IntegerFault → String
  | .empty => "cannot parse integer from empty string"
  | .invalidDigit => "invalid digit found in string"
  | .tooLarge => "number too large to fit in target type"
  | .tooSmall => "number too small to fit in target type"

end IntegerFault

namespace Digits

/-- Takes digits from the left while the number stays within `limit`. -/
def within (limit : Nat) (fault : IntegerFault) : Nat → List UInt8 → Except IntegerFault Nat
  | n, [] => .ok n
  | n, b :: rest =>
    if !isDigit b then .error .invalidDigit
    else if limit < n * 10 + (b.toNat - 0x30) then .error fault
    else within limit fault (n * 10 + (b.toNat - 0x30)) rest

end Digits

/-- Reads a natural number up to `limit`. -/
def natOfText? (limit : Nat) : List UInt8 → Except IntegerFault Nat
  | [] => .error .empty
  | [b] => Digits.within limit .tooLarge 0 [b]
  | b :: rest =>
    if b = 0x2b then Digits.within limit .tooLarge 0 rest
    else Digits.within limit .tooLarge 0 (b :: rest)

/-- Reads an integer from `-low` up to `high`. -/
def intOfText? (low high : Nat) : List UInt8 → Except IntegerFault Int
  | [] => .error .empty
  | [b] => (Digits.within high .tooLarge 0 [b]).map Int.ofNat
  | b :: rest =>
    if b = 0x2b then (Digits.within high .tooLarge 0 rest).map Int.ofNat
    else if b = 0x2d then (Digits.within low .tooSmall 0 rest).map fun n => -(n : Int)
    else (Digits.within high .tooLarge 0 (b :: rest)).map Int.ofNat

end Vdc
