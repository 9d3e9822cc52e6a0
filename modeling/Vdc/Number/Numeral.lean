import Vdc.Number.Shortest
import Vdc.Text.Utf8

/-!
# Numerals

Reading and writing numbers as ASCII bytes. A numeral has a sign, an integer part, and optionally a
fraction and an exponent; `Numeral.scan` splits it into these parts and the two grammars differ only
in which parts may be empty: the strict one is JSON's, the free one is that of command lines.

Doubles are written with the fewest digits that read back: in plain notation with at least one
digit after the point while the leading digit's exponent is at least `-5` and below `16`, and in
scientific notation outside that range.
-/

namespace Vdc

/-! ## Digits -/

namespace Digits

/-- Whether a byte is an ASCII digit. -/
def isDigit (b : UInt8) : Bool :=
  0x30 ≤ b && b ≤ 0x39

/-- The number that digits make after a number that is already read. -/
def append (n : Nat) (ds : List UInt8) : Nat :=
  ds.foldl (fun n b => n * 10 + (b.toNat - 0x30)) n

/-- The number a sequence of digits stands for, put together from those of its halves as long as
`depth` allows. Numbers of very many digits are not read digit by digit. -/
def valueInHalves : Nat → List UInt8 → Nat
  | 0, ds => append 0 ds
  | depth + 1, ds =>
    if ds.length ≤ 32 then append 0 ds
    else
      let half := ds.length / 2
      valueInHalves depth (ds.take half) * 10 ^ (ds.length - half)
        + valueInHalves depth (ds.drop half)

/-- The number a sequence of digits stands for. -/
def value (ds : List UInt8) : Nat := valueInHalves 20 ds

theorem append_eq (n : Nat) (ds : List UInt8) :
    append n ds = n * 10 ^ ds.length + append 0 ds := by
  induction ds generalizing n with
  | nil => simp [append]
  | cons b rest ih =>
    have h (m : Nat) : append m (b :: rest) = append (m * 10 + (b.toNat - 0x30)) rest := rfl
    rw [h n, h 0, ih, ih (0 * 10 + (b.toNat - 0x30)), List.length_cons, Nat.pow_succ, Nat.add_mul,
      Nat.zero_mul, Nat.zero_add, Nat.mul_assoc, Nat.mul_comm 10, Nat.add_assoc]

theorem valueInHalves_eq (depth : Nat) (ds : List UInt8) :
    valueInHalves depth ds = append 0 ds := by
  induction depth generalizing ds with
  | zero => rfl
  | succ depth ih =>
    rw [valueInHalves]
    split
    · rfl
    · have h : append 0 ds =
          append (append 0 (ds.take (ds.length / 2))) (ds.drop (ds.length / 2)) := by
        rw [append, append, append, ← List.foldl_append, List.take_append_drop]
      rw [h, append_eq (append 0 (ds.take _)), List.length_drop]
      simp only [ih]

theorem value_eq (ds : List UInt8) : value ds = append 0 ds := valueInHalves_eq 20 ds

/-- The digits of a number, without leading zeros. -/
def ofNat (n : Nat) : List UInt8 :=
  if n < 10 then [0x30 + n.toUInt8] else ofNat (n / 10) ++ [0x30 + (n % 10).toUInt8]
termination_by n

/-- An integer in decimal. -/
def ofInt (n : Int) : List UInt8 :=
  if n < 0 then 0x2d :: ofNat n.natAbs else ofNat n.natAbs

/-- The number of trailing zeros to drop from some digits, and the digits that stay. -/
def trim (ds : List UInt8) : Nat × List UInt8 :=
  let zeros := (ds.reverse.takeWhile (· == 0x30)).length
  (zeros, ds.take (ds.length - zeros))

end Digits

/-! ## Reading -/

/-- A numeral split into its parts. The sign is a byte, if there is one. -/
structure Numeral where
  sign : Option UInt8
  whole : List UInt8
  /-- The digits after a point, if there is a point. -/
  fraction : Option (List UInt8)
  /-- Sign and digits of an exponent, if there is one. -/
  exponent : Option (Option UInt8 × List UInt8)
deriving DecidableEq, Repr

namespace Numeral

/-- Takes a sign off the front. -/
def scanSign : List UInt8 → Option UInt8 × List UInt8
  | b :: rest => if b = 0x2b ∨ b = 0x2d then (some b, rest) else (none, b :: rest)
  | [] => (none, [])

/-- Takes digits off the front. -/
def scanDigits (bytes : List UInt8) : List UInt8 × List UInt8 :=
  (bytes.takeWhile Digits.isDigit, bytes.dropWhile Digits.isDigit)

/-- Takes a point and digits off the front. -/
def scanFraction : List UInt8 → Option (List UInt8) × List UInt8
  | b :: rest =>
    if b = 0x2e then
      let (ds, rest) := scanDigits rest
      (some ds, rest)
    else (none, b :: rest)
  | [] => (none, [])

/-- Takes an exponent off the front. -/
def scanExponent : List UInt8 → Option (Option UInt8 × List UInt8) × List UInt8
  | b :: rest =>
    if b = 0x65 ∨ b = 0x45 then
      let (sign, rest) := scanSign rest
      let (ds, rest) := scanDigits rest
      (some (sign, ds), rest)
    else (none, b :: rest)
  | [] => (none, [])

/-- Splits a whole text into the parts of a numeral, some of which may be empty; nothing may be
left over. -/
def scan (bytes : List UInt8) : Option Numeral :=
  let (sign, rest) := scanSign bytes
  let (whole, rest) := scanDigits rest
  let (fraction, rest) := scanFraction rest
  let (exponent, rest) := scanExponent rest
  if rest.isEmpty then some ⟨sign, whole, fraction, exponent⟩ else none

/-- The strict grammar: no plus sign, no superfluous zero in front, and no part without digits. -/
def isStrict (n : Numeral) : Bool :=
  n.sign != some 0x2b
    && !n.whole.isEmpty
    && (n.whole.length == 1 || n.whole.head? != some 0x30)
    && n.fraction.all (fun ds => !ds.isEmpty)
    && n.exponent.all (fun e => !e.2.isEmpty)

/-- The free grammar: a digit before or after the point, and one in an exponent. -/
def isFree (n : Numeral) : Bool :=
  (!n.whole.isEmpty || n.fraction.any (fun ds => !ds.isEmpty))
    && n.exponent.all (fun e => !e.2.isEmpty)

/-- Whether a numeral has neither point nor exponent. -/
def isInteger (n : Numeral) : Bool :=
  n.fraction.isNone && n.exponent.isNone

/-- Whether a numeral has a minus sign. -/
def negative (n : Numeral) : Bool :=
  n.sign == some 0x2d

/-- All digits before the exponent. -/
def digits (n : Numeral) : List UInt8 :=
  n.whole ++ n.fraction.getD []

/-- The power of ten of the last digit. -/
def power (n : Numeral) : Int :=
  let written : Int := match n.exponent with
    | none => 0
    | some (sign, ds) => if sign == some 0x2d then -(Digits.value ds) else Digits.value ds
  written - (n.fraction.getD []).length

/-- The double nearest to a numeral. -/
def toDouble (n : Numeral) : Double :=
  Double.ofDecimal n.negative (Digits.value n.digits) n.power

/-- The integer an integer numeral stands for. -/
def toInt (n : Numeral) : Int :=
  if n.negative then -(Digits.value n.whole) else Digits.value n.whole

end Numeral

/-! ## Writing doubles -/

namespace Decimal

/-- Plain notation from digits whose last one counts `10 ^ power`, at least one digit after the
point. -/
def plain (ds : List UInt8) (power : Int) : List UInt8 :=
  match power with
  | .ofNat zeros => ds ++ List.replicate zeros 0x30 ++ [0x2e, 0x30]
  | .negSucc n =>
    let places := n + 1
    if places < ds.length then
      ds.take (ds.length - places) ++ 0x2e :: ds.drop (ds.length - places)
    else 0x30 :: 0x2e :: (List.replicate (places - ds.length) 0x30 ++ ds)

/-- Scientific notation: one digit before the point, no point without digits after it, and an
exponent with its sign. -/
def scientific (ds : List UInt8) (lead : Int) : List UInt8 :=
  let mantissa := match ds with
    | [] => []
    | [d] => [d]
    | d :: rest => d :: 0x2e :: rest
  mantissa ++ 0x65 :: (if lead < 0 then 0x2d else 0x2b) :: Digits.ofNat lead.natAbs

/-- A decimal as text: plain from `10 ^ -5` up to below `10 ^ 16`, scientific outside. -/
def toText (d : Decimal) : List UInt8 :=
  if d.digits = 0 then [0x30, 0x2e, 0x30]
  else
    let (zeros, ds) := Digits.trim (Digits.ofNat d.digits)
    let power := d.exponent + zeros
    let lead := power + ds.length - 1
    if -5 ≤ lead ∧ lead < 16 then plain ds power else scientific ds lead

end Decimal

namespace Double

/-- A finite double as text: the fewest digits that read back. -/
def Finite.toText (v : Finite) : List UInt8 :=
  let text := (shortest v).toText
  if v.negative then 0x2d :: text else text

/-- A double as text, also when it is no finite number. -/
def toText : Double → String
  | .finite v => String.ofList (v.toText.map fun b => Char.ofNat b.toNat)
  | .infinite false => "inf"
  | .infinite true => "-inf"
  | .nan => "NaN"

/-- Whether two texts agree but for the case of ASCII letters. -/
def agreesIgnoringCase (text word : List UInt8) : Bool :=
  let lower (b : UInt8) := if 0x41 ≤ b ∧ b ≤ 0x5a then b + 0x20 else b
  text.map lower == word

/-- Reads a numeral of the free grammar, or a signed name of an infinity or of no number. -/
def ofText? (text : String) : Option Double :=
  let bytes := Utf8.encode text
  let (sign, word) := Numeral.scanSign bytes
  let negative := sign == some 0x2d
  if agreesIgnoringCase word (Utf8.encode "inf")
      || agreesIgnoringCase word (Utf8.encode "infinity") then
    some (.infinite negative)
  else if agreesIgnoringCase word (Utf8.encode "nan") then some .nan
  else match Numeral.scan bytes with
    | some n => if n.isFree then some n.toDouble else none
    | none => none

end Double

end Vdc
