/-!
# Binary floating point of double precision

A finite double is a sign, a mantissa below `2 ^ 53` and a scale: it stands for
`mantissa * 2 ^ scale` steps of `2 ^ -1074`, the distance between the smallest doubles. Mantissas
below `2 ^ 52` occur only at scale `0`, so every value but zero has exactly one form; zero has two,
told apart by their sign.

`Double.ofRatio` rounds a quotient of natural numbers to the nearest double, a tie to the one with
the even mantissa. Its arithmetic is exact, on `Nat`, so what a decimal numeral reads as is a fact
of the logic.
-/

-- Powers are those of the core library in every module, also beside algebra with powers of its own.
attribute [instance (high), default_instance (high + 1)] instPowNat

namespace Vdc

/-- A finite double: `mantissa * 2 ^ scale` steps of `2 ^ -1074`, with a sign. -/
structure Double.Finite where
  negative : Bool
  mantissa : Nat
  scale : Nat
  mantissa_lt : mantissa < 2 ^ 53
  scale_le : scale ≤ 2045
  normal : scale = 0 ∨ 2 ^ 52 ≤ mantissa
deriving DecidableEq, Repr

/-- A double: finite, infinite, or no number at all. -/
inductive Double where
  | finite (value : Double.Finite)
  | infinite (negative : Bool)
  | nan
deriving DecidableEq, Repr

namespace Double

/-! ## Values -/

/-- The size of a finite double in steps of `2 ^ -1074`. -/
def Finite.magnitude (v : Finite) : Nat :=
  v.mantissa * 2 ^ v.scale

/-- A finite double in steps of `2 ^ -1074`, with its sign. The two zeros agree. -/
def Finite.steps (v : Finite) : Int :=
  if v.negative then -v.magnitude else v.magnitude

/-- Zero with a sign. -/
def zero (negative : Bool) : Double :=
  .finite ⟨negative, 0, 0, by decide, by decide, .inl rfl⟩

instance : Inhabited Double := ⟨zero false⟩

/-- Whether a double is a number other than an infinity. -/
def isFinite : Double → Bool
  | .finite _ => true
  | _ => false

/-- Numeric equality: the two zeros are equal, and what is no number equals nothing. -/
def same : Double → Double → Bool
  | .finite a, .finite b => a.steps == b.steps
  | .infinite a, .infinite b => a == b
  | _, _ => false

/-- Numeric order; what is no number is below nothing and above nothing. -/
def below : Double → Double → Bool
  | .finite a, .finite b => a.steps < b.steps
  | .finite _, .infinite negative => !negative
  | .infinite negative, .finite _ => negative
  | .infinite a, .infinite b => a && !b
  | _, _ => false

/-- The double within `[low, high]` that is closest to `v`. -/
def clamp (v low high : Double) : Double :=
  let v := if v.below low then low else v
  if high.below v then high else v

/-! ## Rounding -/

/-- A quotient rounded to the nearest natural number, a tie to the even one. -/
def divideToEven (num den : Nat) : Nat :=
  let quotient := num / den
  let rest := num % den
  if den < 2 * rest ∨ (2 * rest = den ∧ quotient % 2 = 1) then quotient + 1 else quotient

/-- The least scale at which a number of steps fits into a mantissa. -/
def scaleFor (steps : Nat) : Nat :=
  if steps < 2 ^ 53 then 0 else steps.log2 - 52

/-- The double with these parts, infinite if the scale is out of range. -/
def pack (negative : Bool) (mantissa scale : Nat) : Double :=
  if h : mantissa < 2 ^ 53 ∧ scale ≤ 2045 ∧ (scale = 0 ∨ 2 ^ 52 ≤ mantissa) then
    .finite ⟨negative, mantissa, scale, h.1, h.2.1, h.2.2⟩
  else .infinite negative

/-- The double nearest to `num / den` steps, a tie to the even mantissa. -/
def ofSteps (negative : Bool) (num den : Nat) : Double :=
  let scale := scaleFor (num / den)
  let mantissa := divideToEven num (den * 2 ^ scale)
  if mantissa = 2 ^ 53 then pack negative (2 ^ 52) (scale + 1) else pack negative mantissa scale

/-- The double nearest to `num / den`. -/
def ofRatio (negative : Bool) (num den : Nat) : Double :=
  ofSteps negative (num * 2 ^ 1074) den

/-- The double nearest to `digits * 10 ^ exponent`. Exponents far outside the range of doubles
are settled by the size of `digits` alone, so that no power of ten larger than the numeral
deserves is ever computed. -/
def ofDecimal (negative : Bool) (digits : Nat) (exponent : Int) : Double :=
  if digits = 0 then zero negative
  else match exponent with
    | .ofNat e =>
      if 400 < e then .infinite negative else ofRatio negative (digits * 10 ^ e) 1
    | .negSucc e =>
      if digits.log2 + 1 ≤ 3 * (e - 400) then zero negative
      else ofRatio negative digits (10 ^ (e + 1))

/-- The double nearest to an integer. -/
def ofInt (n : Int) : Double :=
  ofDecimal (n < 0) n.natAbs 0

end Double

end Vdc
