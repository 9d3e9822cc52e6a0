import Vdc.Number.Double

/-!
# The fewest digits that read back

The decimal written for a finite double is the one with the fewest digits among those that round
to that double, and the nearest to it among those; an exact tie goes to the even last digit.

For one digit, two digits, and so on up to seventeen, only the two neighbours of the value on that
decimal grid can be meant: if any point of the grid rounds to the value, one of its neighbours
does. Seventeen digits always suffice, so the exact expansion at the end is never reached; it is
there because it reads back for a simpler reason.
-/

namespace Vdc

/-- The number `digits * 10 ^ exponent`, written out in decimal. -/
structure Decimal where
  digits : Nat
  exponent : Int
deriving DecidableEq, Repr

namespace Double

/-- The exponent of the leading decimal digit of a positive number of steps. -/
def leadingExponent (steps : Nat) : Int :=
  let estimate := (((steps.log2 : Int) - 1074) * 30103) / 100000
  let reaches (e : Int) : Bool :=
    match e with
    | .ofNat e => 10 ^ e * 2 ^ 1074 ≤ steps
    | .negSucc e => 2 ^ 1074 ≤ steps * 10 ^ (e + 1)
  if reaches (estimate + 1) then estimate + 1 else estimate

/-- A number of steps over `10 ^ exponent`, as a numerator and a denominator. -/
def overPowerOfTen (steps : Nat) (exponent : Int) : Nat × Nat :=
  match exponent with
  | .ofNat e => (steps, 2 ^ 1074 * 10 ^ e)
  | .negSucc e => (steps * 10 ^ (e + 1), 2 ^ 1074)

/-- Whether a decimal rounds to the double `v`. -/
def readsAs (v : Finite) (d : Decimal) : Bool :=
  ofDecimal v.negative d.digits d.exponent == .finite v

/-- The neighbour of `v` among the multiples of `10 ^ exponent` that rounds to `v`, the nearer one
if both do. -/
def onGrid (v : Finite) (exponent : Int) : Option Decimal :=
  let (num, den) := overPowerOfTen v.magnitude exponent
  let lower := num / den
  let rest := num % den
  let down : Decimal := ⟨lower, exponent⟩
  let up : Decimal := ⟨lower + 1, exponent⟩
  match readsAs v down, readsAs v up with
  | true, true =>
    if 2 * rest < den ∨ (2 * rest = den ∧ lower % 2 = 0) then some down else some up
  | true, false => some down
  | false, true => some up
  | false, false => none

/-- The value of `v` in full. -/
def exactDecimal (v : Finite) : Decimal :=
  ⟨v.magnitude * 5 ^ 1074, -1074⟩

/-- The decimal with the fewest digits that reads back as `v`, the nearest of those. -/
def shortest (v : Finite) : Decimal :=
  if v.mantissa = 0 then ⟨0, 0⟩
  else
    let lead := leadingExponent v.magnitude
    ((List.range 17).findSome? fun (n : Nat) => onGrid v (lead - (n : Int))).getD (exactDecimal v)

end Double

end Vdc
