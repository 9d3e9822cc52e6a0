import Vdc.Number.Integer
import Vdc.Text.Hex
import Vdc.Text.Parts

/-!
# IPv4 addresses

An IPv4 address is four bytes, written in decimal with points between them. Two readers take it
back. The strict one takes exactly what is written (`ofText?_toText`). The free one takes numbers
in octal and hexadecimal as well, and fewer than four of them, where the last number fills all the
bytes that are left.
-/

namespace Vdc

/-- An IPv4 address. -/
structure IPv4 where
  a : UInt8
  b : UInt8
  c : UInt8
  d : UInt8
deriving DecidableEq, Repr

namespace IPv4

/-- The address whose bytes make up a number, the high byte first. -/
def ofNat (n : Nat) : IPv4 :=
  ⟨UInt8.ofNat (n / 0x1000000), UInt8.ofNat (n / 0x10000), UInt8.ofNat (n / 0x100), UInt8.ofNat n⟩

/-- An address as text. -/
def toText (ip : IPv4) : List UInt8 :=
  [0x2e].intercalate ([ip.a, ip.b, ip.c, ip.d].map fun byte => Digits.ofNat byte.toNat)

/-! ## Strict reading -/

/-- Reads a byte, without leading zeros. -/
def byte? (digits : List UInt8) : Option UInt8 :=
  if digits.all Digits.isDigit && (digits.length == 1 || digits.head? != some 0x30) then
    (natOfText? 255 digits).toOption.map UInt8.ofNat
  else none

/-- Reads an address of four bytes. -/
def ofText? (text : List UInt8) : Option IPv4 :=
  match Parts.split 0x2e text with
  | [a, b, c, d] => do return ⟨← byte? a, ← byte? b, ← byte? c, ← byte? d⟩
  | _ => none

theorem byte?_ofNat (b : UInt8) : byte? (Digits.ofNat b.toNat) = some b := by
  have h : ∀ n < 256, byte? (Digits.ofNat n) = some (UInt8.ofNat n) := by decide +kernel
  simpa using h b.toNat b.toNat_lt

theorem point_not_mem_ofNat (b : UInt8) : (0x2e : UInt8) ∉ Digits.ofNat b.toNat := by
  have h : ∀ n < 256, (0x2e : UInt8) ∉ Digits.ofNat n := by decide +kernel
  exact h b.toNat b.toNat_lt

@[simp] theorem ofText?_toText (ip : IPv4) : ofText? ip.toText = some ip := by
  simp [ofText?, toText, List.intercalate, Parts.split_append_cons, Parts.split_eq_singleton,
    point_not_mem_ofNat, byte?_ofNat]

/-! ## Free reading -/

/-- The number that digits of some base stand for. -/
def numberInBase? (base : Nat) (digits : List UInt8) : Option Nat :=
  if digits.isEmpty then none
  else digits.foldlM (fun n digit => do
    let value ← Hex.value? digit
    if value < base then some (n * base + value) else none) 0

/-- Reads a number, in octal after a zero and in hexadecimal after a zero and the letter. -/
def number? : List UInt8 → Option Nat
  | 0x30 :: 0x78 :: digits | 0x30 :: 0x58 :: digits => numberInBase? 16 digits
  | 0x30 :: digits => numberInBase? 8 (0x30 :: digits)
  | digits => numberInBase? 10 digits

/-- The address that up to four numbers stand for, with the numbers before them as `high`. The last
number fills `room` bytes, each of the others one. -/
def ofNumbers? (room high : Nat) : List Nat → Option IPv4
  | [] => none
  | [n] => if n < 256 ^ room then some (ofNat (high * 256 ^ room + n)) else none
  | n :: rest =>
    if n < 256 ∧ 1 < room then ofNumbers? (room - 1) (high * 256 + n) rest else none

/-- Reads an address that is written freely. -/
def ofFreeText? (text : List UInt8) : Option IPv4 :=
  ((Parts.split 0x2e text).mapM number?).bind (ofNumbers? 4 0)

end IPv4

end Vdc
