import Vdc.Number.Integer

/-!
# Hexadecimal text

Bytes are written as two hex digits each, the high half first. Reading accepts both cases and
nothing but an even number of digits; `decode?_upper` and `decode?_lower` say that what is written
is read back. A single byte may also be read as a number, `byteOfText?`, as decimal integers are.
-/

namespace Vdc.Hex

/-- The digit for a number below sixteen, letters starting at `first`. -/
def digit (first : UInt8) (n : Nat) : UInt8 :=
  if n < 10 then 0x30 + n.toUInt8 else first + (n - 10).toUInt8

/-- The number a hex digit of either case stands for. -/
def value? (b : UInt8) : Option Nat :=
  if 0x30 ≤ b ∧ b ≤ 0x39 then some (b.toNat - 0x30)
  else if 0x41 ≤ b ∧ b ≤ 0x46 then some (b.toNat - 0x41 + 10)
  else if 0x61 ≤ b ∧ b ≤ 0x66 then some (b.toNat - 0x61 + 10)
  else none

/-- Two digits for every byte, letters starting at `first`. -/
def encode (first : UInt8) (bytes : List UInt8) : List UInt8 :=
  bytes.flatMap fun b => [digit first (b.toNat / 16), digit first (b.toNat % 16)]

/-- Upper-case hex digits. -/
def upper (bytes : List UInt8) : List UInt8 := encode 0x41 bytes

/-- Lower-case hex digits. -/
def lower (bytes : List UInt8) : List UInt8 := encode 0x61 bytes

/-- The bytes written by an even number of hex digits. -/
def decode? : List UInt8 → Option (List UInt8)
  | [] => some []
  | [_] => none
  | a :: b :: rest => do
    let high ← value? a
    let low ← value? b
    let bytes ← decode? rest
    return UInt8.ofNat (high * 16 + low) :: bytes

/-- Takes digits from the left while the number stays within `limit`. -/
def within (limit : Nat) : Nat → List UInt8 → Except IntegerFault Nat
  | n, [] => .ok n
  | n, b :: rest =>
    match value? b with
    | none => .error .invalidDigit
    | some d => if limit < n * 16 + d then .error .tooLarge else within limit (n * 16 + d) rest

/-- Reads a byte that is written as a number, with a plus sign in front of it or without. -/
def byteOfText? : List UInt8 → Except IntegerFault UInt8
  | [] => .error .empty
  | [b] => (within 255 0 [b]).map UInt8.ofNat
  | b :: rest => (within 255 0 (if b = 0x2b then rest else b :: rest)).map UInt8.ofNat

/-- ASCII bytes as a string. -/
def text (digits : List UInt8) : String :=
  String.ofList (digits.map fun b => Char.ofNat b.toNat)

theorem value?_digit_upper : ∀ n < 16, value? (digit 0x41 n) = some n := by decide

theorem value?_digit_lower : ∀ n < 16, value? (digit 0x61 n) = some n := by decide

theorem decode?_encode {first : UInt8} (h : ∀ n < 16, value? (digit first n) = some n)
    (bytes : List UInt8) : decode? (encode first bytes) = some bytes := by
  induction bytes with
  | nil => rfl
  | cons b rest ih =>
    have hb := b.toNat_lt
    have hrest : encode first (b :: rest) =
        digit first (b.toNat / 16) :: digit first (b.toNat % 16) :: encode first rest := rfl
    rw [hrest, decode?, h _ (by omega), h _ (by omega), ih]
    have : (b.toNat / 16) * 16 + b.toNat % 16 = b.toNat := by omega
    change some (UInt8.ofNat (b.toNat / 16 * 16 + b.toNat % 16) :: rest) = some (b :: rest)
    rw [this, UInt8.ofNat_toNat]

@[simp] theorem decode?_upper (bytes : List UInt8) : decode? (upper bytes) = some bytes :=
  decode?_encode value?_digit_upper bytes

@[simp] theorem decode?_lower (bytes : List UInt8) : decode? (lower bytes) = some bytes :=
  decode?_encode value?_digit_lower bytes

/-- Two digits are read as the byte that they write. -/
theorem byteOfText?_upper (byte : UInt8) : byteOfText? (upper [byte]) = .ok byte := by
  have hbyte := byte.toNat_lt
  have hhigh := value?_digit_upper (byte.toNat / 16) (by omega)
  have hlow := value?_digit_upper (byte.toNat % 16) (by omega)
  have hsign : digit 0x41 (byte.toNat / 16) ≠ 0x2b := by
    intro hplus
    rw [hplus] at hhigh
    cases hhigh
  have hfits : byte.toNat / 16 * 16 + byte.toNat % 16 = byte.toNat := by omega
  have hdigits : upper [byte] =
      [digit 0x41 (byte.toNat / 16), digit 0x41 (byte.toNat % 16)] := rfl
  rw [hdigits, byteOfText?, if_neg hsign]
  · simp only [within, hhigh, hlow, Nat.zero_mul, Nat.zero_add, hfits]
    rw [if_neg (by omega), if_neg (by omega)]
    exact congrArg Except.ok UInt8.ofNat_toNat
  · exact List.cons_ne_nil _ _

end Vdc.Hex
