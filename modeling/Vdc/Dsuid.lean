import Vdc.Error
import Vdc.Text.Hex

/-!
# dSUIDs

A dSUID names a device or an endpoint: seventeen bytes, written as 34 hex digits. Upper case is its
normal form. Two dSUIDs that differ in the last bit only are siblings.
-/

namespace Vdc.Dsuid

/-- The bytes of a dSUID. -/
def size : Nat := 17

/-- The text of a dSUID. -/
def ofBytes (bytes : List UInt8) : String :=
  Hex.text (Hex.upper bytes)

/-- The bytes that a text names. -/
def bytes? (text : String) : Except Error (List UInt8) :=
  match Hex.decode? (Utf8.encode text) with
  | none => .error (.parameter (.dsuidDigits text))
  | some bytes =>
    if bytes.length = size then .ok bytes
    else .error (.parameter (.dsuidSize text bytes.length size))

/-- Brings a dSUID into its normal form. -/
def parse (text : String) : Except Error String :=
  (bytes? text).map ofBytes

/-- The text in front of the last two digits, and the two digits. -/
def splitLast (text : String) : String × String :=
  (String.ofList (text.toList.take (text.length - 2)),
    String.ofList (text.toList.drop (text.length - 2)))

/-- The dSUID that differs from one in normal form in the last bit only: the last two digits are
read as a byte, and that byte is written again with the bit turned over. -/
def sibling (normal : String) : Except IntegerFault String := do
  let (front, last) := splitLast normal
  let byte ← Hex.byteOfText? (Utf8.encode last)
  return front ++ ofBytes [byte ^^^ 1]

end Vdc.Dsuid
