import Vdc.Json.Record

/-!
# Scalar values of properties

A property holds one of six kinds of scalar. On the wire it is an object whose only key names the
kind, so that reading a value gives back its kind as well: an integer read as unsigned is not the
same value as one read as signed.
-/

namespace Vdc

/-- A scalar property value. -/
inductive Value where
  | bool (b : Bool)
  | uint (n : UInt64)
  | int (n : Int64)
  | double (d : Double)
  | string (s : String)
  | bytes (data : List UInt8)
deriving DecidableEq, Repr

/-- What a node of a property tree holds. -/
inductive ValueKind where
  | nested
  | bool
  | uint
  | int
  | double
  | string
  | bytes
deriving DecidableEq, Repr

namespace ValueKind

/-- The kind as it is named in error texts. -/
def label : ValueKind → String
  | .nested => "Nested"
  | .bool => "Bool"
  | .uint => "Uint"
  | .int => "Int"
  | .double => "Double"
  | .string => "String"
  | .bytes => "Bytes"

end ValueKind

namespace Value

/-- The kind of a value. -/
def kind : Value → ValueKind
  | .bool _ => .bool
  | .uint _ => .uint
  | .int _ => .int
  | .double _ => .double
  | .string _ => .string
  | .bytes _ => .bytes

/-- Equality of values, doubles compared as numbers. -/
def same : Value → Value → Bool
  | .double a, .double b => a.same b
  | a, b => a == b

/-- The wire form of a value. -/
def toJson : Value → Json
  | .bool b => .object [("v_bool", .boolean b)]
  | .uint n => .object [("v_uint64", Json.ofNat n.toNat)]
  | .int n => .object [("v_int64", Json.ofInt n.toInt)]
  | .double d => .object [("v_double", Json.ofDouble d)]
  | .string s => .object [("v_string", .text s)]
  | .bytes data => .object [("v_bytes", .array (data.map fun b => Json.ofNat b.toNat))]

/-- Reads a value that may be nested `budget` deep. -/
def ofJson? (budget : Nat) : Json → Option Value
  | .object [(key, json)] =>
    if budget = 0 then none
    else if key = "v_bool" then json.boolean?.map .bool
    else if key = "v_uint64" then json.uint64?.map .uint
    else if key = "v_int64" then json.int64?.map .int
    else if key = "v_double" then json.double?.map .double
    else if key = "v_string" then json.text?.map .string
    else if key = "v_bytes" then
      if budget = 1 then none else (json.list? Json.uint8?).map .bytes
    else none
  | _ => none

end Value

end Vdc
