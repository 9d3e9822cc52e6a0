import Vdc.Number.Integer
import Vdc.Property.Value

/-!
# Assignments

An assignment is a name, an equals sign and a value. The value is read as the first that fits of a
boolean, an unsigned integer, a signed integer and a double, and is a string otherwise. A double
that is no finite number is refused, because it could not be sent.
-/

namespace Vdc

/-- A property to be set. -/
structure Assignment where
  name : String
  value : Value
deriving DecidableEq, Repr

/-- What is wrong with an assignment. -/
inductive AssignmentFault where
  | noEquals (text : String)
  | noName (text : String)
  | notFinite (name value : String)
deriving DecidableEq, Repr

namespace AssignmentFault

/-- The fault in words. -/
def message : AssignmentFault → String
  | .noEquals text => s!"expected NAME=VALUE, got '{text}'"
  | .noName text => s!"empty property name in '{text}'"
  | .notFinite name value => s!"'{name}' is not a finite number: '{value}'"

end AssignmentFault

namespace Assignment

/-- The name and the value on both sides of the first equals sign. -/
def split? (text : String) : Option (String × String) :=
  match text.toList.dropWhile (· != '=') with
  | [] => none
  | _ :: value =>
    some (String.ofList (text.toList.takeWhile (· != '=')), String.ofList value)

/-- A boolean. -/
def bool? (text : String) : Option Value :=
  if text = "true" then some (.bool true) else if text = "false" then some (.bool false) else none

/-- An unsigned integer of 64 bits. -/
def uint? (text : String) : Option Value :=
  (natOfText? (2 ^ 64 - 1) (Utf8.encode text)).toOption.map fun n => .uint (UInt64.ofNat n)

/-- A signed integer of 64 bits. -/
def int? (text : String) : Option Value :=
  (intOfText? (2 ^ 63) (2 ^ 63 - 1) (Utf8.encode text)).toOption.map fun n => .int (Int64.ofInt n)

/-- Reads the value for a name. -/
def value? (name text : String) : Except AssignmentFault Value :=
  match ((bool? text).or (uint? text)).or (int? text) with
  | some value => .ok value
  | none =>
    match Double.ofText? text with
    | none => .ok (.string text)
    | some d => if d.isFinite then .ok (.double d) else .error (.notFinite name text)

/-- Reads an assignment. -/
def parse (text : String) : Except AssignmentFault Assignment :=
  match split? text with
  | none => .error (.noEquals text)
  | some (name, value) =>
    if name.isEmpty then .error (.noName text)
    else (value? name value).map (⟨name, ·⟩)

end Assignment

end Vdc
