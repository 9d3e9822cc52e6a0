import Vdc.Error
import Vdc.Json.Parser

/-!
# The wire form of properties

An element has a name, a value and nested elements, each of which may be missing. It is a looser
form than a node of a property tree, which holds either a value or nested nodes: an element with
both can be read and written, and only turning it into a node refuses it.

Reading counts down a budget of nesting, so that a text that is read straight into elements is held
to the same depth as any other.
-/

namespace Vdc

/-- One property as it stands on the wire. -/
structure Element where
  name : Option String
  value : Option Value
  elements : List Element
deriving Repr

namespace Element

/-! ## Equality -/

mutual

/-- Decides equality of elements. -/
def decEq : (a b : Element) → Decidable (a = b)
  | ⟨n, v, es⟩, ⟨m, w, fs⟩ =>
    if h : n = m ∧ v = w then
      match decEqList es fs with
      | isTrue hs => isTrue (by rw [h.1, h.2, hs])
      | isFalse hs => isFalse fun e => hs (Element.mk.inj e).2.2
    else isFalse fun e => h ⟨(Element.mk.inj e).1, (Element.mk.inj e).2.1⟩

/-- Decides equality of lists of elements. -/
def decEqList : (as bs : List Element) → Decidable (as = bs)
  | [], [] => isTrue rfl
  | [], _ :: _ => isFalse (by simp)
  | _ :: _, [] => isFalse (by simp)
  | a :: as, b :: bs =>
    match decEq a b, decEqList as bs with
    | isTrue h, isTrue hs => isTrue (by rw [h, hs])
    | isFalse h, _ => isFalse fun e => h (List.cons.inj e).1
    | _, isFalse hs => isFalse fun e => hs (List.cons.inj e).2

end

instance : DecidableEq Element := decEq

/-! ## Wire form -/

mutual

/-- The wire form of an element, without the parts that are missing. -/
def toJson : Element → Json
  | ⟨name, value, elements⟩ =>
    Json.record [
      ("name", name.map .text),
      ("value", value.map Value.toJson),
      ("elements", if elements.isEmpty then none else some (.array (listToJson elements)))]

/-- The wire forms of some elements. -/
def listToJson : List Element → List Json
  | [] => []
  | element :: rest => toJson element :: listToJson rest

end

/-- The fields of an element, in their order. -/
def fieldNames : List String := ["name", "value", "elements"]

/-- Reads an element that may be nested `budget` deep: the element itself takes one level, the list
of its elements another. -/
def ofJson? : Nat → Json → Option Element
  | 0, _ => none
  | budget + 1, json =>
    match json.slots? fieldNames with
    | some [name, value, elements] => do
      let name ← Json.optional? Json.text? name
      let value ← Json.optional? (Value.ofJson? budget) value
      let elements ← match budget, elements with
        | _, none => some []
        | 0, some _ => none
        | budget + 1, some (.array items) => items.mapM (ofJson? budget)
        | _, _ => none
      return ⟨name, value, elements⟩
    | _ => none

/-- Reads a list of elements that may be nested `budget` deep. -/
def listOfJson? : Nat → Json → Option (List Element)
  | budget + 1, .array items => items.mapM (ofJson? budget)
  | _, _ => none

/-- Reads a text that is one list of elements. -/
def listOfText? (bytes : List UInt8) : Option (List Element) :=
  (Json.parse bytes).bind (listOfJson? Json.maxNesting)

end Element

end Vdc
