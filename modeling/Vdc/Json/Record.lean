import Vdc.Json.Basic

/-!
# Records in JSON

A record has named fields in a fixed order. It is written as an object without the fields that are
absent, and read from an object in any order, past unknown entries, or from an array of the fields
in order. `Json.slots?` finds what stands for each field; the readers of single fields below say
what may stand there. The main statement, `slots?_record`, is that reading finds what was written.
-/

namespace Vdc.Json

/-! ## Writing -/

/-- The object of the fields that are present. -/
def record (fields : List (String × Option Json)) : Json :=
  .object (fields.filterMap fun field => field.2.map (field.1, ·))

/-- A field that is left out when absent. -/
def optional {α : Type} (write : α → Json) (value : Option α) : Option Json :=
  value.map write

/-- A list field that is left out when empty. -/
def unlessEmpty {α : Type} (write : α → Json) (values : List α) : Option Json :=
  if values.isEmpty then none else some (.array (values.map write))

/-! ## Finding the fields -/

/-- What stands under a key: nothing, or a value; a key that is repeated is refused. -/
def slot? (entries : List (String × Json)) (key : String) : Option (Option Json) :=
  match entries.filter (·.1 == key) with
  | [] => some none
  | [entry] => some (some entry.2)
  | _ => none

/-- What stands for each of these fields in the entries of an object. -/
def entrySlots? (names : List String) (entries : List (String × Json)) :
    Option (List (Option Json)) :=
  names.mapM (slot? entries)

/-- What stands for each of these fields in an object or an array; the last items of an array may
be missing. -/
def slots? (names : List String) : Json → Option (List (Option Json))
  | .object entries => entrySlots? names entries
  | .array items =>
    if items.length ≤ names.length then
      some (items.map some ++ List.replicate (names.length - items.length) none)
    else none
  | _ => none

/-- Under a name that is not among the fields stands nothing. -/
theorem filter_present_eq_nil {fields : List (String × Option Json)} {name : String}
    (h : name ∉ fields.map (·.1)) :
    (fields.filterMap fun field => field.2.map (field.1, ·)).filter (·.1 == name) = [] := by
  simp only [List.filter_eq_nil_iff, List.mem_filterMap, Option.map_eq_some_iff]
  rintro _ ⟨field, hf, json, _, rfl⟩ heq
  exact h (List.mem_map.2 ⟨field, hf, by simpa using heq⟩)

/-- Under the name of a field stands what was written for it. -/
theorem slot?_present {fields : List (String × Option Json)} {field : String × Option Json}
    (hn : (fields.map (·.1)).Nodup) (h : field ∈ fields) :
    slot? (fields.filterMap fun field => field.2.map (field.1, ·)) field.1 = some field.2 := by
  induction fields with
  | nil => cases h
  | cons first rest ih =>
    obtain ⟨hfirst, hrest⟩ := List.nodup_cons.1 hn
    rcases List.mem_cons.1 h with rfl | h
    · obtain ⟨name, value⟩ := field
      cases value <;> simp [slot?, filter_present_eq_nil hfirst]
    · have hne : first.1 ≠ field.1 := fun heq =>
        hfirst (List.mem_map.2 ⟨field, h, heq.symm⟩)
      rw [← ih hrest h]
      obtain ⟨name, value⟩ := first
      cases value <;> simp [slot?, hne]

/-- Reading a record finds what was written for each field. -/
theorem slots?_record {fields : List (String × Option Json)} (h : (fields.map (·.1)).Nodup) :
    slots? (fields.map (·.1)) (record fields) = some (fields.map (·.2)) := by
  have hmap : ∀ part : List (String × Option Json), part ⊆ fields →
      (part.map (·.1)).mapM (slot? (fields.filterMap fun field => field.2.map (field.1, ·)))
        = some (part.map (·.2)) := by
    intro part hsub
    induction part with
    | nil => rfl
    | cons first rest ih =>
      simp [slot?_present h (hsub List.mem_cons_self),
        ih fun _ hf => hsub (List.mem_cons_of_mem _ hf)]
  exact hmap fields fun _ hf => hf

/-! ## Reading single fields -/

/-- A field that must be there. -/
def required? {α : Type} (read : Json → Option α) : Option Json → Option α
  | some json => read json
  | none => none

/-- A field that may be missing or null. -/
def optional? {α : Type} (read : Json → Option α) : Option Json → Option (Option α)
  | none | some .null => some none
  | some json => (read json).map some

/-- A field that has a default when it is missing. -/
def defaulted? {α : Type} (default : α) (read : Json → Option α) : Option Json → Option α
  | some json => read json
  | none => some default

/-! ## Reading scalars -/

/-- A string. -/
def text? : Json → Option String
  | .text s => some s
  | _ => none

/-- A boolean. -/
def boolean? : Json → Option Bool
  | .boolean b => some b
  | _ => none

/-- An integer between two bounds, the upper one excluded. -/
def integer? (low high : Int) : Json → Option Int
  | .number (.integer n) => if low ≤ n ∧ n < high then some n else none
  | _ => none

/-- A byte. -/
def uint8? (json : Json) : Option UInt8 :=
  (integer? 0 (2 ^ 8) json).map fun n => UInt8.ofNat n.toNat

/-- An unsigned integer of 32 bits. -/
def uint32? (json : Json) : Option UInt32 :=
  (integer? 0 (2 ^ 32) json).map fun n => UInt32.ofNat n.toNat

/-- An unsigned integer of 64 bits. -/
def uint64? (json : Json) : Option UInt64 :=
  (integer? 0 (2 ^ 64) json).map fun n => UInt64.ofNat n.toNat

/-- A signed integer of 32 bits. -/
def int32? (json : Json) : Option Int32 :=
  (integer? (-2 ^ 31) (2 ^ 31) json).map Int32.ofInt

/-- A signed integer of 64 bits. -/
def int64? (json : Json) : Option Int64 :=
  (integer? (-2 ^ 63) (2 ^ 63) json).map Int64.ofInt

/-- Any number, as a double. -/
def double? : Json → Option Double
  | .number n => some n.toDouble
  | _ => none

/-- A list, every item read alike. -/
def list? {α : Type} (read : Json → Option α) (json : Json) : Option (List α) :=
  match json with
  | .array items => items.mapM read
  | _ => none

/-! ## Writing scalars -/

/-- A natural number. -/
def ofNat (n : Nat) : Json := .number (.integer n)

/-- An integer. -/
def ofInt (n : Int) : Json := .number (.integer n)

/-- A double. -/
def ofDouble (d : Double) : Json := .number (.real d)

end Vdc.Json
