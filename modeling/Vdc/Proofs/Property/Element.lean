import Vdc.Property.Element
import Vdc.Proofs.Json.Record

/-!
# Properties read back

A value and an element are read back from their wire form if the budget of nesting allows for it,
`ofJson?_toJson`. They have a text unless one of their doubles is not finite, and then the first of
those is what keeps them from it.

A budget allows for exactly what nests no deeper, whatever form it was written in: what is read
within one is found by every larger one too, and nests no deeper when it is written again. So
`listOfJson?_listToJson` tells which lists of elements are read back.
-/

namespace Vdc

namespace Value

/-- The doubles in a value. -/
def doubles : Value → List Double
  | .double d => [d]
  | _ => []

theorem carries_toJson (v : Value) : v.toJson.Carries v.doubles := by
  -- A value is written as an object with one entry, its type.
  have hentry : ∀ {type : String} {json : Json} {doubles : List Double}, json.Carries doubles →
      (Json.object [(type, json)]).Carries doubles := by
    intro type json doubles h
    refine ⟨fun hfinite => ⟨h.isPrintable hfinite, trivial⟩, ?_⟩
    exact Option.or_none.trans h.firstNonFinite?
  cases v with
  | bool b => exact hentry (Json.carries_boolean b)
  | uint n => exact hentry (Json.carries_ofNat n.toNat_lt)
  | int n => exact hentry (Json.carries_ofInt n.le_toInt n.toInt_lt)
  | double d => exact hentry (Json.carries_ofDouble d)
  | string s => exact hentry (Json.carries_text s)
  | bytes data =>
    refine hentry (Json.carries_array_map_nil (fun b => Json.carries_ofNat ?_) data)
    have hb := b.toNat_lt
    omega

/-- A value is read back within a budget for its nesting. -/
theorem ofJson?_toJson {budget : Nat} {v : Value} (h : v.toJson.nesting ≤ budget) :
    ofJson? budget v.toJson = some v := by
  have hpos : budget ≠ 0 := by
    rintro rfl
    cases v <;> simp [toJson, Json.nesting] at h
  cases v with
  | bool b => simp [toJson, ofJson?, hpos, Json.boolean?]
  | uint n => simp [toJson, ofJson?, hpos, Json.uint64?_ofNat]
  | int n => simp [toJson, ofJson?, hpos, Json.int64?_ofInt]
  | double d => simp [toJson, ofJson?, hpos, Json.double?, Json.ofDouble, Number.toDouble]
  | string s => simp [toJson, ofJson?, hpos, Json.text?]
  | bytes data =>
    have htwo : budget ≠ 1 := by
      rintro rfl
      rw [toJson, Json.nesting, Json.nestingEntries, Json.nesting] at h
      omega
    have hdata : (data.map fun b => Json.ofNat b.toNat).mapM Json.uint8? = some data :=
      Json.mapM_map fun b _ => Json.uint8?_ofNat b
    simp [toJson, ofJson?, hpos, htwo, Json.list?, hdata]

theorem nesting_toJson_bytes (data : List UInt8) : (toJson (.bytes data)).nesting = 2 := by
  have hscalars : Json.nestingItems (data.map fun b => Json.ofNat b.toNat) = 0 := by
    induction data with
    | nil => rfl
    | cons b rest ih =>
      rw [List.map_cons, Json.nestingItems, ih]
      rfl
  simp [toJson, Json.nesting, Json.nestingEntries, hscalars]

/-- What is read within a budget nests no deeper when it is written. -/
theorem nesting_le_of_ofJson? {budget : Nat} {json : Json} {v : Value}
    (h : ofJson? budget json = some v) : v.toJson.nesting ≤ budget := by
  unfold ofJson? at h
  split at h
  · cases v with
    | bytes data => rw [nesting_toJson_bytes]; grind [Option.map_eq_some_iff]
    | _ => change 1 ≤ budget; grind
  · cases h

/-- A larger budget takes as much. -/
theorem ofJson?_mono {budget more : Nat} {json : Json} {v : Value}
    (h : ofJson? budget json = some v) (hle : budget ≤ more) : ofJson? more json = some v := by
  unfold ofJson? at h ⊢
  split at h
  · grind
  · cases h

end Value

namespace Element

/-! ## Doubles -/

mutual

/-- The doubles in an element, at any depth. -/
def doubles : Element → List Double
  | ⟨_, value, elements⟩ => (value.map Value.doubles).getD [] ++ listDoubles elements

/-- The doubles in some elements. -/
def listDoubles : List Element → List Double
  | [] => []
  | element :: rest => doubles element ++ listDoubles rest

end

theorem listToJson_eq_map (elements : List Element) :
    listToJson elements = elements.map toJson := by
  induction elements with
  | nil => rfl
  | cons element rest ih => rw [listToJson, ih, List.map_cons]

/-- The field that elements are written to. -/
def field (elements : List Element) : Option Json :=
  if elements.isEmpty then none else some (.array (listToJson elements))

theorem toJson_eq (name : Option String) (value : Option Value) (elements : List Element) :
    toJson ⟨name, value, elements⟩ = Json.record [("name", name.map .text),
      ("value", value.map Value.toJson), ("elements", field elements)] := rfl

theorem fieldCarries_field {elements : List Element}
    (h : (Json.array (listToJson elements)).Carries (listDoubles elements)) :
    Json.FieldCarries (field elements) (listDoubles elements) := by
  cases elements with
  | nil => rfl
  | cons element rest => exact h

mutual

theorem carries_toJson : ∀ element : Element, element.toJson.Carries element.doubles
  | ⟨name, value, elements⟩ => by
    have helements := fieldCarries_field (carries_listToJson elements)
    rw [toJson_eq, doubles]
    exact Json.carries_record_cons_of_nil (Json.fieldCarries_map_nil Json.carries_text name)
      (Json.carries_record_cons (Json.fieldCarries_map Value.carries_toJson value)
        (Json.carries_record_singleton helements))

theorem carries_listToJson : ∀ elements : List Element,
    (Json.array (listToJson elements)).Carries (listDoubles elements)
  | [] => Json.carries_array_nil
  | element :: rest => Json.carries_array_cons (carries_toJson element) (carries_listToJson rest)

end

/-! ## Reading -/

mutual

/-- An element is read back within a budget for its nesting. -/
theorem ofJson?_toJson : ∀ {budget : Nat} {element : Element}, element.toJson.nesting ≤ budget →
    ofJson? budget element.toJson = some element
  | 0, ⟨name, value, elements⟩, h => by
    rw [toJson_eq, Json.nesting_record_cons] at h
    omega
  | budget + 1, ⟨name, value, elements⟩, h => by
    rw [toJson_eq, Json.nesting_record_cons, Json.nesting_record_cons, Json.nesting_record_cons,
      Json.nesting_record_nil] at h
    have hslots : (Json.record [("name", name.map .text), ("value", value.map Value.toJson),
        ("elements", field elements)]).slots? fieldNames =
          some [name.map .text, value.map Value.toJson, field elements] :=
      Json.slots?_of_names rfl (by decide)
    have hname : Json.optional? Json.text? (name.map .text) = some name :=
      Json.optional?_map (fun _ _ => rfl) rfl
    have hvalue : Json.optional? (Value.ofJson? budget) (value.map Value.toJson) = some value := by
      refine Json.optional?_map (fun v hv => Value.ofJson?_toJson ?_) rfl
      obtain rfl := hv
      simp only [Json.fieldNesting, Option.map_some, Option.getD_some] at h
      omega
    rw [ofJson?, toJson_eq, hslots]
    simp only [hname, hvalue, Option.bind_eq_bind, Option.bind_some]
    cases elements with
    | nil => rfl
    | cons first rest =>
      have hfield : field (first :: rest) = some (.array (listToJson (first :: rest))) := rfl
      simp only [hfield, Json.fieldNesting, Option.map_some, Option.getD_some, Json.nesting] at h ⊢
      -- The list of elements takes a level of its own, so the budget is not used up yet.
      cases budget with
      | zero => omega
      | succ budget => exact congrArg (Option.bind · _) (mapM_listToJson (by omega))

theorem mapM_listToJson : ∀ {budget : Nat} {elements : List Element},
    Json.nestingItems (listToJson elements) ≤ budget →
    (listToJson elements).mapM (ofJson? budget) = some elements
  | _, [], _ => rfl
  | budget, element :: rest, h => by
    rw [listToJson, Json.nestingItems] at h
    rw [listToJson, List.mapM_cons, ofJson?_toJson (by omega), mapM_listToJson (by omega)]
    rfl

end

/-! ## Budgets -/

/-- The fields of an element are read within the rest of the budget. -/
theorem ofJson?_succ {budget : Nat} {json : Json} {names values lists : Option Json}
    (hslots : json.slots? fieldNames = some [names, values, lists]) :
    ofJson? (budget + 1) json = (Json.optional? Json.text? names).bind fun name =>
      (Json.optional? (Value.ofJson? budget) values).bind fun value =>
        (Json.defaulted? [] (listOfJson? budget) lists).map (⟨name, value, ·⟩) := by
  rw [ofJson?, hslots]
  dsimp only
  cases Json.optional? Json.text? names with
  | none => rfl
  | some name =>
    cases Json.optional? (Value.ofJson? budget) values with
    | none => rfl
    | some value =>
      cases lists with
      | none => rfl
      | some list =>
        cases budget with
        | zero => rfl
        | succ budget =>
          cases list with
          | array items => exact Option.map_eq_bind.symm
          | _ => rfl

/-- What was read as an element had its fields. -/
theorem exists_slots_of_ofJson? {budget : Nat} {json : Json} {element : Element}
    (h : ofJson? (budget + 1) json = some element) :
    ∃ names values lists, json.slots? fieldNames = some [names, values, lists] := by
  rw [ofJson?] at h
  split at h
  · next names values lists hslots => exact ⟨names, values, lists, hslots⟩
  · cases h

/-- The parts of an element that was read, each within the rest of the budget. -/
theorem exists_of_ofJson? {budget : Nat} {json : Json} {element : Element}
    (h : ofJson? (budget + 1) json = some element) : ∃ names values lists,
      json.slots? fieldNames = some [names, values, lists] ∧
      Json.optional? Json.text? names = some element.name ∧
      Json.optional? (Value.ofJson? budget) values = some element.value ∧
      Json.defaulted? [] (listOfJson? budget) lists = some element.elements := by
  obtain ⟨names, values, lists, hslots⟩ := exists_slots_of_ofJson? h
  rw [ofJson?_succ hslots] at h
  obtain ⟨name, hname, h⟩ := Option.bind_eq_some_iff.1 h
  obtain ⟨value, hvalue, h⟩ := Option.bind_eq_some_iff.1 h
  obtain ⟨elements, helements, rfl⟩ := Option.map_eq_some_iff.1 h
  exact ⟨names, values, lists, hslots, hname, hvalue, helements⟩

theorem nestingItems_le_of_mapM {budget : Nat}
    (hread : ∀ {json element}, ofJson? budget json = some element →
      element.toJson.nesting ≤ budget) :
    ∀ {items : List Json} {elements : List Element}, items.mapM (ofJson? budget) = some elements →
      Json.nestingItems (listToJson elements) ≤ budget
  | [], elements, h => by
    obtain rfl : [] = elements := Option.some.inj h
    exact Nat.zero_le _
  | item :: items, elements, h => by
    obtain ⟨first, rest, rfl, hfirst, hrest⟩ := Json.mapM_cons_eq_some h
    exact Nat.max_le.2 ⟨hread hfirst, nestingItems_le_of_mapM hread hrest⟩

mutual

/-- What is read within a budget nests no deeper when it is written. -/
theorem nesting_le_of_ofJson? : ∀ {budget : Nat} {json : Json} {element : Element},
    ofJson? budget json = some element → element.toJson.nesting ≤ budget
  | 0, _, _, h => by
    rw [ofJson?] at h
    cases h
  | budget + 1, json, ⟨name, value, elements⟩, h => by
    obtain ⟨names, values, lists, -, -, hvalues, hlists⟩ := exists_of_ofJson? h
    have hname : Json.fieldNesting (name.map .text) = 0 := by cases name <;> rfl
    have hvalue : Json.fieldNesting (value.map Value.toJson) ≤ budget := by
      have hmem := Json.forall_mem_of_optional? hvalues fun _ _ _ => Value.nesting_le_of_ofJson?
      cases value with
      | none => exact Nat.zero_le _
      | some v => exact hmem v rfl
    have helements : Json.fieldNesting (field elements) ≤ budget := by
      cases elements with
      | nil => exact Nat.zero_le _
      | cons first rest =>
        cases lists with
        | none => cases hlists
        | some list => exact nesting_le_of_listOfJson? hlists
    rw [toJson_eq, Json.nesting_record_cons, Json.nesting_record_cons, Json.nesting_record_cons,
      Json.nesting_record_nil]
    omega

theorem nesting_le_of_listOfJson? : ∀ {budget : Nat} {json : Json} {elements : List Element},
    listOfJson? budget json = some elements → (Json.array (listToJson elements)).nesting ≤ budget
  | 0, json, _, h => by cases json <;> cases h
  | budget + 1, json, elements, h => by
    cases json with
    | array items =>
      have hitems := nestingItems_le_of_mapM (fun h => nesting_le_of_ofJson? h) h
      rw [Json.nesting]
      omega
    | _ => cases h

end

mutual

/-- A larger budget takes as much. -/
theorem ofJson?_mono : ∀ {budget more : Nat} {json : Json} {element : Element},
    ofJson? budget json = some element → budget ≤ more → ofJson? more json = some element
  | 0, _, _, _, h, _ => by
    rw [ofJson?] at h
    cases h
  | budget + 1, more + 1, json, ⟨name, value, elements⟩, h, hle => by
    obtain ⟨names, values, lists, hslots, hname, hvalues, hlists⟩ := exists_of_ofJson? h
    have hvalue : Json.optional? (Value.ofJson? more) values = some value :=
      Json.optional?_mono hvalues fun _ _ hv => Value.ofJson?_mono hv (by omega)
    have helements : Json.defaulted? [] (listOfJson? more) lists = some elements := by
      cases lists with
      | none => exact hlists
      | some list => exact listOfJson?_mono hlists (by omega)
    rw [ofJson?_succ hslots, hname, Option.bind_some, hvalue, Option.bind_some, helements]
    rfl

theorem listOfJson?_mono : ∀ {budget more : Nat} {json : Json} {elements : List Element},
    listOfJson? budget json = some elements → budget ≤ more →
    listOfJson? more json = some elements
  | 0, _, json, _, h, _ => by cases json <;> cases h
  | budget + 1, more + 1, json, elements, h, hle => by
    cases json with
    | array items => exact Json.mapM_mono (fun _ _ h => ofJson?_mono h (by omega)) h
    | _ => cases h

end

/-- A written list of elements is read back if it nests no deeper than the budget, and refused
otherwise. -/
theorem listOfJson?_listToJson (budget : Nat) (elements : List Element) :
    listOfJson? budget (.array (listToJson elements)) =
      if (Json.array (listToJson elements)).nesting ≤ budget then some elements else none := by
  have hself : ∀ budget, (Json.array (listToJson elements)).nesting ≤ budget →
      listOfJson? budget (.array (listToJson elements)) = some elements := by
    intro budget h
    rw [Json.nesting] at h
    cases budget with
    | zero => omega
    | succ budget => exact mapM_listToJson (by omega)
  by_cases h : (Json.array (listToJson elements)).nesting ≤ budget
  · rw [if_pos h, hself budget h]
  · rw [if_neg h, Option.eq_none_iff_forall_ne_some]
    intro others hothers
    -- Whatever is read within the budget, a larger one reads it as well, and that finds `elements`.
    have hmore := listOfJson?_mono hothers (Nat.le_of_not_le h)
    rw [hself _ (Nat.le_refl _)] at hmore
    obtain rfl : elements = others := Option.some.inj hmore
    exact h (nesting_le_of_listOfJson? hothers)

end Element

end Vdc
