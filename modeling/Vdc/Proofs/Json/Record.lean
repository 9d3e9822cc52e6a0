import Vdc.Json.Record
import Vdc.Proofs.Json.Tokens

/-!
# Records field by field

What is true of a record is told from its fields: which doubles decide whether it has a text, which
is `Json.Carries`, and how deep it nests. A field that was written is read back as what it was
written for, which is stated here for every kind of field once.
-/

namespace Vdc.Json

/-! ## Doubles -/

/-- A value carries exactly these doubles: it has a text when they are finite, and otherwise the
first one that is not is what keeps it from having one. -/
structure Carries (json : Json) (doubles : List Double) : Prop where
  isPrintable : (∀ d ∈ doubles, d.isFinite = true) → json.IsPrintable
  firstNonFinite? : json.firstNonFinite? = doubles.find? (!·.isFinite)

/-- A value that carries only finite doubles can be written, and no other. -/
theorem Carries.firstNonFinite?_eq_none_iff {json : Json} {doubles : List Double}
    (h : json.Carries doubles) :
    json.firstNonFinite? = none ↔ ∀ d ∈ doubles, d.isFinite = true := by
  rw [h.firstNonFinite?, List.find?_eq_none]
  exact forall₂_congr fun d _ => by simp

/-- The doubles that a field carries; one that is left out carries none. -/
def FieldCarries : Option Json → List Double → Prop
  | none, doubles => doubles = []
  | some json, doubles => json.Carries doubles

theorem carries_text (s : String) : (text s).Carries [] := ⟨fun _ => trivial, rfl⟩

theorem carries_boolean (b : Bool) : (boolean b).Carries [] := ⟨fun _ => trivial, rfl⟩

theorem carries_ofNat {n : Nat} (h : n < 2 ^ 64) : (ofNat n).Carries [] :=
  ⟨fun _ => ⟨by omega, by omega⟩, rfl⟩

theorem carries_ofInt {n : Int} (hlow : -2 ^ 63 ≤ n) (hhigh : n < 2 ^ 63) :
    (ofInt n).Carries [] :=
  ⟨fun _ => ⟨hlow, by omega⟩, rfl⟩

theorem carries_ofDouble (d : Double) : (ofDouble d).Carries [d] := by
  refine ⟨fun h => h d List.mem_cons_self, ?_⟩
  cases hd : d.isFinite <;> simp [ofDouble, firstNonFinite?, hd]

theorem carries_array_nil : (array []).Carries [] := ⟨fun _ => trivial, rfl⟩

theorem carries_array_cons {item : Json} {items : List Json} {doubles rest : List Double}
    (hitem : item.Carries doubles) (hitems : (array items).Carries rest) :
    (array (item :: items)).Carries (doubles ++ rest) := by
  refine ⟨fun h => ?_, ?_⟩
  · obtain ⟨hdoubles, hrest⟩ := List.forall_mem_append.1 h
    exact ⟨hitem.isPrintable hdoubles, hitems.isPrintable hrest⟩
  · rw [List.find?_append, ← hitem.firstNonFinite?, ← hitems.firstNonFinite?]
    rfl

theorem carries_object_nil : (object []).Carries [] := ⟨fun _ => trivial, rfl⟩

theorem carries_object_cons {key : String} {value : Json} {entries : List (String × Json)}
    {doubles rest : List Double} (hvalue : value.Carries doubles)
    (hentries : (object entries).Carries rest) :
    (object ((key, value) :: entries)).Carries (doubles ++ rest) := by
  refine ⟨fun h => ?_, ?_⟩
  · obtain ⟨hdoubles, hrest⟩ := List.forall_mem_append.1 h
    exact ⟨hvalue.isPrintable hdoubles, hentries.isPrintable hrest⟩
  · rw [List.find?_append, ← hvalue.firstNonFinite?, ← hentries.firstNonFinite?]
    rfl

theorem carries_record_nil : (record []).Carries [] := carries_object_nil

theorem carries_record_cons {name : String} {field : Option Json}
    {fields : List (String × Option Json)} {doubles rest : List Double}
    (hfield : FieldCarries field doubles) (hfields : (record fields).Carries rest) :
    (record ((name, field) :: fields)).Carries (doubles ++ rest) := by
  cases field with
  | none =>
    obtain rfl : doubles = [] := hfield
    exact hfields
  | some json => exact carries_object_cons hfield hfields

/-- A field without doubles changes nothing about what the record carries. -/
theorem carries_record_cons_of_nil {name : String} {field : Option Json}
    {fields : List (String × Option Json)} {doubles : List Double}
    (hfield : FieldCarries field []) (hfields : (record fields).Carries doubles) :
    (record ((name, field) :: fields)).Carries doubles :=
  carries_record_cons hfield hfields

theorem carries_record_singleton {name : String} {field : Option Json} {doubles : List Double}
    (h : FieldCarries field doubles) : (record [(name, field)]).Carries doubles := by
  have hrecord := (carries_record_cons h carries_record_nil : (record [(name, field)]).Carries _)
  rwa [List.append_nil] at hrecord

section

variable {α : Type} {write : α → Json}

theorem fieldCarries_map {doubles : α → List Double}
    (hwrite : ∀ a, (write a).Carries (doubles a)) (value : Option α) :
    FieldCarries (value.map write) ((value.map doubles).getD []) := by
  cases value with
  | none => rfl
  | some a => exact hwrite a

/-- A field of a kind that has no doubles. -/
theorem fieldCarries_map_nil (hwrite : ∀ a, (write a).Carries []) (value : Option α) :
    FieldCarries (value.map write) [] := by
  cases value with
  | none => rfl
  | some a => exact hwrite a

theorem carries_array_map_nil (hwrite : ∀ a, (write a).Carries []) (list : List α) :
    (array (list.map write)).Carries [] := by
  induction list with
  | nil => exact carries_array_nil
  | cons a rest ih => exact carries_array_cons (hwrite a) ih

end

/-! ## Nesting -/

section

variable (name : String) (field : Option Json) (fields : List (String × Option Json))

/-- How deep a field nests. -/
def fieldNesting (field : Option Json) : Nat := (field.map nesting).getD 0

theorem nesting_record_nil : (record []).nesting = 1 := rfl

theorem nesting_record_cons : (record ((name, field) :: fields)).nesting =
    max (1 + fieldNesting field) (record fields).nesting := by
  cases field with
  | none => simp [record, nesting, fieldNesting]
  | some json => simp [record, nesting, nestingEntries, fieldNesting]

end

/-! ## Fields -/

/-- Reading a record by the names of its fields finds what was written for each. -/
theorem slots?_of_names {names : List String} {fields : List (String × Option Json)}
    (hnames : fields.map (·.1) = names) (hnodup : names.Nodup) :
    slots? names (record fields) = some (fields.map (·.2)) := by
  subst hnames
  exact slots?_record hnodup

section

variable {α : Type} {read : Json → Option α} {write : α → Json}

/-- A field that may be absent. -/
theorem optional?_map {value : Option α} (hread : ∀ a ∈ value, read (write a) = some a)
    (hnull : read .null = none) : optional? read (value.map write) = some value := by
  cases value with
  | none => rfl
  | some a =>
    have hne : write a ≠ .null := by
      intro heq
      have h := hread a rfl
      rw [heq, hnull] at h
      cases h
    rw [Option.map_some, optional?, hread a rfl, Option.map_some]
    exact hne

theorem mapM_map {list : List α} (hread : ∀ a ∈ list, read (write a) = some a) :
    (list.map write).mapM read = some list := by
  induction list with
  | nil => rfl
  | cons a rest ih =>
    obtain ⟨ha, hrest⟩ := List.forall_mem_cons.1 hread
    rw [List.map_cons, List.mapM_cons, ha, ih hrest]
    rfl

/-- A list that is left out when empty. -/
theorem defaulted?_unlessEmpty {list : List α} (hread : ∀ a ∈ list, read (write a) = some a) :
    defaulted? [] (list? read) (unlessEmpty write list) = some list := by
  cases list with
  | nil => rfl
  | cons a rest => exact mapM_map hread

end

/-! ## Reading more -/

section

variable {α : Type} {read more : Json → Option α}

/-- A reader that takes more finds the same in a field. -/
theorem optional?_mono {field : Option Json} {value : Option α}
    (h : optional? read field = some value)
    (hread : ∀ json a, read json = some a → more json = some a) :
    optional? more field = some value := by
  unfold optional? at h ⊢
  split at h
  · exact h
  · exact h
  · obtain ⟨a, ha, rfl⟩ := Option.map_eq_some_iff.1 h
    rw [hread _ a ha, Option.map_some]

/-- What holds of all that can be read from a field holds of what was read from it. -/
theorem forall_mem_of_optional? {field : Option Json} {value : Option α}
    (h : optional? read field = some value) {P : α → Prop}
    (hread : ∀ json ∈ field, ∀ a, read json = some a → P a) : ∀ a ∈ value, P a := by
  intro a ha
  obtain rfl : value = some a := ha
  unfold optional? at h
  split at h
  · cases h
  · cases h
  · next json _ =>
    obtain ⟨b, hb, heq⟩ := Option.map_eq_some_iff.1 h
    obtain rfl : b = a := Option.some.inj heq
    exact hread json rfl b hb

/-- A list of values that was read, taken apart. -/
theorem mapM_cons_eq_some {β : Type} {read : β → Option α} {item : β} {items : List β}
    {list : List α} (h : (item :: items).mapM read = some list) :
    ∃ first rest, list = first :: rest ∧ read item = some first ∧ items.mapM read = some rest := by
  rw [List.mapM_cons] at h
  obtain ⟨first, hfirst, h⟩ := Option.bind_eq_some_iff.1 h
  obtain ⟨rest, hrest, h⟩ := Option.bind_eq_some_iff.1 h
  exact ⟨first, rest, (Option.some.inj h).symm, hfirst, hrest⟩

/-- What holds of all that can be read from the items holds of the list that was read. -/
theorem forall_mem_of_mapM {β : Type} {read : β → Option α} {P : α → Prop} :
    ∀ {items : List β} {list : List α}, items.mapM read = some list →
      (∀ item ∈ items, ∀ a, read item = some a → P a) → ∀ a ∈ list, P a
  | [], list, h, _ => by
    obtain rfl : [] = list := Option.some.inj h
    exact List.forall_mem_nil _
  | item :: items, list, h, hread => by
    obtain ⟨first, rest, rfl, hfirst, hrest⟩ := mapM_cons_eq_some h
    obtain ⟨hitem, hitems⟩ := List.forall_mem_cons.1 hread
    exact List.forall_mem_cons.2 ⟨hitem first hfirst, forall_mem_of_mapM hrest hitems⟩

theorem mapM_mono (hread : ∀ json a, read json = some a → more json = some a) :
    ∀ {items : List Json} {list : List α}, items.mapM read = some list →
      items.mapM more = some list
  | [], _, h => h
  | item :: items, list, h => by
    obtain ⟨first, rest, rfl, hfirst, hrest⟩ := mapM_cons_eq_some h
    rw [List.mapM_cons, hread item first hfirst, mapM_mono hread hrest]
    rfl

end

/-! ## Scalars -/

theorem integer?_ofInt {low high n : Int} (h : low ≤ n ∧ n < high) :
    integer? low high (ofInt n) = some n := if_pos h

theorem uint8?_ofNat (n : UInt8) : uint8? (ofNat n.toNat) = some n := by
  have h := n.toNat_lt
  rw [uint8?, ofNat, ← ofInt, integer?_ofInt (by omega)]
  simp

theorem uint32?_ofNat (n : UInt32) : uint32? (ofNat n.toNat) = some n := by
  have h := n.toNat_lt
  rw [uint32?, ofNat, ← ofInt, integer?_ofInt (by omega)]
  simp

theorem uint64?_ofNat (n : UInt64) : uint64? (ofNat n.toNat) = some n := by
  have h := n.toNat_lt
  rw [uint64?, ofNat, ← ofInt, integer?_ofInt (by omega)]
  simp

theorem int32?_ofInt (n : Int32) : int32? (ofInt n.toInt) = some n := by
  have hlow := n.le_toInt
  have hhigh := n.toInt_lt
  rw [int32?, integer?_ofInt ⟨hlow, hhigh⟩]
  simp

theorem int64?_ofInt (n : Int64) : int64? (ofInt n.toInt) = some n := by
  have hlow := n.le_toInt
  have hhigh := n.toInt_lt
  rw [int64?, integer?_ofInt ⟨hlow, hhigh⟩]
  simp

end Vdc.Json
