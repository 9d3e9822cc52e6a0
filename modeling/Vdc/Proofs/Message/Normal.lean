import Vdc.Proofs.Json.Reading
import Vdc.Proofs.Message.RoundTrip

/-!
# Messages written back

`Message.normal_form_of_decode`: whatever text a message was read from, it can be written, and what
is written reads as the same message. So writing is a normal form of all the texts of a message.

Two facts about what is read carry this. Its doubles are finite, because the numbers of a text are,
`Json.isPrintable_of_read`, and no reader makes another one of them than the double nearest to an
integer of 64 bits. And it nests within the limit, because elements are read within a budget that
leaves the message and its payload a level each, and nothing else in a payload nests deeper than a
list of strings.
-/

namespace Vdc

namespace Json

/-! ## Fields -/

/-- What stands under a key of a printable object is printable. -/
theorem isPrintable_of_slot? {entries : List (String × Json)} {key : String} {slot : Option Json}
    (hentries : EntriesPrintable entries) (h : slot? entries key = some slot) :
    ∀ json ∈ slot, json.IsPrintable := by
  intro json hjson
  obtain rfl : slot = some json := hjson
  unfold slot? at h
  split at h
  · cases h
  · next entry heq =>
    obtain rfl : entry.2 = json := Option.some.inj (Option.some.inj h)
    have hmem : entry ∈ entries := (List.mem_filter.1 (heq ▸ List.mem_singleton_self entry)).1
    exact entriesPrintable_iff.1 hentries entry hmem
  · cases h

/-- What is found for a field of a printable object is printable. -/
theorem isPrintable_of_entrySlots? {names : List String} {entries : List (String × Json)}
    {slots : List (Option Json)} (hentries : EntriesPrintable entries)
    (h : entrySlots? names entries = some slots) :
    ∀ slot ∈ slots, ∀ json ∈ slot, json.IsPrintable :=
  forall_mem_of_mapM h fun _ _ _ => isPrintable_of_slot? hentries

/-- What is found for a field of a printable record is printable. -/
theorem isPrintable_of_slots? {names : List String} {json : Json} {slots : List (Option Json)}
    (hjson : json.IsPrintable) (h : json.slots? names = some slots) :
    ∀ slot ∈ slots, ∀ field ∈ slot, field.IsPrintable := by
  cases json with
  | object entries => exact isPrintable_of_entrySlots? hjson h
  | array items =>
    simp only [slots?] at h
    split at h
    · obtain rfl := Option.some.inj h
      intro slot hslot field hfield
      rcases List.mem_append.1 hslot with hslot | hslot
      · obtain ⟨item, hitem, rfl⟩ := List.mem_map.1 hslot
        obtain rfl : item = field := Option.some.inj hfield
        exact arePrintable_iff.1 hjson item hitem
      · obtain rfl := List.eq_of_mem_replicate hslot
        cases hfield
    · cases h
  | _ => cases h

/-- A printable number is read as a finite double. -/
theorem isFinite_of_double? {json : Json} {d : Double} (hjson : json.IsPrintable)
    (h : json.double? = some d) : d.isFinite = true := by
  cases json with
  | number value =>
    obtain rfl := Option.some.inj h
    cases value with
    | integer n => exact Double.isFinite_ofInt hjson.1 hjson.2
    | real d => exact hjson
  | _ => cases h

/-- A record nests one deeper than its fields. -/
theorem nesting_record_le {fields : List (String × Option Json)} {n : Nat}
    (h : ∀ field ∈ fields, fieldNesting field.2 ≤ n) : (record fields).nesting ≤ 1 + n := by
  induction fields with
  | nil => exact Nat.le_add_right 1 n
  | cons field rest ih =>
    obtain ⟨hfield, hrest⟩ := List.forall_mem_cons.1 h
    rw [nesting_record_cons]
    exact Nat.max_le.2 ⟨Nat.add_le_add_left hfield 1, ih hrest⟩

end Json

namespace Value

/-- A value that was read from a printable text has finite doubles. -/
theorem isFinite_of_ofJson? {budget : Nat} {json : Json} {v : Value} (hjson : json.IsPrintable)
    (h : ofJson? budget json = some v) : ∀ d ∈ v.doubles, d.isFinite = true := by
  cases v with
  | double d =>
    unfold ofJson? at h
    split at h
    · next key field =>
      have hfield : field.double? = some d := by grind [Option.map_eq_some_iff]
      exact List.forall_mem_singleton.2 (Json.isFinite_of_double? hjson.1 hfield)
    · cases h
  | _ => exact List.forall_mem_nil _

end Value

namespace Element

theorem forall_mem_listDoubles_iff {P : Double → Prop} {elements : List Element} :
    (∀ d ∈ listDoubles elements, P d) ↔ ∀ element ∈ elements, ∀ d ∈ element.doubles, P d := by
  induction elements with
  | nil => simp [listDoubles]
  | cons element rest ih => rw [listDoubles, List.forall_mem_append, ih, List.forall_mem_cons]

mutual

/-- An element that was read from a printable text has finite doubles. -/
theorem isFinite_of_ofJson? : ∀ {budget : Nat} {json : Json} {element : Element},
    json.IsPrintable → ofJson? budget json = some element →
    ∀ d ∈ element.doubles, d.isFinite = true
  | 0, _, _, _, h => by
    rw [ofJson?] at h
    cases h
  | budget + 1, json, ⟨name, value, elements⟩, hjson, h => by
    obtain ⟨names, values, lists, hslots, -, hvalues, hlists⟩ := exists_of_ofJson? h
    have hfields := Json.isPrintable_of_slots? hjson hslots
    simp only [List.forall_mem_cons] at hfields
    obtain ⟨-, hvaluesPrintable, hlistsPrintable, -⟩ := hfields
    have hvalue : ∀ v ∈ value, ∀ d ∈ v.doubles, d.isFinite = true :=
      Json.forall_mem_of_optional? hvalues fun field hfield v hv =>
        Value.isFinite_of_ofJson? (hvaluesPrintable field hfield) hv
    have helements : ∀ d ∈ listDoubles elements, d.isFinite = true := by
      cases lists with
      | none =>
        obtain rfl : [] = elements := Option.some.inj hlists
        exact List.forall_mem_nil _
      | some list => exact isFinite_of_listOfJson? (hlistsPrintable list rfl) hlists
    rw [doubles, List.forall_mem_append]
    refine ⟨?_, helements⟩
    cases value with
    | none => exact List.forall_mem_nil _
    | some v => exact hvalue v rfl

theorem isFinite_of_listOfJson? : ∀ {budget : Nat} {json : Json} {elements : List Element},
    json.IsPrintable → listOfJson? budget json = some elements →
    ∀ d ∈ listDoubles elements, d.isFinite = true
  | 0, json, _, _, h => by cases json <;> cases h
  | budget + 1, json, elements, hjson, h => by
    cases json with
    | array items =>
      refine forall_mem_listDoubles_iff.2 (Json.forall_mem_of_mapM h fun item hitem element h => ?_)
      exact isFinite_of_ofJson? (Json.arePrintable_iff.1 hjson item hitem) h
    | _ => cases h

end

end Element

namespace Payload

/-- The elements of a payload. -/
def elements : Payload → List Element
  | .getProperty _ elements | .propertyResponse elements | .setProperty _ elements
  | .pushProperty _ elements => elements
  | _ => []

/-- A payload that can be written, and is read back inside a message. -/
structure Normal (payload : Payload) : Prop where
  isFinite : ∀ d ∈ payload.doubles, d.isFinite = true
  nesting_lt : payload.toJson.nesting < Json.maxNesting

/-! ## Nesting -/

theorem fieldNesting_textsField (texts : List String) :
    Json.fieldNesting (textsField texts) ≤ 1 := by
  have hitems : ∀ texts : List String, Json.nestingItems (texts.map .text) = 0 := by
    intro texts
    induction texts with
    | nil => rfl
    | cons first rest ih => rw [List.map_cons, Json.nestingItems, ih]; rfl
  cases texts with
  | nil => exact Nat.zero_le 1
  | cons first rest =>
    exact Nat.le_of_eq (congrArg (1 + ·) (hitems (first :: rest)))

theorem fieldNesting_map {α : Type} {write : α → Json} (hwrite : ∀ a, (write a).nesting = 0)
    (value : Option α) : Json.fieldNesting (value.map write) = 0 := by
  cases value with
  | none => rfl
  | some a => exact hwrite a

/-- Only the elements of a payload nest deeper than a list of strings. -/
theorem nesting_toJson_le (payload : Payload) :
    payload.toJson.nesting ≤ 1 + max 1 (Json.fieldNesting (elementsField payload.elements)) := by
  have htext : ∀ s : Option String, Json.fieldNesting (s.map .text) = 0 :=
    fieldNesting_map fun _ => rfl
  have hint32 : ∀ n : Option Int32, Json.fieldNesting (int32Field n) = 0 :=
    fieldNesting_map fun _ => rfl
  have huint32 : ∀ n : Option UInt32, Json.fieldNesting (n.map fun n => Json.ofNat n.toNat) = 0 :=
    fieldNesting_map fun _ => rfl
  have hdouble : ∀ d : Option Double, Json.fieldNesting (d.map Json.ofDouble) = 0 :=
    fieldNesting_map fun _ => rfl
  have hsome : ∀ s : String, Json.fieldNesting (some (.text s)) = 0 := fun _ => rfl
  have hbool : ∀ b : Bool, Json.fieldNesting (some (.boolean b)) = 0 := fun _ => rfl
  have hcode : ∀ code : ResultCode, Json.fieldNesting (some code.toJson) = 0 := fun _ => rfl
  have htexts : ∀ texts n, Json.fieldNesting (textsField texts) ≤ max 1 n := fun texts n =>
    Nat.le_trans (fieldNesting_textsField texts) (Nat.le_max_left 1 n)
  have helements : ∀ n, n ≤ max 1 n := Nat.le_max_right 1
  -- Every payload is a record, and each of its fields is one of the shapes above.
  cases payload <;> refine Json.nesting_record_le ?_ <;>
    simp only [sceneFields, scopeFields, elements, List.forall_mem_cons, List.cons_append,
      List.nil_append, htext, hint32, huint32, hdouble, hsome, hbool, hcode, htexts, helements,
      Nat.zero_le, true_and] <;>
    exact List.forall_mem_nil _

/-! ## Reading -/

/-- A payload of neither doubles nor elements. -/
theorem normal_of_plain {payload : Payload} (hdoubles : payload.doubles = [])
    (helements : payload.elements = []) : payload.Normal := by
  refine ⟨hdoubles ▸ List.forall_mem_nil _, ?_⟩
  have hnesting := nesting_toJson_le payload
  rw [helements] at hnesting
  exact Nat.lt_of_le_of_lt hnesting (by decide)

/-- A payload of a double that was read from a printable field. -/
theorem normal_of_value {payload : Payload} {field : Option Json} {value : Option Double}
    (hfield : ∀ json ∈ field, json.IsPrintable)
    (hvalue : Json.optional? Json.double? field = some value)
    (hdoubles : payload.doubles = value.toList) (helements : payload.elements = []) :
    payload.Normal := by
  refine ⟨?_, ?_⟩
  · intro d hd
    rw [hdoubles, Option.mem_toList] at hd
    exact Json.forall_mem_of_optional? hvalue
      (fun json hjson d => Json.isFinite_of_double? (hfield json hjson)) d hd
  · have hnesting := nesting_toJson_le payload
    rw [helements] at hnesting
    exact Nat.lt_of_le_of_lt hnesting (by decide)

/-- A payload of elements that were read from a printable field. -/
theorem normal_of_elements {payload : Payload} {field : Option Json}
    (hfield : ∀ json ∈ field, json.IsPrintable)
    (helements : elements? field = some payload.elements)
    (hdoubles : payload.doubles = Element.listDoubles payload.elements) : payload.Normal := by
  refine ⟨?_, ?_⟩
  · rw [hdoubles]
    cases field with
    | none =>
      rw [← Option.some.inj helements]
      exact List.forall_mem_nil _
    | some list => exact Element.isFinite_of_listOfJson? (hfield list rfl) helements
  · have hnesting := nesting_toJson_le payload
    -- The elements were read within the budget, and an empty list of them is not written at all.
    have hbudget : Json.fieldNesting (elementsField payload.elements) ≤ elementBudget := by
      rw [elementsField_eq_field]
      cases hlist : payload.elements with
      | nil => exact Nat.zero_le _
      | cons first rest =>
        rw [hlist] at helements
        cases field with
        | none => cases helements
        | some list => exact Element.nesting_le_of_listOfJson? helements
    have hroom : 1 + max 1 elementBudget < Json.maxNesting := by decide
    omega

theorem exists_of_target? {build : String → Payload} {json : Json} {payload : Payload}
    (h : target? build json = some payload) : ∃ dsuid, payload = build dsuid := by
  unfold target? at h
  split at h
  · obtain ⟨dsuid, -, rfl⟩ := Option.map_eq_some_iff.1 h
    exact ⟨dsuid, rfl⟩
  · cases h

theorem exists_of_optionalTarget? {build : Option String → Payload} {json : Json}
    {payload : Payload} (h : optionalTarget? build json = some payload) :
    ∃ dsuid, payload = build dsuid := by
  unfold optionalTarget? at h
  split at h
  · obtain ⟨dsuid, -, rfl⟩ := Option.map_eq_some_iff.1 h
    exact ⟨dsuid, rfl⟩
  · cases h

theorem exists_of_scene? {build : SceneNotice → Payload} {json : Json} {payload : Payload}
    (h : scene? build json = some payload) : ∃ notice, payload = build notice := by
  unfold scene? at h
  split at h
  · simp only [Option.bind_eq_bind, Option.bind_eq_some_iff, Option.pure_def,
      Option.some.injEq] at h
    obtain ⟨dsuids, -, scene, -, scope, -, rfl⟩ := h
    exact ⟨_, rfl⟩
  · cases h

theorem exists_of_elementsOf? {name : String} {build : Option String → List Element → Payload}
    {json : Json} {payload : Payload} (hjson : json.IsPrintable)
    (h : elementsOf? name build json = some payload) :
    ∃ dsuid elements field, payload = build dsuid elements ∧ elements? field = some elements ∧
      ∀ json ∈ field, json.IsPrintable := by
  unfold elementsOf? at h
  split at h
  · next dsuids lists hslots =>
    simp only [Option.bind_eq_bind, Option.bind_eq_some_iff, Option.pure_def,
      Option.some.injEq] at h
    obtain ⟨dsuid, -, elements, helements, rfl⟩ := h
    have hlists := Json.isPrintable_of_slots? hjson hslots lists (by simp)
    exact ⟨dsuid, elements, lists, rfl, helements, hlists⟩
  · cases h

/-- What is found for a field of a printable payload that must be an object is printable. -/
theorem isPrintable_of_objectSlots? {names : List String} {json : Json}
    {slots : List (Option Json)} (hjson : json.IsPrintable)
    (h : objectSlots? names json = some slots) :
    ∀ slot ∈ slots, ∀ field ∈ slot, field.IsPrintable := by
  cases json with
  | object entries => exact Json.isPrintable_of_entrySlots? hjson h
  | _ => cases h

/-- Every payload that is read from a printable text is normal. -/
theorem normal_of_ofJson? {kind : MessageKind} {json : Json} {payload : Payload}
    (hjson : json.IsPrintable) (h : ofJson? kind json = some payload) : payload.Normal := by
  cases kind with
  | responseHello | pong | announceContainer | vanish | identifyDevice =>
    obtain ⟨dsuid, rfl⟩ := exists_of_target? h
    exact normal_of_plain rfl rfl
  | ping | bye | remove =>
    obtain ⟨dsuid, rfl⟩ := exists_of_optionalTarget? h
    exact normal_of_plain rfl rfl
  | saveScene | undoScene | setLocalPriority | callMinScene =>
    obtain ⟨notice, rfl⟩ := exists_of_scene? h
    exact normal_of_plain rfl rfl
  | getProperty | setProperty =>
    obtain ⟨dsuid, elements, field, rfl, helements, hfield⟩ := exists_of_elementsOf? hjson h
    exact normal_of_elements hfield helements rfl
  | genericResponse | requestHello | announceDevice | identify =>
    simp only [ofJson?] at h
    split at h
    · simp only [Option.bind_eq_bind, Option.bind_eq_some_iff, Option.pure_def,
        Option.some.injEq] at h
      obtain ⟨_, -, _, -, rfl⟩ := h
      exact normal_of_plain rfl rfl
    · cases h
  | callScene =>
    simp only [ofJson?] at h
    split at h
    · simp only [Option.bind_eq_bind, Option.bind_eq_some_iff, Option.pure_def,
        Option.some.injEq] at h
      obtain ⟨dsuids, -, scene, -, scope, -, force, -, rfl⟩ := h
      exact normal_of_plain rfl rfl
    · cases h
  | setControlValue =>
    simp only [ofJson?] at h
    split at h
    · next values _ _ hslots =>
      simp only [Option.bind_eq_bind, Option.bind_eq_some_iff, Option.pure_def,
        Option.some.injEq] at h
      obtain ⟨dsuids, -, name, -, value, hvalue, scope, -, rfl⟩ := h
      have hvalues := isPrintable_of_objectSlots? hjson hslots values (by simp)
      exact normal_of_value hvalues hvalue rfl rfl
    · cases h
  | setChannelValue =>
    simp only [ofJson?] at h
    split at h
    · next values _ _ hslots =>
      simp only [Option.bind_eq_bind, Option.bind_eq_some_iff, Option.pure_def,
        Option.some.injEq] at h
      obtain ⟨dsuids, -, applyNow, -, channel, -, value, hvalue, scope, -, rfl⟩ := h
      have hvalues := isPrintable_of_objectSlots? hjson hslots values (by simp)
      exact normal_of_value hvalues hvalue rfl rfl
    · cases h
  | propertyResponse =>
    simp only [ofJson?] at h
    split at h
    · next lists hslots =>
      obtain ⟨elements, helements, rfl⟩ := Option.map_eq_some_iff.1 h
      have hlists := Json.isPrintable_of_slots? hjson hslots lists (by simp)
      exact normal_of_elements hlists helements rfl
    · cases h
  | pushProperty =>
    simp only [ofJson?] at h
    split at h
    · next lists hslots =>
      simp only [Option.bind_eq_bind, Option.bind_eq_some_iff, Option.pure_def,
        Option.some.injEq] at h
      obtain ⟨dsuid, -, elements, helements, rfl⟩ := h
      have hlists := Json.isPrintable_of_slots? hjson hslots lists (by simp)
      exact normal_of_elements hlists helements rfl
    · cases h

end Payload

namespace Message

/-- A message nests one deeper than its payload. -/
theorem nesting_toJson (m : Message) : m.toJson.nesting = 1 + m.payload.toJson.nesting := by
  have hid : Json.fieldNesting
      (if m.id = reservedId then none else some (Json.ofNat m.id.toNat)) = 0 := by
    by_cases h : m.id = reservedId
    · rw [if_pos h]
      rfl
    · rw [if_neg h]
      rfl
  have hpayload : Json.fieldNesting (some m.payload.toJson) = m.payload.toJson.nesting := rfl
  rw [toJson, Json.nesting_record_cons, Json.nesting_record_cons, Json.nesting_record_nil, hid,
    hpayload]
  omega

/-- A text that is decoded is an object with an id and a payload of some kind. -/
theorem exists_of_decode {bytes : List UInt8} {m : Message} (h : decode bytes = .ok m) :
    ∃ entries kind json, Json.read bytes = some (.object entries) ∧
      (Json.slot? entries "message_id").bind (Json.defaulted? reservedId Json.uint32?)
        = some m.id ∧
      payloadField? entries = some (kind, json) ∧ Payload.ofJson? kind json = some m.payload := by
  unfold decode at h
  split at h
  · next found hfound =>
    obtain rfl : found = m := Except.ok.inj h
    obtain ⟨json, hread, hmessage⟩ := Option.bind_eq_some_iff.1 hfound
    cases json with
    | object entries =>
      simp only [ofJson?, Option.bind_eq_bind, Option.bind_eq_some_iff, Option.pure_def,
        Option.some.injEq] at hmessage
      obtain ⟨slot, hslot, id, hid, ⟨kind, json⟩, hfield, payload, hpayload, rfl⟩ := hmessage
      exact ⟨entries, kind, json, hread, Option.bind_eq_some_iff.2 ⟨slot, hslot, hid⟩, hfield,
        hpayload⟩
    | _ => cases hmessage
  · cases h

/-- The payload of a message that was read is normal. -/
theorem normal_of_decode {bytes : List UInt8} {m : Message} (h : decode bytes = .ok m) :
    m.payload.Normal := by
  obtain ⟨entries, kind, json, hread, -, hfield, hpayload⟩ := exists_of_decode h
  obtain ⟨entry, hentry, hkind⟩ := List.exists_of_findSome?_eq_some hfield
  obtain ⟨found, -, heq⟩ := Option.map_eq_some_iff.1 hkind
  obtain rfl : entry.2 = json := congrArg Prod.snd heq
  have hentries := Json.entriesPrintable_iff.1 (Json.isPrintable_of_read hread)
  exact Payload.normal_of_ofJson? (hentries entry hentry) hpayload

/-- Whatever text a message was read from, the message can be written, and what is written reads as
the same message and is written as it is again. -/
theorem normal_form_of_decode {bytes : List UInt8} {m : Message} (h : decode bytes = .ok m) :
    ∃ text, m.encode = .ok text ∧ decode text = .ok m ∧ (decode text).bind encode = .ok text := by
  have hnormal := normal_of_decode h
  have hencode := encode_eq_ok hnormal.isFinite
  have hnesting : m.toJson.nesting ≤ Json.maxNesting := by
    have hlt := hnormal.nesting_lt
    rw [nesting_toJson]
    omega
  have hdecode : decode m.toJson.render = .ok m := by
    rw [decode_render hnormal.isFinite, if_pos hnesting]
  refine ⟨m.toJson.render, hencode, hdecode, ?_⟩
  rw [hdecode]
  exact hencode

/-- A payload and an element as arrays, an escape, an integer for a double and an unknown key. -/
theorem normal_form_of_decode_loose :
    let bytes := Utf8.encode ("\x7b \"note\": [\x7b\x7d], \"message_id\": 7, " ++
      "\"vdsm_request_set_property\": [\"A\", " ++
        "[[\"\\u0061\", \x7b\"v_double\": 3\x7d, []]]] \x7d")
    let m : Message := ⟨7, .setProperty (some "A") [⟨some "a", some (.double (.ofInt 3)), []⟩]⟩
    decode bytes = .ok m ∧
      ∃ text, m.encode = .ok text ∧ decode text = .ok m ∧ (decode text).bind encode = .ok text := by
  intro bytes m
  have hread : (Json.read bytes).bind ofJson? = some m := by decide +kernel
  have hdecode : decode bytes = .ok m := by rw [decode, hread]
  exact ⟨hdecode, normal_form_of_decode hdecode⟩

end Message

end Vdc
