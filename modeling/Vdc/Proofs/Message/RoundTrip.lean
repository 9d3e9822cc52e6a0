import Vdc.Message.Codec
import Vdc.Proofs.Json.RoundTrip
import Vdc.Proofs.Property.Element

/-!
# Messages read back

`Message.encode_decode` tells which messages go over the wire: all whose doubles are finite have a
text, and those whose text nests at most `Json.maxNesting` deep are what is read from it. A payload
takes one level of a message, and its elements stand one further down.
-/

namespace Vdc

namespace Payload

/-! ## Doubles -/

/-- The doubles in a payload, at any depth. -/
def doubles : Payload → List Double
  | .setControlValue notice => notice.value.toList
  | .setChannelValue notice => notice.value.toList
  | .getProperty _ elements | .propertyResponse elements | .setProperty _ elements
  | .pushProperty _ elements => Element.listDoubles elements
  | _ => []

theorem elementsField_eq_field (elements : List Element) :
    elementsField elements = Element.field elements := by
  rw [elementsField, Json.unlessEmpty, Element.field, Element.listToJson_eq_map]

theorem fieldCarries_elementsField (elements : List Element) :
    Json.FieldCarries (elementsField elements) (Element.listDoubles elements) := by
  rw [elementsField_eq_field]
  exact Element.fieldCarries_field (Element.carries_listToJson elements)

theorem fieldCarries_textsField (texts : List String) :
    Json.FieldCarries (textsField texts) [] := by
  cases texts with
  | nil => rfl
  | cons first rest => exact Json.carries_array_map_nil Json.carries_text (first :: rest)

theorem fieldCarries_text (s : Option String) : Json.FieldCarries (s.map .text) [] :=
  Json.fieldCarries_map_nil Json.carries_text s

theorem fieldCarries_int32Field (n : Option Int32) : Json.FieldCarries (int32Field n) [] := by
  refine Json.fieldCarries_map_nil (fun n => Json.carries_ofInt ?_ ?_) n
  · have hlow := n.le_toInt
    omega
  · have hhigh := n.toInt_lt
    omega

theorem fieldCarries_uint32 (n : Option UInt32) :
    Json.FieldCarries (n.map fun n => Json.ofNat n.toNat) [] := by
  refine Json.fieldCarries_map_nil (fun n => Json.carries_ofNat ?_) n
  have hn := n.toNat_lt
  omega

theorem fieldCarries_double (value : Option Double) :
    Json.FieldCarries (value.map Json.ofDouble) value.toList := by
  cases value with
  | none => rfl
  | some d => exact Json.carries_ofDouble d

theorem carries_scopeFields (scope : Scope) : (Json.record (scopeFields scope)).Carries [] :=
  Json.carries_record_cons_of_nil (fieldCarries_int32Field scope.group)
    (Json.carries_record_singleton (fieldCarries_int32Field scope.zone))

theorem carries_valueFields (value : Option Double) (scope : Scope) :
    (Json.record (("value", value.map Json.ofDouble) :: scopeFields scope)).Carries
      value.toList := by
  rw [← List.append_nil value.toList]
  exact Json.carries_record_cons (fieldCarries_double value) (carries_scopeFields scope)

theorem carries_sceneJson (notice : SceneNotice) : (sceneJson notice).Carries [] :=
  Json.carries_record_cons_of_nil (fieldCarries_textsField notice.dsuids)
    (Json.carries_record_cons_of_nil (fieldCarries_int32Field notice.scene)
      (carries_scopeFields notice.scope))

theorem carries_toJson (payload : Payload) : payload.toJson.Carries payload.doubles := by
  cases payload with
  | genericResponse code description =>
    exact Json.carries_record_cons_of_nil (Json.carries_text code.name)
      (Json.carries_record_singleton (fieldCarries_text description))
  | requestHello hello =>
    exact Json.carries_record_cons_of_nil (fieldCarries_text hello.dsuid)
      (Json.carries_record_singleton (fieldCarries_uint32 hello.apiVersion))
  | responseHello dsuid | pong dsuid | announceContainer dsuid | vanish dsuid
  | identifyDevice dsuid =>
    exact Json.carries_record_singleton (Json.carries_text dsuid)
  | ping dsuid | bye dsuid | remove dsuid =>
    exact Json.carries_record_singleton (fieldCarries_text dsuid)
  | announceDevice dsuid container =>
    exact Json.carries_record_cons_of_nil (Json.carries_text dsuid)
      (Json.carries_record_singleton (Json.carries_text container))
  | callScene notice force =>
    exact Json.carries_record_cons_of_nil (fieldCarries_textsField notice.dsuids)
      (Json.carries_record_cons_of_nil (fieldCarries_int32Field notice.scene)
        (Json.carries_record_cons_of_nil (Json.carries_boolean force)
          (carries_scopeFields notice.scope)))
  | saveScene notice | undoScene notice | setLocalPriority notice | callMinScene notice =>
    exact carries_sceneJson notice
  | identify dsuids scope =>
    exact Json.carries_record_cons_of_nil (fieldCarries_textsField dsuids)
      (carries_scopeFields scope)
  | setControlValue notice =>
    exact Json.carries_record_cons_of_nil (fieldCarries_textsField notice.dsuids)
      (Json.carries_record_cons_of_nil (fieldCarries_text notice.name)
        (carries_valueFields notice.value notice.scope))
  | setChannelValue notice =>
    exact Json.carries_record_cons_of_nil (fieldCarries_textsField notice.dsuids)
      (Json.carries_record_cons_of_nil (Json.carries_boolean notice.applyNow)
        (Json.carries_record_cons_of_nil (fieldCarries_int32Field notice.channel)
          (carries_valueFields notice.value notice.scope)))
  | getProperty dsuid elements | setProperty dsuid elements =>
    exact Json.carries_record_cons_of_nil (fieldCarries_text dsuid)
      (Json.carries_record_singleton (fieldCarries_elementsField elements))
  | propertyResponse elements =>
    exact Json.carries_record_singleton (fieldCarries_elementsField elements)
  | pushProperty dsuid elements =>
    exact Json.carries_record_cons_of_nil (Json.carries_text dsuid)
      (Json.carries_record_singleton (fieldCarries_elementsField elements))

/-! ## Reading -/

theorem texts?_textsField (texts : List String) : texts? (textsField texts) = some texts :=
  Json.defaulted?_unlessEmpty fun _ _ => rfl

theorem optional?_text (s : Option String) : Json.optional? Json.text? (s.map .text) = some s :=
  Json.optional?_map (fun _ _ => rfl) rfl

theorem optional?_int32Field (n : Option Int32) :
    Json.optional? Json.int32? (int32Field n) = some n :=
  Json.optional?_map (fun n _ => Json.int32?_ofInt n) rfl

theorem optional?_uint32 (n : Option UInt32) :
    Json.optional? Json.uint32? (n.map fun n => Json.ofNat n.toNat) = some n :=
  Json.optional?_map (fun n _ => Json.uint32?_ofNat n) rfl

theorem optional?_double (value : Option Double) :
    Json.optional? Json.double? (value.map Json.ofDouble) = some value :=
  Json.optional?_map (fun _ _ => rfl) rfl

theorem scope?_scopeFields (scope : Scope) :
    scope? (int32Field scope.group) (int32Field scope.zone) = some scope := by
  rw [scope?, optional?_int32Field, optional?_int32Field]
  rfl

theorem required?_code (code : ResultCode) :
    Json.required? ResultCode.ofJson? (some code.toJson) = some code :=
  ResultCode.ofName?_name code

/-- The elements of a payload are read back if the budget of a payload allows for them. -/
theorem elements?_elementsField {elements : List Element}
    (h : Json.fieldNesting (elementsField elements) ≤ elementBudget) :
    elements? (elementsField elements) = some elements := by
  rw [elementsField_eq_field] at h ⊢
  cases elements with
  | nil => rfl
  | cons first rest =>
    refine Element.mapM_listToJson ?_
    change 1 + Json.nestingItems (Element.listToJson (first :: rest)) ≤ elementBudget at h
    change _ ≤ elementBudget - 1
    omega

theorem objectSlots?_of_names {names : List String} {fields : List (String × Option Json)}
    (hnames : fields.map (·.1) = names) (hnodup : names.Nodup) :
    objectSlots? names (Json.record fields) = some (fields.map (·.2)) :=
  Json.slots?_of_names hnames hnodup

theorem target?_record (build : String → Payload) (dsuid : String) :
    target? build (Json.record [("dsuid", some (.text dsuid))]) = some (build dsuid) := by
  rw [target?, Json.slots?_of_names (by rfl) (by decide)]
  rfl

theorem optionalTarget?_record (build : Option String → Payload) (dsuid : Option String) :
    optionalTarget? build (Json.record [("dsuid", dsuid.map .text)]) = some (build dsuid) := by
  rw [optionalTarget?, Json.slots?_of_names (by rfl) (by decide)]
  simp [optional?_text]

theorem elementsOf?_record {field : String} (build : Option String → List Element → Payload)
    (dsuid : Option String) {elements : List Element} (hfield : "dsuid" ≠ field)
    (h : Json.fieldNesting (elementsField elements) ≤ elementBudget) :
    elementsOf? field build (Json.record
      [("dsuid", dsuid.map .text), (field, elementsField elements)]) =
        some (build dsuid elements) := by
  rw [elementsOf?, Json.slots?_of_names (by rfl) (by simpa using hfield)]
  simp [optional?_text, elements?_elementsField h]

theorem scene?_sceneJson (build : SceneNotice → Payload) (notice : SceneNotice) :
    scene? build (sceneJson notice) = some (build notice) := by
  rw [scene?, sceneJson, objectSlots?_of_names (by rfl) (by decide)]
  simp [sceneFields, scopeFields, texts?_textsField, optional?_int32Field, scope?_scopeFields]

/-- A payload is read back as its kind if it leaves its message a level. -/
theorem ofJson?_toJson {payload : Payload} (h : payload.toJson.nesting < Json.maxNesting) :
    ofJson? payload.kind payload.toJson = some payload := by
  -- Only elements nest at all, and they stand one level below their payload.
  have hbudget : ∀ {field : Option Json}, 1 + Json.fieldNesting field < Json.maxNesting →
      Json.fieldNesting field ≤ elementBudget := by
    intro field hfield
    change _ ≤ Json.maxNesting - 2
    omega
  cases payload with
  | genericResponse code description =>
    rw [kind, ofJson?, toJson, Json.slots?_of_names (by rfl) (by decide)]
    simp [required?_code, optional?_text]
  | requestHello hello =>
    rw [kind, ofJson?, toJson, Json.slots?_of_names (by rfl) (by decide)]
    simp [optional?_text, optional?_uint32]
  | responseHello dsuid | pong dsuid | announceContainer dsuid | vanish dsuid
  | identifyDevice dsuid =>
    exact target?_record _ dsuid
  | ping dsuid | bye dsuid | remove dsuid => exact optionalTarget?_record _ dsuid
  | announceDevice dsuid container =>
    rw [kind, ofJson?, toJson, Json.slots?_of_names (by rfl) (by decide)]
    rfl
  | callScene notice force =>
    rw [kind, ofJson?, toJson, objectSlots?_of_names (by rfl) (by decide)]
    simp [sceneFields, scopeFields, texts?_textsField, optional?_int32Field, scope?_scopeFields,
      Json.defaulted?, Json.boolean?]
  | saveScene notice | undoScene notice | setLocalPriority notice | callMinScene notice =>
    exact scene?_sceneJson _ notice
  | identify dsuids scope =>
    rw [kind, ofJson?, toJson, objectSlots?_of_names (by rfl) (by decide)]
    simp [scopeFields, texts?_textsField, scope?_scopeFields]
  | setControlValue notice =>
    rw [kind, ofJson?, toJson, objectSlots?_of_names (by rfl) (by decide)]
    simp [scopeFields, texts?_textsField, optional?_text, optional?_double, scope?_scopeFields]
  | setChannelValue notice =>
    rw [kind, ofJson?, toJson, objectSlots?_of_names (by rfl) (by decide)]
    simp [scopeFields, texts?_textsField, optional?_int32Field, optional?_double,
      scope?_scopeFields, Json.defaulted?, Json.boolean?]
  | getProperty dsuid elements | setProperty dsuid elements =>
    rw [toJson, Json.nesting_record_cons, Json.nesting_record_cons] at h
    exact elementsOf?_record _ dsuid (by decide) (hbudget (by omega))
  | propertyResponse elements =>
    rw [toJson, Json.nesting_record_cons] at h
    have helements : Json.fieldNesting (elementsField elements) ≤ elementBudget :=
      hbudget (by omega)
    rw [kind, ofJson?, toJson, Json.slots?_of_names (by rfl) (by decide)]
    simp [elements?_elementsField helements]
  | pushProperty dsuid elements =>
    rw [toJson, Json.nesting_record_cons, Json.nesting_record_cons] at h
    have helements : Json.fieldNesting (elementsField elements) ≤ elementBudget :=
      hbudget (by omega)
    rw [kind, ofJson?, toJson, Json.slots?_of_names (by rfl) (by decide)]
    simp [elements?_elementsField helements, Json.required?, Json.text?]

end Payload

namespace Message

/-- The doubles in a message, at any depth. -/
def doubles (m : Message) : List Double := m.payload.doubles

theorem carries_toJson (m : Message) : m.toJson.Carries m.doubles := by
  have hid : Json.FieldCarries
      (if m.id = reservedId then none else some (Json.ofNat m.id.toNat)) [] := by
    by_cases h : m.id = reservedId
    · rw [if_pos h]
      rfl
    · rw [if_neg h]
      have hlt := m.id.toNat_lt
      exact Json.carries_ofNat (by omega)
  exact Json.carries_record_cons_of_nil hid
    (Json.carries_record_singleton m.payload.carries_toJson)

/-- No kind of payload is named as the id is. -/
theorem kind_name_ne (kind : MessageKind) : "message_id" ≠ kind.name := by
  cases kind <;> decide

/-- What a message is written to, field by field. -/
def fields (m : Message) : List (String × Option Json) :=
  [("message_id", if m.id = reservedId then none else some (Json.ofNat m.id.toNat)),
    (m.payload.kind.name, some m.payload.toJson)]

/-- The entries of a written message. -/
def entries (m : Message) : List (String × Json) :=
  m.fields.filterMap fun field => field.2.map (field.1, ·)

theorem slot?_entries (m : Message) : Json.slot? m.entries "message_id" =
    some (if m.id = reservedId then none else some (Json.ofNat m.id.toNat)) := by
  have hnodup : (m.fields.map (·.1)).Nodup := by
    simpa [fields] using kind_name_ne m.payload.kind
  exact Json.slot?_present hnodup List.mem_cons_self

theorem defaulted?_id (id : RequestId) : Json.defaulted? reservedId Json.uint32?
    (if id = reservedId then none else some (Json.ofNat id.toNat)) = some id := by
  by_cases h : id = reservedId
  · rw [if_pos h, h]
    rfl
  · rw [if_neg h, Json.defaulted?, Json.uint32?_ofNat]

theorem payloadField?_entries (m : Message) :
    payloadField? m.entries = some (m.payload.kind, m.payload.toJson) := by
  have hname : MessageKind.ofName? "message_id" = none := by decide
  by_cases h : m.id = reservedId
  · simp [entries, fields, payloadField?, h]
  · simp [entries, fields, payloadField?, h, hname]

/-- A message that nests no deeper than texts that are read is read back. -/
theorem ofJson?_toJson {m : Message} (h : m.toJson.nesting ≤ Json.maxNesting) :
    ofJson? m.toJson = some m := by
  have hpayload : Payload.ofJson? m.payload.kind m.payload.toJson = some m.payload := by
    refine Payload.ofJson?_toJson ?_
    rw [toJson, Json.nesting_record_cons, Json.nesting_record_cons] at h
    simp only [Json.fieldNesting, Option.map_some, Option.getD_some] at h
    omega
  change ofJson? (.object m.entries) = some m
  rw [ofJson?, slot?_entries]
  simp only [Option.bind_eq_bind, Option.bind_some, defaulted?_id, payloadField?_entries, hpayload]
  rfl

theorem encode_eq_ok {m : Message} (h : ∀ d ∈ m.doubles, d.isFinite = true) :
    m.encode = .ok m.toJson.render := by
  rw [encode, m.carries_toJson.firstNonFinite?_eq_none_iff.2 h]

/-- A message with a double that is not finite has no text, and the first such double says why. -/
theorem encode_eq_error {m : Message} (h : ¬ ∀ d ∈ m.doubles, d.isFinite = true) :
    ∃ d ∈ m.doubles, d.isFinite = false ∧ m.encode = .error (.parameter (.nonFinite d)) := by
  have hsome : m.doubles.find? (!·.isFinite) ≠ none := by
    rw [Ne, List.find?_eq_none]
    intro hall
    exact h fun d hd => by simpa using hall d hd
  obtain ⟨d, hfind⟩ := Option.ne_none_iff_exists'.1 hsome
  refine ⟨d, List.mem_of_find?_eq_some hfind, by simpa using List.find?_some hfind, ?_⟩
  rw [encode, m.carries_toJson.firstNonFinite?, hfind]

theorem isFinite_of_encode {m : Message} {bytes : List UInt8} (h : m.encode = .ok bytes) :
    ∀ d ∈ m.doubles, d.isFinite = true := by
  refine Decidable.byContradiction fun hnot => ?_
  obtain ⟨d, -, -, herror⟩ := encode_eq_error hnot
  rw [h] at herror
  cases herror

theorem decode_render {m : Message} (h : ∀ d ∈ m.doubles, d.isFinite = true) :
    decode m.toJson.render =
      if m.toJson.nesting ≤ Json.maxNesting then .ok m else .error (.protocol .malformed) := by
  rw [decode, Json.read_render (m.carries_toJson.isPrintable h)]
  by_cases hnesting : m.toJson.nesting ≤ Json.maxNesting
  · rw [if_pos hnesting, if_pos hnesting, Option.bind_some, ofJson?_toJson hnesting]
  · rw [if_neg hnesting, if_neg hnesting, Option.bind_none]

/-- A message that nests within the limit is read back from its text. -/
theorem decode_of_encode {m : Message} {bytes : List UInt8} (hencode : m.encode = .ok bytes)
    (hnesting : m.toJson.nesting ≤ Json.maxNesting) : decode bytes = .ok m := by
  have hfinite := isFinite_of_encode hencode
  obtain rfl := Except.ok.inj ((encode_eq_ok hfinite).symm.trans hencode)
  rw [decode_render hfinite, if_pos hnesting]

/-- A message has a text if and only if all its doubles are finite, and is read back from it if and
only if the text nests at most `Json.maxNesting` arrays and objects. In every other case the error
tells which of the two it was. -/
theorem encode_decode (m : Message) :
    ((∃ bytes, m.encode = .ok bytes) ↔ ∀ d ∈ m.doubles, d.isFinite = true) ∧
    ((¬ ∀ d ∈ m.doubles, d.isFinite = true) →
      ∃ d ∈ m.doubles, d.isFinite = false ∧ m.encode = .error (.parameter (.nonFinite d))) ∧
    ∀ bytes, m.encode = .ok bytes → ∃ depth, Json.textNesting bytes = some depth ∧
      (decode bytes = .ok m ↔ depth ≤ Json.maxNesting) ∧
      (Json.maxNesting < depth → decode bytes = .error (.protocol .malformed)) := by
  have hfinite : ∀ {bytes}, m.encode = .ok bytes → ∀ d ∈ m.doubles, d.isFinite = true := by
    intro bytes hbytes
    refine Decidable.byContradiction fun h => ?_
    obtain ⟨d, -, -, herror⟩ := encode_eq_error h
    rw [hbytes] at herror
    cases herror
  refine ⟨⟨fun ⟨_, hbytes⟩ => hfinite hbytes, fun h => ⟨_, encode_eq_ok h⟩⟩, encode_eq_error, ?_⟩
  intro bytes hbytes
  have h := hfinite hbytes
  obtain rfl : m.toJson.render = bytes := Except.ok.inj ((encode_eq_ok h).symm.trans hbytes)
  refine ⟨m.toJson.nesting, Json.textNesting_render (m.carries_toJson.isPrintable h), ?_, ?_⟩
  · rw [decode_render h]
    by_cases hnesting : m.toJson.nesting ≤ Json.maxNesting
    · simp [hnesting]
    · simp [hnesting]
  · intro hdeep
    rw [decode_render h, if_neg (by omega)]

end Message

end Vdc
