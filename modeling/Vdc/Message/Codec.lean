import Vdc.Json.Parser
import Vdc.Json.Printer
import Vdc.Message.Basic

/-!
# The wire form of messages

A message is one JSON object: its id, left out when reserved, and one entry whose key is the kind
of its payload. Reading takes the first entry whose key is a kind and looks past all others.

Payloads are records. Those of the notifications that carry a scope have its two fields among their
own and must be objects; the other payloads may be arrays of their fields as well.

`Message.encode` and `Message.decode` are meant to be inverse to each other up to what the wire
leaves open: a message with a number that is not finite has no wire form, and one that nests deeper
than `Json.maxNesting` has one that is not read back.
-/

namespace Vdc

namespace Payload

/-- How deep a list of elements in a payload may be nested: the message and its payload take two
levels. -/
def elementBudget : Nat := Json.maxNesting - 2

/-! ## Writing -/

/-- A list of strings, left out when empty. -/
def textsField (texts : List String) : Option Json :=
  Json.unlessEmpty .text texts

/-- A list of elements, left out when empty. -/
def elementsField (elements : List Element) : Option Json :=
  Json.unlessEmpty Element.toJson elements

/-- An integer, left out when absent. -/
def int32Field (n : Option Int32) : Option Json :=
  Json.optional (fun n => Json.ofInt n.toInt) n

/-- The fields of a scope. -/
def scopeFields (scope : Scope) : List (String × Option Json) :=
  [("group", int32Field scope.group), ("zone_id", int32Field scope.zone)]

/-- The fields of a scene notification that stand before its flag and its scope. -/
def sceneFields (notice : SceneNotice) : List (String × Option Json) :=
  [("dsuid", textsField notice.dsuids), ("scene", int32Field notice.scene)]

/-- The record of a scene notification without a flag. -/
def sceneJson (notice : SceneNotice) : Json :=
  Json.record (sceneFields notice ++ scopeFields notice.scope)

/-- The wire form of a payload. -/
def toJson : Payload → Json
  | .genericResponse code description =>
    Json.record [("code", some code.toJson), ("description", description.map .text)]
  | .requestHello hello =>
    Json.record [
      ("dsuid", hello.dsuid.map .text),
      ("api_version", hello.apiVersion.map fun n => Json.ofNat n.toNat)]
  | .responseHello dsuid | .pong dsuid | .announceContainer dsuid | .vanish dsuid
  | .identifyDevice dsuid => Json.record [("dsuid", some (.text dsuid))]
  | .ping dsuid | .bye dsuid | .remove dsuid => Json.record [("dsuid", dsuid.map .text)]
  | .announceDevice dsuid container =>
    Json.record [("dsuid", some (.text dsuid)), ("vdc_dsuid", some (.text container))]
  | .callScene notice force =>
    Json.record (sceneFields notice ++ [("force", some (.boolean force))]
      ++ scopeFields notice.scope)
  | .saveScene notice | .undoScene notice | .setLocalPriority notice | .callMinScene notice =>
    sceneJson notice
  | .identify dsuids scope => Json.record ([("dsuid", textsField dsuids)] ++ scopeFields scope)
  | .setControlValue notice =>
    Json.record ([
      ("dsuid", textsField notice.dsuids),
      ("name", notice.name.map .text),
      ("value", notice.value.map Json.ofDouble)] ++ scopeFields notice.scope)
  | .setChannelValue notice =>
    Json.record ([
      ("dsuid", textsField notice.dsuids),
      ("apply_now", some (.boolean notice.applyNow)),
      ("channel", int32Field notice.channel),
      ("value", notice.value.map Json.ofDouble)] ++ scopeFields notice.scope)
  | .getProperty dsuid query =>
    Json.record [("dsuid", dsuid.map .text), ("query", elementsField query)]
  | .propertyResponse properties => Json.record [("properties", elementsField properties)]
  | .setProperty dsuid properties =>
    Json.record [("dsuid", dsuid.map .text), ("properties", elementsField properties)]
  | .pushProperty dsuid properties =>
    Json.record [("dsuid", some (.text dsuid)), ("properties", elementsField properties)]

/-! ## Reading -/

/-- A list of strings that may be missing. -/
def texts? (field : Option Json) : Option (List String) :=
  Json.defaulted? [] (Json.list? Json.text?) field

/-- A list of elements that may be missing. -/
def elements? (field : Option Json) : Option (List Element) :=
  Json.defaulted? [] (Element.listOfJson? elementBudget) field

/-- A payload whose one field is a dSUID. -/
def target? (build : String → Payload) (json : Json) : Option Payload :=
  match json.slots? ["dsuid"] with
  | some [dsuid] => (Json.required? Json.text? dsuid).map build
  | _ => none

/-- A payload whose one field is a dSUID that may be absent. -/
def optionalTarget? (build : Option String → Payload) (json : Json) : Option Payload :=
  match json.slots? ["dsuid"] with
  | some [dsuid] => (Json.optional? Json.text? dsuid).map build
  | _ => none

/-- A payload of an optional dSUID and a list of elements. -/
def elementsOf? (field : String) (build : Option String → List Element → Payload) (json : Json) :
    Option Payload :=
  match json.slots? ["dsuid", field] with
  | some [dsuid, elements] => do
    return build (← Json.optional? Json.text? dsuid) (← elements? elements)
  | _ => none

/-- What stands for these fields in an object. -/
def objectSlots? (names : List String) : Json → Option (List (Option Json))
  | .object entries => Json.entrySlots? names entries
  | _ => none

/-- A scope from its two fields. -/
def scope? (group zone : Option Json) : Option Scope := do
  return ⟨← Json.optional? Json.int32? group, ← Json.optional? Json.int32? zone⟩

/-- A scene notification without a flag. -/
def scene? (build : SceneNotice → Payload) (json : Json) : Option Payload :=
  match objectSlots? ["dsuid", "scene", "group", "zone_id"] json with
  | some [dsuids, scene, group, zone] => do
    return build ⟨← texts? dsuids, ← Json.optional? Json.int32? scene, ← scope? group zone⟩
  | _ => none

/-- Reads the payload of a kind. -/
def ofJson? (kind : MessageKind) (json : Json) : Option Payload :=
  match kind with
  | .genericResponse =>
    match json.slots? ["code", "description"] with
    | some [code, description] => do
      return .genericResponse (← Json.required? ResultCode.ofJson? code)
        (← Json.optional? Json.text? description)
    | _ => none
  | .requestHello =>
    match json.slots? ["dsuid", "api_version"] with
    | some [dsuid, version] => do
      return .requestHello
        ⟨← Json.optional? Json.text? dsuid, ← Json.optional? Json.uint32? version⟩
    | _ => none
  | .responseHello => target? .responseHello json
  | .ping => optionalTarget? .ping json
  | .pong => target? .pong json
  | .bye => optionalTarget? .bye json
  | .remove => optionalTarget? .remove json
  | .announceContainer => target? .announceContainer json
  | .announceDevice =>
    match json.slots? ["dsuid", "vdc_dsuid"] with
    | some [dsuid, container] => do
      return .announceDevice (← Json.required? Json.text? dsuid)
        (← Json.required? Json.text? container)
    | _ => none
  | .vanish => target? .vanish json
  | .identifyDevice => target? .identifyDevice json
  | .callScene =>
    match objectSlots? ["dsuid", "scene", "force", "group", "zone_id"] json with
    | some [dsuids, scene, force, group, zone] => do
      return .callScene
        ⟨← texts? dsuids, ← Json.optional? Json.int32? scene, ← scope? group zone⟩
        (← Json.defaulted? false Json.boolean? force)
    | _ => none
  | .saveScene => scene? .saveScene json
  | .undoScene => scene? .undoScene json
  | .setLocalPriority => scene? .setLocalPriority json
  | .callMinScene => scene? .callMinScene json
  | .identify =>
    match objectSlots? ["dsuid", "group", "zone_id"] json with
    | some [dsuids, group, zone] => do
      return .identify (← texts? dsuids) (← scope? group zone)
    | _ => none
  | .setControlValue =>
    match objectSlots? ["dsuid", "name", "value", "group", "zone_id"] json with
    | some [dsuids, name, value, group, zone] => do
      return .setControlValue ⟨← texts? dsuids, ← Json.optional? Json.text? name,
        ← Json.optional? Json.double? value, ← scope? group zone⟩
    | _ => none
  | .setChannelValue =>
    match objectSlots? ["dsuid", "apply_now", "channel", "value", "group", "zone_id"] json with
    | some [dsuids, applyNow, channel, value, group, zone] => do
      return .setChannelValue ⟨← texts? dsuids, ← Json.defaulted? false Json.boolean? applyNow,
        ← Json.optional? Json.int32? channel, ← Json.optional? Json.double? value,
        ← scope? group zone⟩
    | _ => none
  | .getProperty => elementsOf? "query" .getProperty json
  | .propertyResponse =>
    match json.slots? ["properties"] with
    | some [properties] => (elements? properties).map .propertyResponse
    | _ => none
  | .setProperty => elementsOf? "properties" .setProperty json
  | .pushProperty =>
    match json.slots? ["dsuid", "properties"] with
    | some [dsuid, properties] => do
      return .pushProperty (← Json.required? Json.text? dsuid) (← elements? properties)
    | _ => none

end Payload

namespace Message

/-- The wire form of a message as a JSON value. -/
def toJson (m : Message) : Json :=
  Json.record [
    ("message_id", if m.id = reservedId then none else some (Json.ofNat m.id.toNat)),
    (m.payload.kind.name, some m.payload.toJson)]

/-- The wire form of a message; a number that is not finite has none. -/
def encode (m : Message) : Except Error (List UInt8) :=
  match m.toJson.firstNonFinite? with
  | some d => .error (.parameter (.nonFinite d))
  | none => .ok m.toJson.render

/-- The first entry whose key is a kind of message. -/
def payloadField? (entries : List (String × Json)) : Option (MessageKind × Json) :=
  entries.findSome? fun entry => (MessageKind.ofName? entry.1).map (·, entry.2)

/-- Reads a message from a JSON value. -/
def ofJson? : Json → Option Message
  | .object entries => do
    let id ← Json.slot? entries "message_id"
    let id ← Json.defaulted? reservedId Json.uint32? id
    let (kind, json) ← payloadField? entries
    let payload ← Payload.ofJson? kind json
    return ⟨id, payload⟩
  | _ => none

/-- Reads a message from its wire form. -/
def decode (bytes : List UInt8) : Except Error Message :=
  match (Json.read bytes).bind ofJson? with
  | some m => .ok m
  | none => .error (.protocol .malformed)

/-- The id that a text would have as a message, also if it is none: the value under the last key
`message_id`. -/
def peekId? (bytes : List UInt8) : Option RequestId :=
  match Json.read bytes with
  | some (.object entries) =>
    (entries.findRev? (·.1 == "message_id")).bind fun entry => Json.uint32? entry.2
  | _ => none

end Message

end Vdc
