import Vdc.Message.Codec
import Vdc.Session.Application

/-!
# Directives

What the payload of a frame asks an endpoint to do depends on three things only: the payload, the
state of the session and the endpoint's own name. `Directive.ofPayload` is that function; carrying
out a directive is left to the session.

A message that lacks a field it needs, or is not for an endpoint to receive, is answered with an
error when it has an id and ignored when it has none.
-/

namespace Vdc

/-- What to do about a payload. -/
inductive Directive where
  | ignore
  /-- Answer a request with an error. -/
  | refuse (id : RequestId) (code : ResultCode)
  /-- Open a session, if the handshake is acceptable. -/
  | greet (id : RequestId) (hello : Hello)
  /-- End the session; the message may name whom it is from. -/
  | part (dsuid : Option String)
  /-- Answer a ping for the endpoint itself. -/
  | pong (dsuid : String)
  /-- Ask whether a device may be removed. -/
  | remove (id : RequestId) (dsuid : String)
  /-- Hand a reply to the request it answers. -/
  | complete (id : RequestId) (code : ResultCode)
  /-- Call the application back. -/
  | deliver (callback : Callback)
deriving Repr

namespace Directive

/-- Refuses a request; a message without an id is ignored instead. -/
def refusal (id : RequestId) (code : ResultCode) : Directive :=
  if id = reservedId then .ignore else .refuse id code

/-- What to do about a message without a field it needs. -/
def lacking (id : RequestId) : Directive :=
  refusal id .missingData

/-- A callback about a scene of some devices. -/
def ofScene (id : RequestId) (notice : SceneNotice)
    (callback : List String → Int32 → Scope → Callback) : Directive :=
  match notice.dsuids, notice.scene with
  | [], _ | _, none => lacking id
  | dsuid :: dsuids, some scene => .deliver (callback (dsuid :: dsuids) scene notice.scope)

/-- A callback about the properties of a device; the tree for the answer carries the id. -/
def ofPropertyRequest (id : RequestId) (dsuid : Option String) (elements : List Element)
    (callback : String → Property → Property → Callback) : Directive :=
  if id = reservedId then .ignore
  else
    match dsuid with
    | none => lacking id
    | some dsuid =>
      match Property.ofElements? elements with
      | .ok tree => .deliver (callback dsuid tree (.forRequest id))
      | .error _ => .refuse id .invalidValueType

/-- What a message asks for that has got through, at the endpoint named `own`. -/
def ofMessage (own : String) (m : Message) : Directive :=
  match m.payload with
  | .requestHello hello => .greet m.id hello
  | .bye dsuid => .part dsuid
  | .ping none => lacking m.id
  | .ping (some dsuid) => if dsuid = own then .pong dsuid else .deliver (.ping dsuid)
  | .remove none => lacking m.id
  | .remove (some dsuid) => .remove m.id dsuid
  | .genericResponse code _ => if m.id = reservedId then .ignore else .complete m.id code
  | .callScene notice force =>
    ofScene m.id notice fun dsuids scene scope => .callScene dsuids scene force scope
  | .saveScene notice => ofScene m.id notice .saveScene
  | .undoScene notice => ofScene m.id notice .undoScene
  | .setLocalPriority notice => ofScene m.id notice .setLocalPriority
  | .callMinScene notice => ofScene m.id notice .callMinScene
  | .identify [] _ => lacking m.id
  | .identify (dsuid :: dsuids) scope => .deliver (.identify (dsuid :: dsuids) scope)
  | .setControlValue ⟨dsuid :: dsuids, some name, some value, scope⟩ =>
    .deliver (.setControlValue (dsuid :: dsuids) name value scope)
  | .setControlValue _ => lacking m.id
  | .setChannelValue ⟨dsuid :: dsuids, applyNow, some channel, some value, scope⟩ =>
    .deliver (.setChannelValue (dsuid :: dsuids) applyNow channel value scope)
  | .setChannelValue _ => lacking m.id
  | .getProperty dsuid query => ofPropertyRequest m.id dsuid query .getProperty
  | .setProperty dsuid properties => ofPropertyRequest m.id dsuid properties .setProperty
  | .responseHello _ | .pong _ | .announceContainer _ | .announceDevice _ _ | .vanish _
  | .identifyDevice _ | .propertyResponse _ | .pushProperty _ _ => refusal m.id .messageUnknown

/-- What a payload asks for in a state. One that is no message is refused under the id it would
have. -/
def ofPayload (own : String) (state : SessionState) (payload : List UInt8) : Directive :=
  if payload.isEmpty then .ignore
  else
    match Message.decode payload with
    | .error _ => refusal ((Message.peekId? payload).getD reservedId) .messageUnknown
    | .ok m =>
      match state.admission m with
      | .deliver => ofMessage own m
      | .drop => .ignore
      | .reject => .refuse m.id .serviceNotAvailable

end Directive

end Vdc
