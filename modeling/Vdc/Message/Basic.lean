import Vdc.Message.ResultCode
import Vdc.Property.Tree

/-!
# Messages

Every frame carries one message: the id of a request or a reply, and a payload of one of 23 kinds.
Fields that a well-behaved peer always sends may still be absent in a message, so that a message
without them can be answered rather than not understood.

Three kinds of fields differ in what their absence means: an absent group or zone is unset, which
is not the same as zero; an absent list is empty; an absent flag is false.
-/

namespace Vdc

/-- The id of a request and its reply; `reservedId` for a message without a reply. -/
abbrev RequestId := UInt32

/-- The group and zone that a notification addresses, each of which may be unset. -/
structure Scope where
  group : Option Int32
  zone : Option Int32
deriving DecidableEq, Repr, Inhabited

/-- What the session manager introduces itself with. -/
structure Hello where
  dsuid : Option String
  apiVersion : Option UInt32
deriving DecidableEq, Repr, Inhabited

/-- A notification about a scene of some devices. -/
structure SceneNotice where
  dsuids : List String
  scene : Option Int32
  scope : Scope
deriving DecidableEq, Repr, Inhabited

/-- A notification of a named control value for some devices. -/
structure ControlNotice where
  dsuids : List String
  name : Option String
  value : Option Double
  scope : Scope
deriving DecidableEq, Repr, Inhabited

/-- A notification of an output channel's value for some devices. -/
structure ChannelNotice where
  dsuids : List String
  applyNow : Bool
  channel : Option Int32
  value : Option Double
  scope : Scope
deriving DecidableEq, Repr, Inhabited

/-- What a message says. -/
inductive Payload where
  | genericResponse (code : ResultCode) (description : Option String)
  | requestHello (hello : Hello)
  | responseHello (dsuid : String)
  | ping (dsuid : Option String)
  | pong (dsuid : String)
  | bye (dsuid : Option String)
  | remove (dsuid : Option String)
  | announceContainer (dsuid : String)
  | announceDevice (dsuid container : String)
  | vanish (dsuid : String)
  | identifyDevice (dsuid : String)
  | callScene (notice : SceneNotice) (force : Bool)
  | saveScene (notice : SceneNotice)
  | undoScene (notice : SceneNotice)
  | setLocalPriority (notice : SceneNotice)
  | callMinScene (notice : SceneNotice)
  | identify (dsuids : List String) (scope : Scope)
  | setControlValue (notice : ControlNotice)
  | setChannelValue (notice : ChannelNotice)
  | getProperty (dsuid : Option String) (query : List Element)
  | propertyResponse (properties : List Element)
  | setProperty (dsuid : Option String) (properties : List Element)
  | pushProperty (dsuid : String) (properties : List Element)
deriving DecidableEq, Repr

/-- The kinds of messages. -/
inductive MessageKind where
  | genericResponse
  | requestHello
  | responseHello
  | ping
  | pong
  | bye
  | remove
  | announceContainer
  | announceDevice
  | vanish
  | identifyDevice
  | callScene
  | saveScene
  | undoScene
  | setLocalPriority
  | callMinScene
  | identify
  | setControlValue
  | setChannelValue
  | getProperty
  | propertyResponse
  | setProperty
  | pushProperty
deriving DecidableEq, Repr

namespace MessageKind

/-- All kinds of messages. -/
def all : List MessageKind :=
  [.genericResponse, .requestHello, .responseHello, .ping, .pong, .bye, .remove,
    .announceContainer, .announceDevice, .vanish, .identifyDevice, .callScene, .saveScene,
    .undoScene, .setLocalPriority, .callMinScene, .identify, .setControlValue, .setChannelValue,
    .getProperty, .propertyResponse, .setProperty, .pushProperty]

/-- The name on the wire. -/
def name : MessageKind → String
  | .genericResponse => "generic_response"
  | .requestHello => "vdsm_request_hello"
  | .responseHello => "vdc_response_hello"
  | .ping => "vdsm_send_ping"
  | .pong => "vdc_send_pong"
  | .bye => "vdsm_send_bye"
  | .remove => "vdsm_send_remove"
  | .announceContainer => "vdc_send_announce_vdc"
  | .announceDevice => "vdc_send_announce_device"
  | .vanish => "vdc_send_vanish"
  | .identifyDevice => "vdc_send_identify"
  | .callScene => "vdsm_notification_call_scene"
  | .saveScene => "vdsm_notification_save_scene"
  | .undoScene => "vdsm_notification_undo_scene"
  | .setLocalPriority => "vdsm_notification_set_local_prio"
  | .callMinScene => "vdsm_notification_call_min_scene"
  | .identify => "vdsm_notification_identify"
  | .setControlValue => "vdsm_notification_set_control_value"
  | .setChannelValue => "vdsm_notification_set_output_channel_value"
  | .getProperty => "vdsm_request_get_property"
  | .propertyResponse => "vdc_response_get_property"
  | .setProperty => "vdsm_request_set_property"
  | .pushProperty => "vdc_send_push_property"

/-- The kind with a name. -/
def ofName? (name : String) : Option MessageKind :=
  all.find? (·.name == name)

@[simp] theorem ofName?_name (kind : MessageKind) : ofName? kind.name = some kind := by
  cases kind <;> decide

end MessageKind

namespace Payload

/-- The kind of a payload. -/
def kind : Payload → MessageKind
  | .genericResponse _ _ => .genericResponse
  | .requestHello _ => .requestHello
  | .responseHello _ => .responseHello
  | .ping _ => .ping
  | .pong _ => .pong
  | .bye _ => .bye
  | .remove _ => .remove
  | .announceContainer _ => .announceContainer
  | .announceDevice _ _ => .announceDevice
  | .vanish _ => .vanish
  | .identifyDevice _ => .identifyDevice
  | .callScene _ _ => .callScene
  | .saveScene _ => .saveScene
  | .undoScene _ => .undoScene
  | .setLocalPriority _ => .setLocalPriority
  | .callMinScene _ => .callMinScene
  | .identify _ _ => .identify
  | .setControlValue _ => .setControlValue
  | .setChannelValue _ => .setChannelValue
  | .getProperty _ _ => .getProperty
  | .propertyResponse _ => .propertyResponse
  | .setProperty _ _ => .setProperty
  | .pushProperty _ _ => .pushProperty

end Payload

/-- One message. -/
structure Message where
  id : RequestId
  payload : Payload
deriving DecidableEq, Repr

namespace Message

/-- A message without a reply. -/
def notification (payload : Payload) : Message := ⟨reservedId, payload⟩

/-- A generic response with the description of its code. -/
def genericResponse (id : RequestId) (code : ResultCode) : Message :=
  ⟨id, .genericResponse code (some code.description)⟩

end Message

end Vdc
