import Vdc.Json.Record

/-!
# Result codes

The closed set of codes that a generic response carries. Each has a name on the wire and a
description; on the wire it may also stand as an object with the name as its only key.
-/

namespace Vdc

/-- The code of a generic response. -/
inductive ResultCode where
  | ok
  | messageUnknown
  | incompatibleApi
  | serviceNotAvailable
  | insufficientStorage
  | forbidden
  | notImplemented
  | noContentForArray
  | invalidValueType
  | missingSubmessage
  | missingData
  | notFound
  | notAuthorized
deriving DecidableEq, Repr, Inhabited

namespace ResultCode

/-- All codes, in the order of the protocol. -/
def all : List ResultCode :=
  [.ok, .messageUnknown, .incompatibleApi, .serviceNotAvailable, .insufficientStorage, .forbidden,
    .notImplemented, .noContentForArray, .invalidValueType, .missingSubmessage, .missingData,
    .notFound, .notAuthorized]

/-- The name on the wire. -/
def name : ResultCode → String
  | .ok => "ERR_OK"
  | .messageUnknown => "ERR_MESSAGE_UNKNOWN"
  | .incompatibleApi => "ERR_INCOMPATIBLE_API"
  | .serviceNotAvailable => "ERR_SERVICE_NOT_AVAILABLE"
  | .insufficientStorage => "ERR_INSUFFICIENT_STORAGE"
  | .forbidden => "ERR_FORBIDDEN"
  | .notImplemented => "ERR_NOT_IMPLEMENTED"
  | .noContentForArray => "ERR_NO_CONTENT_FOR_ARRAY"
  | .invalidValueType => "ERR_INVALID_VALUE_TYPE"
  | .missingSubmessage => "ERR_MISSING_SUBMESSAGE"
  | .missingData => "ERR_MISSING_DATA"
  | .notFound => "ERR_NOT_FOUND"
  | .notAuthorized => "ERR_NOT_AUTHORIZED"

/-- The code in words. -/
def description : ResultCode → String
  | .ok => "OK"
  | .messageUnknown => "Unknown message type"
  | .incompatibleApi => "Incompatible API version"
  | .serviceNotAvailable => "Service not available"
  | .insufficientStorage => "Insufficient storage"
  | .forbidden => "Forbidden"
  | .notImplemented => "Not implemented"
  | .noContentForArray => "Array data was expected"
  | .invalidValueType => "Invalid data type"
  | .missingSubmessage => "Protocol error, missing submessage"
  | .missingData => "Missing protocol data"
  | .notFound => "Requested entity was not found"
  | .notAuthorized => "Not authorized to perform requested action"

/-- Whether a code reports success. -/
def isOk (code : ResultCode) : Bool :=
  code == .ok

/-- The code with a name. -/
def ofName? (name : String) : Option ResultCode :=
  all.find? (·.name == name)

theorem mem_all (code : ResultCode) : code ∈ all := by
  cases code <;> decide

@[simp] theorem ofName?_name (code : ResultCode) : ofName? code.name = some code := by
  cases code <;> decide

/-- The wire form of a code is its name. -/
def toJson (code : ResultCode) : Json :=
  .text code.name

/-- Reads a name, or an object with the name as its only key and nothing under it. -/
def ofJson? : Json → Option ResultCode
  | .text name => ofName? name
  | .object [(name, .null)] => ofName? name
  | .object [(name, .object [])] => ofName? name
  | _ => none

end ResultCode

end Vdc
