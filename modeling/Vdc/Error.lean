import Vdc.Property.Value

/-!
# Errors

What can go wrong, by cause. `Error.kind` sorts the causes into the ten kinds that callers tell
apart, and `Error.message` is the one place where they are put into words.
-/

namespace Vdc

/-- Failures of a connection or a file, as the operating system reports them. -/
inductive TransportFault where
  | notFound
  | permissionDenied
  | connectionRefused
  | connectionReset
  | hostUnreachable
  | networkUnreachable
  | connectionAborted
  | notConnected
  | addressInUse
  | addressNotAvailable
  | networkDown
  | brokenPipe
  | alreadyExists
  | wouldBlock
  | notADirectory
  | isADirectory
  | directoryNotEmpty
  | readOnlyFilesystem
  | staleNetworkFileHandle
  | invalidInput
  | invalidData
  | timedOut
  | writeZero
  | storageFull
  | notSeekable
  | quotaExceeded
  | fileTooLarge
  | resourceBusy
  | executableFileBusy
  | deadlock
  | crossesDevices
  | tooManyLinks
  | invalidFilename
  | argumentListTooLong
  | interrupted
  | unsupported
  | unexpectedEof
  | outOfMemory
  | other
deriving DecidableEq, Repr

namespace TransportFault

/-- All faults. -/
def all : List TransportFault :=
  [.notFound, .permissionDenied, .connectionRefused, .connectionReset, .hostUnreachable,
    .networkUnreachable, .connectionAborted, .notConnected, .addressInUse, .addressNotAvailable,
    .networkDown, .brokenPipe, .alreadyExists, .wouldBlock, .notADirectory, .isADirectory,
    .directoryNotEmpty, .readOnlyFilesystem, .staleNetworkFileHandle, .invalidInput, .invalidData,
    .timedOut, .writeZero, .storageFull, .notSeekable, .quotaExceeded, .fileTooLarge,
    .resourceBusy, .executableFileBusy, .deadlock, .crossesDevices, .tooManyLinks,
    .invalidFilename, .argumentListTooLong, .interrupted, .unsupported, .unexpectedEof,
    .outOfMemory, .other]

theorem mem_all (fault : TransportFault) : fault ∈ all := by
  cases fault <;> decide

/-- The fault in words. -/
def message : TransportFault → String
  | .notFound => "entity not found"
  | .permissionDenied => "permission denied"
  | .connectionRefused => "connection refused"
  | .connectionReset => "connection reset"
  | .hostUnreachable => "host unreachable"
  | .networkUnreachable => "network unreachable"
  | .connectionAborted => "connection aborted"
  | .notConnected => "not connected"
  | .addressInUse => "address in use"
  | .addressNotAvailable => "address not available"
  | .networkDown => "network down"
  | .brokenPipe => "broken pipe"
  | .alreadyExists => "entity already exists"
  | .wouldBlock => "operation would block"
  | .notADirectory => "not a directory"
  | .isADirectory => "is a directory"
  | .directoryNotEmpty => "directory not empty"
  | .readOnlyFilesystem => "read-only filesystem or storage medium"
  | .staleNetworkFileHandle => "stale network file handle"
  | .invalidInput => "invalid input parameter"
  | .invalidData => "invalid data"
  | .timedOut => "timed out"
  | .writeZero => "write zero"
  | .storageFull => "no storage space"
  | .notSeekable => "seek on unseekable file"
  | .quotaExceeded => "quota exceeded"
  | .fileTooLarge => "file too large"
  | .resourceBusy => "resource busy"
  | .executableFileBusy => "executable file busy"
  | .deadlock => "deadlock"
  | .crossesDevices => "cross-device link or rename"
  | .tooManyLinks => "too many links"
  | .invalidFilename => "invalid filename"
  | .argumentListTooLong => "argument list too long"
  | .interrupted => "operation interrupted"
  | .unsupported => "unsupported"
  | .unexpectedEof => "unexpected end of file"
  | .outOfMemory => "out of memory"
  | .other => "other error"

end TransportFault

/-- Arguments that an operation refuses. -/
inductive ParameterFault where
  | emptyDsuid
  | frameLimit (limit : Nat)
  | untaggedTree
  | nonFinite (d : Double)
  | reservedId
  | pendingId (id : UInt32)
  | emptyServiceName
  | dsuidDigits (text : String)
  | dsuidSize (text : String) (size expected : Nat)
  | readOnly (path : String)
deriving DecidableEq, Repr

namespace ParameterFault

/-- The fault in words. -/
def message : ParameterFault → String
  | .emptyDsuid => "empty dsuid"
  | .frameLimit limit => s!"max frame size {limit} out of range"
  | .untaggedTree => "property tree does not answer a request"
  | .nonFinite d => s!"non-finite double {d.toText}"
  | .reservedId => "request id 0 is reserved"
  | .pendingId id => s!"request id {id.toNat} is already pending"
  | .emptyServiceName => "empty service name"
  | .dsuidDigits text => s!"dsuid '{text}'"
  | .dsuidSize text size expected => s!"dsuid '{text}' has {size} bytes, expected {expected}"
  | .readOnly path => s!"{path} is opened read-only"

end ParameterFault

/-- Violations of the protocol. -/
inductive ProtocolFault where
  | frameTooLong (length limit : Nat)
  | payloadTooLong (length limit : Nat)
  /-- A length prefix met in the middle of a stream, after which nothing can be read any more. -/
  | outOfSync (length limit : Nat)
  | malformed
  | mixedElement (name : Option String)
  | helloWithoutId
  | helloWithoutVersion
  | unsupportedVersion (offered expected : UInt32)
  | helloWithoutDsuid
  | unexpectedReply (kind : String) (request : String)
deriving DecidableEq, Repr

namespace ProtocolFault

/-- The fault in words. A fault that ends a stream repeats how such faults are introduced. -/
def message : ProtocolFault → String
  | .frameTooLong length limit => s!"frame length {length} exceeds maximum of {limit}"
  | .payloadTooLong length limit => s!"payload of {length} bytes exceeds maximum of {limit}"
  | .outOfSync length limit => s!"Protocol error: frame length {length} exceeds maximum of {limit}"
  | .malformed => "malformed message"
  | .mixedElement name =>
    let shown := name.getD ""
    s!"property element '{shown}' carries a value and nested elements"
  | .helloWithoutId => "hello without message id"
  | .helloWithoutVersion => "hello without api version"
  | .unsupportedVersion offered expected =>
    s!"unsupported api version {offered.toNat}, expected {expected.toNat}"
  | .helloWithoutDsuid => "hello without dsuid"
  | .unexpectedReply kind request => s!"unexpected {kind} to {request}"

end ProtocolFault

/-- What makes property rows unsound. -/
inductive RowsFault where
  | noRows
  | missing (row : Nat)
  | noElements
  | width (row found expected : Nat)
deriving DecidableEq, Repr

namespace RowsFault

/-- The fault in words. -/
def message : RowsFault → String
  | .noRows => "no rows"
  | .missing row => s!"row {row} is missing"
  | .noElements => "row 0 has no elements"
  | .width row found expected => s!"row {row} has {found} elements, row 0 has {expected}"

end RowsFault

/-- An error with its cause. -/
inductive Error where
  | parameter (fault : ParameterFault)
  | resourceExhausted
  | transport (fault : TransportFault)
  | notConnected
  | timeout
  | protocol (fault : ProtocolFault)
  | typeMismatch (expected found : ValueKind)
  | structural (fault : RowsFault)
  | notFound (key : String)
  | indexOutOfRange (index : Nat)
deriving DecidableEq, Repr

/-- The kinds of errors that callers tell apart. -/
inductive ErrorKind where
  | parameter
  | resourceExhausted
  | transport
  | notConnected
  | timeout
  | protocol
  | typeMismatch
  | structural
  | notFound
  | indexOutOfRange
deriving DecidableEq, Repr

namespace Error

/-- The kind of an error. -/
def kind : Error → ErrorKind
  | .parameter _ => .parameter
  | .resourceExhausted => .resourceExhausted
  | .transport _ => .transport
  | .notConnected => .notConnected
  | .timeout => .timeout
  | .protocol _ => .protocol
  | .typeMismatch _ _ => .typeMismatch
  | .structural _ => .structural
  | .notFound _ => .notFound
  | .indexOutOfRange _ => .indexOutOfRange

/-- The error in words. -/
def message : Error → String
  | .parameter fault => s!"Invalid parameter: '{fault.message}'"
  | .resourceExhausted => "Resource exhausted"
  | .transport fault => s!"Transport error: {fault.message}"
  | .notConnected => "Not connected to a session manager"
  | .timeout => "Timeout Error"
  | .protocol fault => s!"Protocol error: {fault.message}"
  | .typeMismatch expected found =>
    s!"Property type mismatch: expected {expected.label}, found {found.label}"
  | .structural fault => s!"Unsound property structure: {fault.message}"
  | .notFound key => s!"Not found: '{key}'"
  | .indexOutOfRange index => s!"Property index {index} out of range"

/-- Waiting in vain is a timeout; every other fault stays what it is. -/
def ofFault : TransportFault → Error
  | .wouldBlock | .timedOut => .timeout
  | fault => .transport fault

/-- Whether an error means that the connection to the peer is gone. -/
def isConnectionLoss : Error → Bool
  | .notConnected => true
  | .transport fault =>
    fault == .brokenPipe || fault == .connectionAborted || fault == .connectionReset
      || fault == .unexpectedEof
  | _ => false

end Error

end Vdc
