import Vdc.Message.Basic

/-!
# The state of a session

A connection begins without a session; a handshake opens one with the peer it names; the end of the
connection ends both. The state decides which messages get through: none without a connection, all
in a session, and in between only those that a handshake and its failure need.
-/

namespace Vdc

/-- Where a connection stands. -/
inductive SessionState where
  | disconnected
  /-- A peer is connected and has not introduced itself. -/
  | connected
  /-- The handshake with this peer is complete. -/
  | active (peer : String)
deriving DecidableEq, Repr, Inhabited

/-- What to do with a message. -/
inductive Admission where
  | deliver
  | drop
  /-- Drop it, and say that there is no session yet. -/
  | reject
deriving DecidableEq, Repr

namespace SessionState

/-- The peer of the session. -/
def peer? : SessionState → Option String
  | .active peer => some peer
  | _ => none

/-- Whether a peer is connected. -/
def isConnected : SessionState → Bool
  | .disconnected => false
  | _ => true

/-- Whether a session is open. -/
def isActive : SessionState → Bool
  | .active _ => true
  | _ => false

/-- The peer that a handshake introduces, if the handshake is acceptable. The id comes first, then
the version, then the name. -/
def checkHello (version : UInt32) (id : RequestId) (hello : Hello) : Except Error String :=
  if id = reservedId then .error (.protocol .helloWithoutId)
  else
    match hello.apiVersion with
    | none => .error (.protocol .helloWithoutVersion)
    | some offered =>
      if offered ≠ version then .error (.protocol (.unsupportedVersion offered version))
      else
        match hello.dsuid with
        | none => .error (.protocol .helloWithoutDsuid)
        | some dsuid =>
          if dsuid.isEmpty then .error (.protocol .helloWithoutDsuid) else .ok dsuid

/-- Whether a kind of message is for the time before a handshake. -/
def precedesSession : MessageKind → Bool
  | .requestHello | .bye | .genericResponse => true
  | _ => false

/-- What to do with a message in a state. -/
def admission (state : SessionState) (message : Message) : Admission :=
  match state with
  | .disconnected => .drop
  | .active _ => .deliver
  | .connected =>
    if precedesSession message.payload.kind then .deliver
    else if message.id ≠ reservedId then .reject
    else .drop

end SessionState

end Vdc
