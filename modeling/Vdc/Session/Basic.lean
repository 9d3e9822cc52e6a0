import Vdc.Config
import Vdc.Message.Codec
import Vdc.RequestCache
import Vdc.Session.Application
import Vdc.Transport

/-!
# Sessions

A session is the transport with the state of the connection on it, the requests that are pending,
the application's memory, and a journal of what happened, the last event first. Everything an
application does goes through the operations here.

A message is sent as one frame or not at all, and a send that fails changes nothing. A request is
registered only after its message was sent.

No operation reads the journal. It holds, with every call of the application and everything the
application looked at, what could be seen of the session at that moment.
-/

namespace Vdc

/-- What happened in a session. -/
inductive Event (σ : Type) where
  /-- A connection was accepted and is now the held one. -/
  | accepted (link : String)
  /-- A connection was accepted and turned away. -/
  | rejected (link : String)
  /-- The payload of a frame was taken up. -/
  | handled (payload : List UInt8)
  /-- A message was sent. -/
  | sent (message : Message)
  /-- A request was sent and registered, at a time and with its completion. -/
  | registered (id : RequestId) (created : Nat) (completion : Outcome → Script σ)
  /-- A request was not made; the id is used up. -/
  | declined (id : RequestId) (error : Error)
  /-- The search for requests that are too old began, at a time. -/
  | swept (now : Nat)
  /-- A pending request ended; its completion runs next. -/
  | completed (id : RequestId) (outcome : Outcome) (completion : Outcome → Script σ)
      (status : Status)
  /-- The application was called back; its script runs next. -/
  | called (callback : Callback) (status : Status)
  /-- A script looked at the session. -/
  | inspected (status : Status)
  /-- The held connection was closed. -/
  | closed (link : String)
  /-- The announcement on the network was withdrawn. -/
  | withdrawn

/-- A session and the application's part in it. -/
structure Session (σ : Type) where
  dsuid : String
  apiVersion : UInt32
  transport : Transport
  state : SessionState
  pending : RequestCache (Outcome → Script σ)
  lastId : RequestId
  clock : Nat
  memory : σ
  journal : List (Event σ)

namespace Session

variable {σ : Type}

/-- A session without a connection. -/
def new (dsuid : String) (config : Config) (memory : σ) (now : Nat) : Session σ where
  dsuid := dsuid
  apiVersion := config.apiVersion
  transport := Transport.listen config.frameLimit config.ioTimeout
  state := .disconnected
  pending := RequestCache.new config.responseTimeout config.sweepInterval now
  lastId := reservedId
  clock := now
  memory := memory
  journal := []

/-- What can be seen of a session. -/
def status (s : Session σ) : Status :=
  ⟨s.dsuid, s.state, s.transport.isConnected, s.pending.size⟩

/-- Notes down what happened. -/
def note (s : Session σ) (event : Event σ) : Session σ :=
  { s with journal := event :: s.journal }

/-- The session after something happened without its doing. -/
def happen (s : Session σ) (happening : Happening) : Session σ :=
  { s with transport := s.transport.happen happening, clock := s.clock + happening.time }

/-! ## Sending -/

/-- Sends a message as one frame. -/
def transmit (s : Session σ) (message : Message) : Except Error (Session σ) := do
  let payload ← message.encode
  let transport ← s.transport.writeFrame payload
  return { s with transport := transport }.note (.sent message)

/-- The session after an attempt, and how the attempt went. -/
def attempt (s : Session σ) (result : Except Error (Session σ)) : Except Error Unit × Session σ :=
  match result with
  | .ok s => (.ok (), s)
  | .error e => (.error e, s)

/-- Sends the answer to a property query with a tree. -/
def transmitProperty (s : Session σ) (tree : Property) : Except Error (Session σ) :=
  if tree.requestId = reservedId then .error (.parameter .untaggedTree)
  else s.transmit ⟨tree.requestId, .propertyResponse tree.toElements⟩

/-- Sends the answer to a property query with rows. Unsound rows are not sent; the request they
answer gets an error response instead. -/
def sendRows (s : Session σ) (rows : Rows) : Except Error Unit × Session σ :=
  match rows.toProperty? with
  | .ok tree => s.attempt (s.transmitProperty tree)
  | .error e =>
    if rows.requestId = reservedId then (.error e, s)
    else
      match s.transmit (Message.genericResponse rows.requestId .noContentForArray) with
      | .ok s => (.error e, s)
      | .error failure => (.error failure, s)

/-- Sends what an application wants sent. -/
def send (s : Session σ) : Outgoing → Except Error Unit × Session σ
  | .pong dsuid => s.attempt (s.transmit (.notification (.pong dsuid)))
  | .vanished dsuid => s.attempt (s.transmit (.notification (.vanish dsuid)))
  | .identify dsuid => s.attempt (s.transmit (.notification (.identifyDevice dsuid)))
  | .push dsuid tree =>
    s.attempt (s.transmit (.notification (.pushProperty dsuid tree.toElements)))
  | .generic id code => s.attempt (s.transmit (.genericResponse id code))
  | .property tree => s.attempt (s.transmitProperty tree)
  | .propertySet tree code =>
    if tree.requestId = reservedId then (.error (.parameter .untaggedTree), s)
    else s.attempt (s.transmit (.genericResponse tree.requestId code))
  | .rows rows => s.sendRows rows

/-! ## Requests -/

/-- The first id after `last` that is neither reserved nor taken, within some steps. -/
def freeId (taken : RequestId → Bool) : Nat → RequestId → RequestId
  | 0, last => last + 1
  | steps + 1, last =>
    let id := last + 1
    if id ≠ reservedId ∧ !taken id then id else freeId taken steps id

/-- The id of the next request. As many ids as requests are pending may be taken, and one is
reserved. -/
def nextId (s : Session σ) : RequestId :=
  freeId s.pending.contains (s.pending.size + 1) s.lastId

/-- Sends a request and keeps its completion until it ends. The id is used up in any case. -/
def announce (s : Session σ) (subject : Subject) (completion : Outcome → Script σ) :
    Except Error RequestId × Session σ :=
  let id := s.nextId
  let s := { s with lastId := id }
  match s.transmit ⟨id, subject.payload⟩ with
  | .error e => (.error e, s.note (.declined id e))
  | .ok s =>
    match s.pending.register id completion s.clock with
    | .error e => (.error e, s.note (.declined id e))
    | .ok pending =>
      (.ok id, { s with pending := pending }.note (.registered id s.clock completion))

/-! ## Scripts -/

/-- Runs a script. -/
def run : Script σ → Session σ → Session σ
  | .done, s => s
  | .remember change next, s => run next { s with memory := change s.memory }
  | .recall next, s => run (next s.memory) s
  | .meanwhile happening next, s => run next (s.happen happening)
  | .inspect next, s => run (next s.status) (s.note (.inspected s.status))
  | .send what next, s =>
    let (result, s) := s.send what
    run (next result) s
  | .announce subject completion next, s =>
    let (result, s) := s.announce subject completion
    run (next result) s

/-- Runs the completion of a request that has left the pending ones. -/
def finish (s : Session σ) (request : PendingRequest (Outcome → Script σ)) (outcome : Outcome) :
    Session σ :=
  run (request.completion outcome)
    (s.note (.completed request.id outcome request.completion s.status))

/-- The outcome of a request without a reply. -/
def outcomeOf : Expiry → Outcome
  | .timedOut => .timedOut
  | .disconnected => .disconnected

/-- Runs the completions of requests that will see no reply, in order. -/
def abandon (s : Session σ) (requests : List (PendingRequest (Outcome → Script σ) × Expiry)) :
    Session σ :=
  requests.foldl (fun s request => s.finish request.1 (outcomeOf request.2)) s

/-- Hands a reply to the request it answers, if that is pending. -/
def complete (s : Session σ) (id : RequestId) (code : ResultCode) : Session σ :=
  match s.pending.take id with
  | (some request, pending) => { s with pending := pending }.finish request (.answered code)
  | (none, _) => s

/-- Ends the requests that will see no reply any more. -/
def sweep (s : Session σ) : Session σ :=
  let s := s.note (.swept s.clock)
  let (expired, pending) := s.pending.sweep s.clock s.transport.isConnected
  { s with pending := pending }.abandon expired

/-! ## Connections -/

/-- The payload that a second connection is turned away with. -/
def rejection : Except Error (List UInt8) :=
  (Message.genericResponse reservedId .serviceNotAvailable).encode

/-- Accepts a waiting connection. -/
def acceptIncoming (s : Session σ) : Session σ :=
  match rejection with
  | .error _ => s
  | .ok reject =>
    match s.transport.accept reject with
    | (.ok (.connected name), transport) =>
      { s with transport := transport, state := .connected }.note (.accepted name)
    | (.ok (.rejected name), transport) => { s with transport := transport }.note (.rejected name)
    | (.error _, transport) => { s with transport := transport }

/-- Closes the held connection. -/
def resetTransport (s : Session σ) : Session σ :=
  match s.transport.held with
  | some link => { s with transport := s.transport.reset }.note (.closed link.name)
  | none => s

/-- Closes the connection and then ends every pending request. The peer of the session that ended
is returned. -/
def disconnect (s : Session σ) : Option String × Session σ :=
  let peer := s.state.peer?
  let s := s.resetTransport
  let (abandoned, pending) := s.pending.flush
  (peer, { s with state := .disconnected, pending := pending }.abandon abandoned)

end Session

end Vdc
