import Vdc.Announcement
import Vdc.Session.Dispatch

/-!
# Endpoints

An endpoint is a session served by an application, with an announcement on the network while it is
open. It is driven from outside, one input after the other: by work cycles, by scripts that are
performed between them, by the passing of time, and by what happens at the far ends of its
connections. `Endpoint.step` takes one input and `Endpoint.run` takes many.

A work cycle ends the requests that are too old, waits for a while, then looks at what is ready, and
only then accepts one connection and reads one frame; what a newcomer sent is not read in the cycle
that accepts it. A frame that cannot be read ends the connection.
-/

namespace Vdc

/-- An endpoint and its application. -/
structure Endpoint (σ : Type) where
  application : Application σ
  session : Session σ
  announcer : Option Announcer
  isClosed : Bool

namespace Endpoint

variable {σ : Type}

/-! ## Opening -/

/-- What comes of opening an endpoint. -/
inductive Started (σ : Type) where
  | ready (endpoint : Endpoint σ)
  | refused (error : Error)
  /-- The search for a free service name does not end. -/
  | endless

/-- Checks what an endpoint is opened with; the name comes first. -/
def check (dsuid : String) (config : Config) : Except Error Unit :=
  if dsuid.isEmpty then .error (.parameter .emptyDsuid)
  else if config.frameLimit = 0 ∨ Frame.maxLength < config.frameLimit then
    .error (.parameter (.frameLimit config.frameLimit))
  else .ok ()

/-- Opens an endpoint that listens on a port. An announcement that is refused does not keep it from
opening. -/
def start (application : Application σ) (memory : σ) (dsuid : String) (config : Config)
    (announcer : Option Announcer) (port : UInt16) : Started σ :=
  match check dsuid config with
  | .error e => .refused e
  | .ok _ =>
    let session := Session.new dsuid config memory 0
    match announcer with
    | none => .ready ⟨application, session, none, false⟩
    | some announcer =>
      match announcer.start ⟨config.name, dsuid, port⟩ with
      | .published announcer => .ready ⟨application, session, some announcer, false⟩
      | .refused _ => .ready ⟨application, session, some announcer, false⟩
      | .endless => .endless

/-- The record that is announced. -/
def record? (e : Endpoint σ) : Option ServiceRecord :=
  e.announcer.bind (·.record)

/-! ## Work -/

/-- Reads one frame and takes it up; a frame that cannot be read ends the connection. -/
def receive (app : Application σ) (s : Session σ) : Session σ :=
  match s.transport.readFrame with
  | (.frame payload, transport) => { s with transport := transport }.handle app payload
  | (.failed _, _) => s.disconnect.2
  | (.waiting, _) => s

/-- One work cycle. What happens while it waits comes after the search for requests that are too
old. -/
def workSession (app : Application σ) (meanwhile : List Happening) (s : Session σ) : Session σ :=
  let s := meanwhile.foldl Session.happen s.sweep
  let ready := s.transport.poll
  let s := if ready.incoming then s.acceptIncoming else s
  if ready.readable then receive app s else s

/-- One work cycle of an endpoint that is open. -/
def work (e : Endpoint σ) (meanwhile : List Happening) : Except Error Unit × Endpoint σ :=
  if e.isClosed then (.error .notConnected, e)
  else (.ok (), { e with session := workSession e.application meanwhile e.session })

/-- Performs a script between two work cycles. -/
def perform (e : Endpoint σ) (script : Script σ) : Endpoint σ :=
  { e with session := e.session.run script }

/-- Closes an endpoint: the connection and its requests, the socket, and the announcement, in this
order. Only the first time counts. -/
def close (e : Endpoint σ) : Endpoint σ :=
  if e.isClosed then e
  else
    let s := e.session.disconnect.2
    { e with
      session := { s with transport := s.transport.close }.note .withdrawn
      announcer := e.announcer.map Announcer.stop
      isClosed := true }

/-! ## Runs -/

/-- What can happen to an endpoint. -/
inductive Input (σ : Type) where
  /-- A work cycle, with what happens while it waits. -/
  | work (meanwhile : List Happening := [])
  | perform (script : Script σ)
  | close
  /-- Something happens without the endpoint's doing. -/
  | happen (happening : Happening)

namespace Input

/-- Milliseconds pass. -/
abbrev elapse (time : Nat) : Input σ := .happen (.elapse time)

/-- A connection arrives and waits to be accepted. -/
abbrev arrive (link : Link) : Input σ := .happen (.arrive link)

/-- Bytes arrive on a connection. -/
abbrev deliver (link : String) (bytes : List UInt8) : Input σ := .happen (.deliver link bytes)

/-- The far side of a connection has finished sending. -/
abbrev finish (link : String) : Input σ := .happen (.finish link)

/-- A connection takes no more bytes. -/
abbrev jam (link : String) : Input σ := .happen (.jam link)

end Input

/-- Takes one input. Only a work cycle can fail. -/
def step (e : Endpoint σ) : Input σ → Except Error Unit × Endpoint σ
  | .work meanwhile => e.work meanwhile
  | .perform script => (.ok (), e.perform script)
  | .close => (.ok (), e.close)
  | .happen happening => (.ok (), { e with session := e.session.happen happening })

/-- The endpoint after some inputs. -/
def run (e : Endpoint σ) (inputs : List (Input σ)) : Endpoint σ :=
  inputs.foldl (fun e input => (e.step input).2) e

end Endpoint

end Vdc
