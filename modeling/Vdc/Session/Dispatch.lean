import Vdc.Session.Basic
import Vdc.Session.Directive

/-!
# Carrying out directives

`Session.handle` takes up the payload of a frame and does what it asks for. The application is
called back at most once for a payload, and a reply that cannot be sent is forgotten.

A handshake is answered before its session is open, and opens none if the answer cannot be sent. A
farewell closes the connection and ends every pending request before the application hears of it.
-/

namespace Vdc.Session

variable {σ : Type}

/-- Calls the application back. -/
def call (app : Application σ) (s : Session σ) (callback : Callback) : Session σ :=
  run (app.react callback) (s.note (.called callback s.status))

/-- Answers a request with a code. -/
def reply (s : Session σ) (id : RequestId) (code : ResultCode) : Session σ :=
  (s.send (.generic id code)).2

/-- Answers a handshake and opens the session it asks for. -/
def greet (app : Application σ) (s : Session σ) (id : RequestId) (hello : Hello) : Session σ :=
  match SessionState.checkHello s.apiVersion id hello with
  | .error _ => s
  | .ok peer =>
    match s.transmit ⟨id, .responseHello s.dsuid⟩ with
    | .error _ => s
    | .ok s => { s with state := .active peer }.call app .hello

/-- Ends the session. The application is told the name in the farewell, or else the name of the
peer. -/
def part (app : Application σ) (s : Session σ) (dsuid : Option String) : Session σ :=
  let (peer, s) := s.disconnect
  s.call app (.bye ((dsuid.or peer).getD ""))

/-- Asks whether a device may be removed and passes the answer on. -/
def remove (app : Application σ) (s : Session σ) (id : RequestId) (dsuid : String) : Session σ :=
  let s := s.call app (.remove dsuid)
  if id = reservedId then s
  else s.reply id (if app.permits s.memory dsuid then .ok else .forbidden)

/-- Does what a payload asks for. -/
def obey (app : Application σ) (s : Session σ) : Directive → Session σ
  | .ignore => s
  | .refuse id code => s.reply id code
  | .greet id hello => s.greet app id hello
  | .part dsuid => s.part app dsuid
  | .pong dsuid => (s.send (.pong dsuid)).2
  | .remove id dsuid => s.remove app id dsuid
  | .complete id code => s.complete id code
  | .deliver callback => s.call app callback

/-- Takes up the payload of a frame. -/
def handle (app : Application σ) (s : Session σ) (payload : List UInt8) : Session σ :=
  (s.note (.handled payload)).obey app (Directive.ofPayload s.dsuid s.state payload)

end Vdc.Session
