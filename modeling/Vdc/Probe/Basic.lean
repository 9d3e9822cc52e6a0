import Vdc.Json.Sorted
import Vdc.Manager
import Vdc.Probe.Settings

/-!
# The probe

The probe is a session manager that opens a session, does one thing and leaves. It goes on by
receipts: each message that arrives, and each failure to receive one, is one step, which may send
and print and may be the last.

Announcements are acknowledged, so that the endpoint does not wait for an answer in vain: by a ping
and a watch as they arrive, by a query and an update once the answer is there.
-/

namespace Vdc

namespace Probe

/-- How the probe ended. -/
inductive Ending where
  | done
  /-- It failed; the error behind the failure, if the headline is not its own text. -/
  | failed (headline : String) (cause : Option Error)
deriving DecidableEq, Repr

/-- How the program ends with the probe. -/
def Ending.exit : Ending → CommandLine.Exit
  | .done => .success
  | .failed headline cause => .failure headline (cause.toList.map Error.message)

/-- What the probe is waiting for. -/
inductive Phase where
  | greeting (id : RequestId)
  | pinging (dsuid : String)
  | querying (id : RequestId) (others : List Message)
  | updating (id : RequestId) (others : List Message)
  | watching
  | ended (ending : Ending)
deriving DecidableEq, Repr

end Probe

/-- The probe at work. -/
structure Probe where
  manager : Manager
  command : Probe.Command
  phase : Probe.Phase
  /-- What was printed so far. -/
  output : List UInt8

namespace Probe

/-! ## Parts of a step -/

/-- Ends the probe. -/
def finish (p : Probe) (ending : Ending) : Probe :=
  { p with phase := .ended ending }

/-- Ends the probe with an error. -/
def fail (p : Probe) (e : Error) : Probe :=
  p.finish (.failed e.message none)

/-- Prints a line of text. -/
def printLine (p : Probe) (text : String) : Probe :=
  { p with output := p.output ++ Utf8.encode text ++ [0x0a] }

/-- Prints a JSON value, indented, with the keys of its objects in order. -/
def printJson (p : Probe) (json : Json) : Probe :=
  { p with output := p.output ++ json.sorted.indent 0 ++ [0x0a] }

/-- Goes on with the connection after an attempt to send; the error, if it failed, ends the
probe. -/
def proceed (p : Probe) (sent : Except Error Manager) (next : Probe → Probe) : Probe :=
  match sent with
  | .ok m => next { p with manager := m }
  | .error e => p.fail e

/-- The message that acknowledges an announcement. -/
def acknowledgement? (m : Message) : Option Message :=
  match m.payload with
  | .announceContainer _ | .announceDevice _ _ =>
    if m.id = reservedId then none else some (Message.genericResponse m.id .ok)
  | _ => none

/-- Acknowledges a message if it is an announcement. -/
def acknowledge (p : Probe) (m : Message) (next : Probe → Probe) : Probe :=
  match acknowledgement? m with
  | some answer => p.proceed (p.manager.send answer) next
  | none => next p

/-- Acknowledges some messages one after the other. -/
def acknowledgeAll (next : Probe → Probe) : List Message → Probe → Probe
  | [], p => next p
  | m :: rest, p => p.acknowledge m (acknowledgeAll next rest)

/-- Sends a request and waits for its answer. -/
def ask (p : Probe) (payload : Payload) (phase : RequestId → Phase) : Probe :=
  match p.manager.request payload with
  | (.ok id, m) => { p with manager := m, phase := phase id }
  | (.error e, m) => { p with manager := m }.fail e

/-! ## Steps -/

/-- Begins with a handshake over a connection. -/
def start (settings : Settings) (link : Link) : Probe :=
  let p : Probe := ⟨.onLink link, settings.command, .watching, []⟩
  match p.manager.request (.requestHello ⟨some settings.dsuid, some defaultApiVersion⟩) with
  | (.ok id, m) => { p with manager := m, phase := .greeting id }
  | (.error e, m) => { p with manager := m }.finish (.failed "Handshake failed" (some e))

/-- The elements that ask for properties by name. -/
def query (names : List String) : List Element :=
  names.map fun name => ⟨some name, none, []⟩

/-- The elements that set properties. -/
def update (assignments : List Assignment) : List Element :=
  Node.toElements (assignments.map fun a => .leaf (some a.name) a.value)

/-- Does what the probe is for, in a session with an endpoint. -/
def begin (p : Probe) (endpoint : String) : Probe :=
  match p.command with
  | .hello => (p.printLine endpoint).finish .done
  | .ping dsuid =>
    let target := dsuid.getD endpoint
    p.proceed (p.manager.send (.notification (.ping (some target)))) fun p =>
      { p with phase := .pinging target }
  | .getProperty dsuid names => p.ask (.getProperty (some dsuid) (query names)) (.querying · [])
  | .setProperty dsuid assignments =>
    p.ask (.setProperty (some dsuid) (update assignments)) (.updating · [])
  | .watch => { p with phase := .watching }
  | .completions _ => p.finish .done

/-- Takes the answer to a property query. -/
def answerQuery (p : Probe) (payload : Payload) : Probe :=
  match payload with
  | .propertyResponse properties =>
    match Property.ofElements? properties with
    | .ok tree => (p.printJson (.array (Element.listToJson tree.toElements))).finish .done
    | .error e => p.fail e
  | .genericResponse code _ => p.finish (.failed (s!"Query failed: {code.description}") none)
  | other => p.finish (.failed (s!"Unexpected {other.kind.name} to property query") none)

/-- Takes the answer to a property update. -/
def answerUpdate (p : Probe) (payload : Payload) : Probe :=
  match payload with
  | .genericResponse code _ =>
    if code.isOk then p.finish .done
    else p.finish (.failed (s!"Update failed: {code.description}") none)
  | other => p.finish (.failed (s!"Unexpected {other.kind.name} to property update") none)

/-- Takes a message that has arrived. -/
def take (p : Probe) (m : Message) : Probe :=
  match p.phase with
  | .greeting id =>
    if m.id = id then
      match Manager.welcome? m.payload with
      | .ok endpoint => p.begin endpoint
      | .error e => p.finish (.failed "Handshake failed" (some e))
    else p
  | .pinging dsuid =>
    let p := p.printJson m.toJson
    if m.payload = .pong dsuid then p.finish .done else p.acknowledge m fun p => p
  | .querying id others =>
    if m.id = id then acknowledgeAll (·.answerQuery m.payload) others p
    else { p with phase := .querying id (others ++ [m]) }
  | .updating id others =>
    if m.id = id then acknowledgeAll (·.answerUpdate m.payload) others p
    else { p with phase := .updating id (others ++ [m]) }
  | .watching => (p.printJson m.toJson).acknowledge m fun p => p
  | .ended _ => p

/-- Takes note that no message was received. Only a watch goes on after a timeout, and ends well
when the connection is lost. -/
def miss (p : Probe) (e : Error) : Probe :=
  match p.phase with
  | .greeting _ => p.finish (.failed "Handshake failed" (some e))
  | .pinging _ => p.finish (.failed "No pong" (some e))
  | .querying _ _ => p.finish (.failed "No property response" (some e))
  | .updating _ _ => p.finish (.failed "No reply to property update" (some e))
  | .watching =>
    if e = .timeout then p else if e.isConnectionLoss then p.finish .done else p.fail e
  | .ended _ => p

/-- The request whose answer is waited for. One time limit holds for the whole wait; without such a
request every receipt has a time limit of its own. -/
def awaited? (p : Probe) : Option RequestId :=
  match p.phase with
  | .greeting id | .querying id _ | .updating id _ => some id
  | _ => none

/-- How the probe ended, if it has. -/
def ending? (p : Probe) : Option Ending :=
  match p.phase with
  | .ended ending => some ending
  | _ => none

/-- Goes on after a receipt. -/
def resume (p : Probe) (receipt : Manager.Receipt Message) : Probe :=
  match p.phase with
  | .ended _ => p
  | _ =>
    let p := { p with manager := receipt.manager }
    match receipt.result with
    | .ok m => p.take m
    | .error e => p.miss e

/-- Receives once, within some reads, and goes on accordingly. -/
def step (p : Probe) (reads : List Nat) : Probe × List Nat :=
  match p.phase with
  | .ended _ => (p, reads)
  | _ => (p.resume (p.manager.receive reads), (p.manager.receive reads).reads)

end Probe

end Vdc
