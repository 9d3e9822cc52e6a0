import Std.Async.DNS
import Std.Async.Signal
import Std.Async.TCP
import Std.Async.Timer
import Vdc.Lamp.Settings
import Vdc.Probe.Basic

/-!
# The two programs

`dsvdc` is the probe and `dsvdc-reference` is the lamp; the name under which the program is started
tells which of them it is. Here their connections meet sockets and their waiting times meet the
clock; what they say and when they end is decided elsewhere.

What arrives on a socket is delivered to the connection it belongs to, and what was written on a
connection is sent after every step.
-/

namespace Vdc.Program

open Std.Async Std.Async.TCP Std.Net

/-! ## Surroundings -/

/-- Writes the last words of a program and hands out its exit code. -/
def finish (exit : CommandLine.Exit) : IO UInt32 := do
  (← IO.getStdout).putStr exit.out
  (← IO.getStderr).putStr exit.err
  return exit.code.toUInt32

/-- The environment variables that a command line may stand for. -/
def environment (g : CommandLine.Grammar) : IO (String → Option String) := do
  let pairs ← (g.flags.filterMap (·.standIn)).filterMapM fun name => do
    return (← IO.getEnv name).map (name, ·)
  return fun name => pairs.lookup name

/-- A random dSUID. -/
def randomDsuid : IO String := do
  return Dsuid.ofBytes (← IO.getRandomBytes (USize.ofNat Dsuid.size)).toList

/-! ## Sockets -/

/-- What a socket has brought. -/
inductive Arrival where
  | data (bytes : List UInt8)
  | ended
  | nothing

/-- A connection after something has arrived on it. -/
def Arrival.deliver (l : Link) : Arrival → Link
  | .data bytes => Link.deliver l bytes
  | .ended => { l with ended := true }
  | .nothing => l

/-- What a socket brings by one read. -/
def reading (socket : Socket.Client) : Selector (Option ByteArray) :=
  socket.recvSelector 4096

/-- What was read. -/
def Arrival.ofRead : Option ByteArray → Arrival
  | some bytes => .data bytes.toList
  | none => .ended

/-- Waits some milliseconds for something to arrive. A socket that fails has come to its end. -/
def arrival (socket : Socket.Client) (time : Nat) : IO Arrival := do
  try
    Async.block do
      Selectable.one #[
        .case (reading socket) fun read => return Arrival.ofRead read,
        .case (← Selector.sleep (.ofNat time)) fun _ => return Arrival.nothing]
  catch _ => return .ended

/-- Sends some bytes and tells whether that went well. -/
def sendBytes (socket : Socket.Client) (bytes : List UInt8) : IO Bool := do
  if bytes.isEmpty then return true
  try
    (socket.send ⟨bytes.toArray⟩).block
    return true
  catch _ => return false

/-- Shuts a socket down, if it still can be. -/
def shutDown (socket : Socket.Client) : IO Unit := do
  try socket.shutdown.block catch _ => pure ()

/-! ## The probe -/

/-- Sends what the probe has written and prints what it has said. -/
def settle (socket : Socket.Client) (p : Probe) : IO Probe := do
  let link := p.manager.link
  let settled : Probe :=
    { p with output := [], manager := { p.manager with link := link.forget } }
  if ← sendBytes socket link.written then
    let stdout ← IO.getStdout
    stdout.write ⟨p.output.toArray⟩
    stdout.flush
    return settled
  else return settled.fail (.transport .brokenPipe)

/-- Receives a message before a point in time. -/
partial def await (socket : Socket.Client) (deadline : Nat) (m : Manager) :
    IO (Manager.Receipt Message) := do
  let receipt := m.receive m.fullReads
  let left := deadline - (← IO.monoMsNow)
  if receipt.result matches .error .timeout && 0 < left then
    let arrived ← arrival socket left
    await socket deadline { receipt.manager with link := arrived.deliver receipt.manager.link }
  else return receipt

/-- Goes on until the probe has ended. -/
partial def runProbe (socket : Socket.Client) (time deadline : Nat) (p : Probe) :
    IO Probe.Ending := do
  let p ← settle socket p
  match p.ending? with
  | some ending => return ending
  | none =>
    let next := p.resume (← await socket deadline p.manager)
    if next.awaited?.isSome && next.awaited? = p.awaited? then runProbe socket time deadline next
    else runProbe socket time ((← IO.monoMsNow) + time) next

/-- The host at an address of the network. -/
def hostOf : IPAddr → Host
  | .v4 ip => .v4 ⟨ip.octets[0], ip.octets[1], ip.octets[2], ip.octets[3]⟩
  | .v6 ip => .v6 ⟨ip.segments.toList, by simp⟩ 0

/-- The socket address of an endpoint. -/
def socketAddress (endpoint : Address) : SocketAddress :=
  match endpoint.host with
  | .v4 ip => .v4 ⟨.ofParts ip.a ip.b ip.c ip.d, endpoint.port⟩
  | .v6 ip _ => .v6 ⟨⟨⟨ip.groups.toArray, by simp [ip.length_groups]⟩⟩, endpoint.port⟩

/-- The address of the endpoint to talk to. A host that is no address is looked up by its name. -/
def resolve (settings : Probe.Settings) : IO (Except CommandLine.Exit Address) := do
  match settings.endpoint, settings.named? with
  | .error exit, some (name, port) =>
    try
      let found ← (DNS.getAddrInfo name (toString port.toNat)).block
      return found[0]?.elim (.error exit) fun ip => .ok ⟨hostOf ip, port⟩
    catch _ => return .error exit
  | endpoint, _ => return endpoint

/-- Connects to an endpoint. -/
def connect (endpoint : Address) : IO Socket.Client := do
  let socket ← Socket.Client.mk
  (socket.connect (socketAddress endpoint)).block
  socket.noDelay
  return socket

/-- The probe as a program. -/
def probe (arguments : List String) : IO UInt32 := do
  match Probe.Settings.parse (← environment Probe.Settings.grammar) arguments with
  | .error stop => finish (stop.exit Probe.Settings.grammar)
  | .ok settings =>
    match ← resolve settings with
    | .error exit => finish exit
    | .ok endpoint =>
      let socket? ← (connect endpoint).toBaseIO
      match socket? with
      | .error _ => finish (Probe.Settings.unreachable endpoint)
      | .ok socket =>
        let time := settings.timeout * 1000
        let ending ←
          runProbe socket time ((← IO.monoMsNow) + time) (.start settings (.fresh settings.address))
        shutDown socket
        finish ending.exit

/-! ## The lamp -/

/-- Listens on the first free port, beginning with a given one. -/
partial def listen (port : UInt16) : IO (Socket.Server × UInt16) := do
  try
    let server ← Socket.Server.mk
    server.bind (.v4 ⟨.ofParts 0 0 0 0, port⟩)
    server.listen 128
    server.noDelay
    return (server, port)
  catch e =>
    match e with
    | .resourceBusy _ _ => if port < 65535 then listen (port + 1) else throw e
    | _ => throw e

/-- The lamp at work, with the sockets of its connections. -/
structure Service where
  endpoint : Endpoint Lamp
  sockets : List (String × Socket.Client)
  /-- How many connections there have been. -/
  count : Nat
  /-- When the endpoint was last told the time. -/
  time : Nat

namespace Service

/-- Takes an input. -/
def input (s : Service) (i : Endpoint.Input Lamp) : Service :=
  { s with endpoint := (s.endpoint.step i).2 }

/-- The socket of the held connection. -/
def held? (s : Service) : Option (String × Socket.Client) := do
  let link ← s.endpoint.session.transport.held
  return (link.name, ← s.sockets.lookup link.name)

/-- Takes up a connection that has arrived. -/
def welcome (s : Service) (socket : Socket.Client) : Service :=
  let name := toString s.count
  { s with sockets := (name, socket) :: s.sockets, count := s.count + 1 }.input
    (.arrive (.fresh name))

/-- Takes up what has arrived on a connection. -/
def take (s : Service) (name : String) : Arrival → Service
  | .data bytes => s.input (.deliver name bytes)
  | .ended => s.input (.finish name)
  | .nothing => s

/-- Sends what was written, shuts down what is closed, and lets go of the past. -/
def settle (s : Service) : IO Service := do
  let (links, transport) := s.endpoint.session.transport.collect
  let session := { s.endpoint.session with transport := transport, journal := [] }
  let mut s := { s with endpoint := { s.endpoint with session := session } }
  for link in links do
    if let some socket := s.sockets.lookup link.name then
      let sent ← sendBytes socket link.written
      if link.closed then
        shutDown socket
        s := { s with sockets := s.sockets.filter (·.1 != link.name) }
      else if !sent then s := s.input (.jam link.name)
  return s

/-- Waits for the rest of a frame that has begun to arrive. -/
partial def complete (s : Service) (deadline : Nat) : IO Service := do
  let left := deadline - (← IO.monoMsNow)
  match s.held? with
  | some (name, socket) =>
    if s.endpoint.session.transport.awaitsRest && 0 < left then
      (s.take name (← arrival socket left)).complete deadline
    else return s
  | none => return s

/-- Tells the endpoint the time and lets it work until nothing is ready. -/
partial def work (s : Service) : IO Service := do
  let now ← IO.monoMsNow
  let s ← s.complete (now + Config.default.ioTimeout)
  let s := { s with time := now }.input (.elapse (now - s.time))
  let s ← (s.input .work).settle
  let ready := s.endpoint.session.transport.poll
  if ready.incoming || ready.readable then s.work else return s

/-- What a service can wake up to. -/
inductive Wake where
  | incoming (socket : Socket.Client)
  | arrived (name : String) (arrival : Arrival)
  | idle

/-- Waits until there is something to do, for a second at most. -/
def wait (s : Service) (server : Socket.Server) : IO Wake := do
  let held := s.held?.toArray.map fun (name, socket) =>
    Selectable.case (reading socket) fun read => return Wake.arrived name (.ofRead read)
  try
    Async.block do
      Selectable.one (held ++ #[
        .case server.acceptSelector fun socket => return Wake.incoming socket,
        .case (← Selector.sleep 1000) fun _ => return Wake.idle])
  catch _ =>
    return s.held?.elim .idle fun (name, _) => .arrived name .ended

/-- Serves until one of the signals has come. -/
partial def serve (s : Service) (server : Socket.Server) (signals : List (AsyncTask Int)) :
    IO Unit := do
  if ← signals.anyM fun signal => IO.hasFinished signal then
    discard (s.input .close).settle
  else
    match ← s.wait server with
    | .idle => (← s.work).serve server signals
    | .incoming socket => (← (s.welcome socket).work).serve server signals
    | .arrived name arrival => (← (s.take name arrival).work).serve server signals

end Service

/-- The lamp as a program. -/
def lamp (arguments : List String) : IO UInt32 := do
  let grammar := Lamp.Settings.grammar
  let random : Lamp.Identity := ⟨← randomDsuid, ← randomDsuid⟩
  match Lamp.Settings.prepare (← environment grammar) arguments random with
  | .error exit => finish exit
  | .ok (settings, identity) =>
    let listening ← (listen settings.firstPort).toBaseIO
    match listening with
    | .error e => finish (.failure "Failed to set up the endpoint" [toString e])
    | .ok (server, port) =>
      match settings.openOn identity port with
      | .error exit => finish exit
      | .ok endpoint =>
        let signals ← [Signal.sigint, .sigterm].mapM fun signal => do
          (← Signal.Waiter.mk signal false).wait
        Service.serve ⟨endpoint, [], 0, ← IO.monoMsNow⟩ server signals
        finish .success

end Vdc.Program

/-- Runs the program that is asked for by its name. -/
def main (arguments : List String) : IO UInt32 := do
  if ((← IO.appPath).fileStem.getD "").endsWith "reference" then Vdc.Program.lamp arguments
  else Vdc.Program.probe arguments
