import Vdc.Frame

/-!
# The transport

An endpoint listens for connections and holds at most one. A connection is an ordered stream of
bytes in each direction: `arrived` is all that has come from the far side, `unread` the part of it
that is not yet read, and `written` all that was sent. No operation reads `arrived`. A write takes
all its bytes or fails and takes none.

A second connection is accepted only to be told so: it gets one frame and is closed, and the held
connection is not touched. A frame is read in two steps, first the bytes of its length and then as
many as that announces. A frame that cannot be read, because its length is out of range, the stream
ends within it or its rest does not come in time, closes the held connection. With a waiting time of
zero the rest of a frame is waited for without limit.
-/

namespace Vdc

/-- One connection as its endpoint sees it. -/
structure Link where
  name : String
  /-- All bytes that have come from the far side. -/
  arrived : List UInt8
  unread : List UInt8
  /-- The far side has finished sending. -/
  ended : Bool
  writable : Bool
  written : List UInt8
  /-- This side has shut the connection down. -/
  closed : Bool
deriving DecidableEq, Repr

namespace Link

/-- A connection on which nothing was sent yet. -/
def fresh (name : String) : Link := ⟨name, [], [], false, true, [], false⟩

/-- Bytes that arrive from the far side. -/
def deliver (l : Link) (bytes : List UInt8) : Link :=
  { l with arrived := l.arrived ++ bytes, unread := l.unread ++ bytes }

/-- Sends some bytes, all or none. -/
def write (l : Link) (bytes : List UInt8) : Except Error Link :=
  if l.writable then .ok { l with written := l.written ++ bytes }
  else .error (.transport .brokenPipe)

/-- Shuts a connection down. -/
def shutDown (l : Link) : Link := { l with closed := true }

/-- Forgets what has passed over a connection. -/
def forget (l : Link) : Link := { l with arrived := l.unread, written := [] }

/-- Whether reading would find bytes, or the end of the stream. -/
def isReadable (l : Link) : Bool :=
  !l.unread.isEmpty || l.ended

/-- What reading comes to. -/
inductive Reading where
  | bytes (bytes : List UInt8) (link : Link)
  | failed (error : Error)
  /-- The rest is still waited for. -/
  | waiting
deriving Repr

/-- What reading comes to if more is wanted than has arrived. -/
def shortfall (ioTimeout : Nat) (l : Link) : Reading :=
  if l.ended then .failed (.transport .unexpectedEof)
  else if ioTimeout = 0 then .waiting
  else .failed .timeout

/-- Reads some number of bytes. -/
def readExact (ioTimeout size : Nat) (l : Link) : Reading :=
  if size ≤ l.unread.length then
    .bytes (l.unread.take size) { l with unread := l.unread.drop size }
  else l.shortfall ioTimeout

/-- Reads one frame: its length, and then the payload of that length. -/
def readFrame (limit ioTimeout : Nat) (l : Link) : Reading :=
  match l.readExact ioTimeout Frame.headerSize with
  | .bytes header link =>
    match Frame.length? limit (header.getD 0 0) (header.getD 1 0) with
    | .ok length => link.readExact ioTimeout length
    | .error fault => .failed (.protocol fault)
  | other => other

end Link

/-- A listening socket, the connections that wait for it, and the one that is held. -/
structure Transport where
  listening : Bool
  waiting : List Link
  held : Option Link
  /-- The connections that were closed, the last one first. -/
  past : List Link
  frameLimit : Nat
  ioTimeout : Nat
deriving Repr

/-- What a transport is ready for. -/
structure Readiness where
  incoming : Bool
  readable : Bool
deriving DecidableEq, Repr

/-- What became of a connection that was waiting. -/
inductive Accepted where
  | connected (name : String)
  | rejected (name : String)
deriving DecidableEq, Repr

/-- What happens without the endpoint's doing. -/
inductive Happening where
  /-- Milliseconds pass. -/
  | elapse (time : Nat)
  /-- A connection arrives and waits to be accepted. -/
  | arrive (link : Link)
  /-- Bytes arrive on a connection. -/
  | deliver (link : String) (bytes : List UInt8)
  /-- The far side of a connection has finished sending. -/
  | finish (link : String)
  /-- A connection takes no more bytes. -/
  | jam (link : String)
  /-- A connection takes bytes again. -/
  | ease (link : String)
deriving Repr

/-- The milliseconds that pass. -/
def Happening.time : Happening → Nat
  | .elapse time => time
  | _ => 0

namespace Transport

/-- A transport that listens and holds nothing. -/
def listen (frameLimit ioTimeout : Nat) : Transport :=
  ⟨true, [], none, [], frameLimit, ioTimeout⟩

/-- Whether a connection is held. -/
def isConnected (t : Transport) : Bool := t.held.isSome

/-- Looks what is ready, without waiting. -/
def poll (t : Transport) : Readiness :=
  ⟨t.listening && !t.waiting.isEmpty, t.held.any Link.isReadable⟩

/-- A newcomer that is turned away: it gets the frame of a payload, if that fits, and is closed. -/
def turnAway (t : Transport) (reject : List UInt8) (newcomer : Link) : Except Error Link × Link :=
  match Frame.serialize t.frameLimit reject with
  | .error e => (.error e, newcomer.shutDown)
  | .ok frame =>
    match newcomer.write frame with
    | .ok link => (.ok link, link.shutDown)
    | .error _ => (.ok newcomer, newcomer.shutDown)

/-- Accepts the connection that has waited longest. It becomes the held one if there is none, and
is turned away with a payload otherwise. -/
def accept (t : Transport) (reject : List UInt8) : Except Error Accepted × Transport :=
  if !t.listening then (.error .notConnected, t)
  else
    match t.waiting with
    | [] => (.error .timeout, t)
    | newcomer :: waiting =>
      match t.held with
      | none =>
        (.ok (.connected newcomer.name), { t with waiting := waiting, held := some newcomer })
      | some _ =>
        let (result, closed) := t.turnAway reject newcomer
        (result.map fun _ => .rejected newcomer.name,
          { t with waiting := waiting, past := closed :: t.past })

/-- Closes the held connection, if there is one. -/
def reset (t : Transport) : Transport :=
  match t.held with
  | none => t
  | some link => { t with held := none, past := link.shutDown :: t.past }

/-- What reading a frame from the held connection comes to. -/
inductive Reading where
  | frame (payload : List UInt8)
  | failed (error : Error)
  | waiting
deriving DecidableEq, Repr

/-- Reads one frame from the held connection; a failure closes it. -/
def readFrame (t : Transport) : Reading × Transport :=
  match t.held with
  | none => (.failed .notConnected, t)
  | some link =>
    match link.readFrame t.frameLimit t.ioTimeout with
    | .bytes payload link => (.frame payload, { t with held := some link })
    | .failed e => (.failed e, t.reset)
    | .waiting => (.waiting, t)

/-- Writes the frame of a payload to the held connection. -/
def writeFrame (t : Transport) (payload : List UInt8) : Except Error Transport := do
  let some link := t.held | throw .notConnected
  let frame ← Frame.serialize t.frameLimit payload
  let link ← link.write frame
  return { t with held := some link }

/-- Closes everything. Connections that were still waiting are closed with it. -/
def close (t : Transport) : Transport :=
  let t := t.reset
  { t with listening := false, waiting := [], past := t.waiting.map Link.shutDown ++ t.past }

/-- Whether the rest of a frame is still to come on the held connection. -/
def awaitsRest (t : Transport) : Bool :=
  t.held.any fun l =>
    !l.unread.isEmpty && !l.ended && (Frame.parse t.frameLimit l.unread matches .incomplete _)

/-! ## The far side -/

/-- A connection that arrives and waits to be accepted. Nothing was read from it or written on it
yet. -/
def arrive (t : Transport) (link : Link) : Transport :=
  { t with waiting := t.waiting ++ [{ link with arrived := link.unread, written := [] }] }

/-- Changes the open connections with a name. -/
def update (t : Transport) (name : String) (f : Link → Link) : Transport :=
  let change (l : Link) := if l.name = name then f l else l
  { t with waiting := t.waiting.map change, held := t.held.map change }

/-- What a happening does to the connections. -/
def happen (t : Transport) : Happening → Transport
  | .elapse _ => t
  | .arrive link => t.arrive link
  | .deliver link bytes => t.update link (·.deliver bytes)
  | .finish link => t.update link ({ · with ended := true })
  | .jam link => t.update link ({ · with writable := false })
  | .ease link => t.update link ({ · with writable := true })

/-- Hands out the connections with what was written on them since the last time, and forgets what
has passed over them and those that are closed. -/
def collect (t : Transport) : List Link × Transport :=
  (t.held.toList ++ t.past, { t with held := t.held.map Link.forget, past := [] })

end Transport

end Vdc
