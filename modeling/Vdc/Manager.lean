import Vdc.Config
import Vdc.Message.Codec
import Vdc.Transport

/-!
# The session manager's side

A session manager talks to one endpoint over one connection. What it has read and not yet used up
stays in a buffer, so a message is received alike however the stream was cut into reads.

The time that a receipt may take is given as a list of reads, the most bytes that each of them may
bring; a read of no bytes is one that was interrupted. When the reads run out, or nothing is there
to be read, the time is up, and nothing that was read is lost.

A payload that is no message is skipped over once it was reported. A length out of range is not: it
is reported again whenever something is received.
-/

namespace Vdc

/-- One connection as a session manager sees it. -/
structure Manager where
  link : Link
  buffer : List UInt8
  lastId : RequestId
deriving Repr

namespace ProtocolFault

/-- A fault met at the front of a stream, which cannot be read any further. -/
def inStream : ProtocolFault → ProtocolFault
  | .frameTooLong length limit => .outOfSync length limit
  | fault => fault

end ProtocolFault

namespace Manager

/-- A session manager on a connection on which nothing happened yet. -/
def onLink (link : Link) : Manager := ⟨link, [], reservedId⟩

/-! ## Sending -/

/-- The id of the next request, never the reserved one. -/
def nextId (m : Manager) : RequestId :=
  if m.lastId + 1 = reservedId then 1 else m.lastId + 1

/-- Uses up the id of the next request. -/
def useId (m : Manager) : RequestId × Manager :=
  (m.nextId, { m with lastId := m.nextId })

/-- Sends a message as one frame. -/
def send (m : Manager) (message : Message) : Except Error Manager := do
  let payload ← message.encode
  let frame ← Frame.serialize defaultFrameLimit payload
  let link ← m.link.write frame
  return { m with link := link }

/-- Sends a request under an id of its own, which is used up in any case. -/
def request (m : Manager) (payload : Payload) : Except Error RequestId × Manager :=
  let (id, m) := m.useId
  match m.send ⟨id, payload⟩ with
  | .ok m => (.ok id, m)
  | .error e => (.error e, m)

/-- Shuts the connection down for both sides. -/
def shutDown (m : Manager) : Manager :=
  { m with link := { m.link.shutDown with ended := true, writable := false } }

/-! ## Receiving -/

/-- What a receipt comes to, and the reads it left. -/
structure Receipt (α : Type) where
  result : Except Error α
  manager : Manager
  reads : List Nat

/-- Receives the next message within some reads. -/
def receive (m : Manager) (reads : List Nat) : Receipt Message :=
  match Frame.parse defaultFrameLimit m.buffer with
  | .complete payload consumed =>
    ⟨Message.decode payload, { m with buffer := m.buffer.drop consumed }, reads⟩
  | .invalid fault => ⟨.error (.protocol fault.inStream), m, reads⟩
  | .incomplete _ =>
    match reads with
    | [] => ⟨.error .timeout, m, []⟩
    | 0 :: rest => receive m rest
    | size :: rest =>
      if m.link.unread.isEmpty then
        if m.link.ended then ⟨.error (.transport .unexpectedEof), m, size :: rest⟩
        else ⟨.error .timeout, m, []⟩
      else
        receive { m with
          buffer := m.buffer ++ m.link.unread.take size
          link := { m.link with unread := m.link.unread.drop size } } rest

/-- The most bytes that one read brings. -/
def readSize : Nat := 4096

/-- Reads enough for all that has arrived, and one that finds whether there is more to come. -/
def fullReads (m : Manager) : List Nat :=
  List.replicate (m.link.unread.length / readSize + 2) readSize

/-- How many bytes have arrived and are not used up. -/
def backlog (m : Manager) : Nat := m.buffer.length + m.link.unread.length

/-- A message that was received took bytes off the backlog. -/
theorem backlog_receive_lt {m : Manager} {reads : List Nat} {message : Message}
    (h : (m.receive reads).result = .ok message) :
    (m.receive reads).manager.backlog < m.backlog := by
  fun_induction receive m reads with
  | case1 m reads payload consumed hp =>
    have := Frame.length_drop_lt hp
    simp only [backlog]; omega
  | case2 | case3 | case5 | case6 => cases h
  | case4 m needed hp rest ih => exact ih h
  | case7 m needed hp size rest hs hu ih =>
    refine Nat.lt_of_lt_of_le (ih h) ?_
    simp only [backlog, List.length_append, List.length_take, List.length_drop]
    omega

/-- Receives messages until one has an id; all others that come before it are handed out in their
order. -/
def receiveResponse (m : Manager) (id : RequestId) (reads : List Nat) :
    List Message × Receipt Message :=
  match _h : (m.receive reads).result with
  | .error e => ([], ⟨.error e, (m.receive reads).manager, (m.receive reads).reads⟩)
  | .ok message =>
    if message.id = id then ([], m.receive reads)
    else
      let (others, last) :=
        receiveResponse (m.receive reads).manager id (m.receive reads).reads
      (message :: others, last)
termination_by m.backlog
decreasing_by exact backlog_receive_lt _h

/-- The name of an endpoint, from its answer to a handshake. -/
def welcome? (payload : Payload) : Except Error String :=
  match payload with
  | .responseHello dsuid => .ok dsuid
  | other => .error (.protocol (.unexpectedReply other.kind.name "hello"))

/-- Makes a handshake and returns the name of the endpoint. -/
def hello (m : Manager) (dsuid : String) (apiVersion : UInt32) (reads : List Nat) :
    Receipt String :=
  match m.request (.requestHello ⟨some dsuid, some apiVersion⟩) with
  | (.error e, m) => ⟨.error e, m, reads⟩
  | (.ok id, m) =>
    let last := (m.receiveResponse id reads).2
    ⟨last.result.bind fun message => welcome? message.payload, last.manager, last.reads⟩

end Manager

end Vdc
