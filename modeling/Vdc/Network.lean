import Mathlib.Logic.Relation
import Vdc.Endpoint
import Vdc.Manager

/-!
# An endpoint and its session managers

Several session managers are connected to one endpoint, each over a connection of its own. What one
side writes arrives at the other later, in order, and not all of it need have arrived.

A handshake takes a session manager some time: it sends its message, waits while more arrives, and
comes to an answer, an error, or the end of its patience. `Client` is a session manager that is
somewhere in that course; it may do anything else before and after, but introduces itself in no
other way. `Manager.hello` is a handshake that waits once (`Client.hello_eq`).
-/

namespace Vdc

/-- A handshake that a session manager makes, with the id that its message has. -/
structure Attempt where
  id : RequestId
  dsuid : String
  apiVersion : UInt32
deriving DecidableEq, Repr

/-- The message that is sent for a handshake. -/
def Attempt.message (a : Attempt) : Message :=
  ⟨a.id, .requestHello ⟨some a.dsuid, some a.apiVersion⟩⟩

/-- A session manager that waits for the answer to one handshake at most. No operation reads which
handshakes have ended and how many ids are used up. -/
structure Client where
  manager : Manager
  current : Option Attempt
  /-- The handshakes that have ended and what they came to, the last one first. -/
  ended : List (Attempt × Except Error String)
  used : Nat

namespace Client

/-- A session manager that has just connected. -/
def fresh (name : String) : Client := ⟨.onLink (.fresh name), none, [], 0⟩

/-- All handshakes so far. -/
def attempts (c : Client) : List Attempt := c.current.toList ++ c.ended.map Prod.fst

/-- Begins a handshake. -/
def greet (c : Client) (dsuid : String) (apiVersion : UInt32) : Client :=
  match c.manager.request (.requestHello ⟨some dsuid, some apiVersion⟩) with
  | (.ok id, manager) =>
    { c with manager := manager, current := some ⟨id, dsuid, apiVersion⟩, used := c.used + 1 }
  | (.error e, manager) =>
    { c with
      manager := manager
      ended := (⟨manager.lastId, dsuid, apiVersion⟩, .error e) :: c.ended
      used := c.used + 1 }

/-- A handshake comes to an end. -/
def conclude (c : Client) (attempt : Attempt) (result : Except Error String) : Client :=
  { c with current := none, ended := (attempt, result) :: c.ended }

/-- Waits for the answer within some reads; without one the wait may go on. -/
def await (c : Client) (reads : List Nat) : Client :=
  match c.current with
  | none => c
  | some attempt =>
    let last := (c.manager.receiveResponse attempt.id reads).2
    let c := { c with manager := last.manager }
    match last.result with
    | .error .timeout => c
    | .error e => c.conclude attempt (.error e)
    | .ok message => c.conclude attempt (Manager.welcome? message.payload)

/-- Does not wait any longer. -/
def giveUp (c : Client) : Client :=
  match c.current with
  | none => c
  | some attempt => c.conclude attempt (.error .timeout)

/-- Changes the connection. -/
def onLink (c : Client) (f : Link → Link) : Client :=
  { c with manager := { c.manager with link := f c.manager.link } }

/-- What a session manager does, and what happens on its connection. -/
inductive Step : Client → Client → Prop
  | greet (c : Client) (dsuid : String) (apiVersion : UInt32) (hidle : c.current = none) :
      Step c (c.greet dsuid apiVersion)
  | await (c : Client) (reads : List Nat) : Step c (c.await reads)
  | giveUp (c : Client) : Step c c.giveUp
  | useId (c : Client) (hidle : c.current = none) :
      Step c { c with manager := c.manager.useId.2, used := c.used + 1 }
  | send (c : Client) (message : Message) (manager : Manager) (hidle : c.current = none)
      (hkind : message.payload.kind ≠ .requestHello) (h : c.manager.send message = .ok manager) :
      Step c { c with manager := manager }
  | request (c : Client) (payload : Payload) (hidle : c.current = none)
      (hkind : payload.kind ≠ .requestHello) :
      Step c { c with manager := (c.manager.request payload).2, used := c.used + 1 }
  | receive (c : Client) (reads : List Nat) (hidle : c.current = none) :
      Step c { c with manager := (c.manager.receive reads).manager }
  | deliver (c : Client) (bytes : List UInt8) : Step c (c.onLink (·.deliver bytes))
  /-- The connection ends, takes no more bytes, or takes them again. -/
  | turn (c : Client) (ended writable closed : Bool) :
      Step c (c.onLink ({ · with ended := ended, writable := writable, closed := closed }))

end Client

/-- All connections that an endpoint has or had. -/
def Transport.links (t : Transport) : List Link := t.waiting ++ (t.held.toList ++ t.past)

/-- An endpoint and the session managers, each by the name of its connection. -/
structure Network (σ : Type) where
  endpoint : Endpoint σ
  clients : String → Client

namespace Network

variable {σ : Type}

/-- An endpoint that has opened, and session managers that have done nothing yet. -/
def opened (e : Endpoint σ) : Network σ := ⟨e, .fresh⟩

/-- The connections of the endpoint. -/
def links (n : Network σ) : List Link := n.endpoint.session.transport.links

/-- Every connection has two ends, and what has arrived at one was written at the other. -/
structure Wired (n : Network σ) : Prop where
  nodup : (n.links.map Link.name).Nodup
  toEndpoint : ∀ link ∈ n.links, link.arrived <+: (n.clients link.name).manager.link.written
  toClient : ∀ name, (n.clients name).manager.link.arrived = [] ∨
    ∃ link ∈ n.links, link.name = name ∧ (n.clients name).manager.link.arrived <+: link.written

/-- The endpoint takes an input while every session manager goes on; whatever has arrived anywhere
by then was written at the other end. -/
inductive Step : Network σ → Network σ → Prop
  | mk (n : Network σ) (input : Endpoint.Input σ) (clients : String → Client)
      (hclients : ∀ name, Relation.ReflTransGen Client.Step (n.clients name) (clients name))
      (hwired : Wired ⟨(n.endpoint.step input).2, clients⟩) :
      Step n ⟨(n.endpoint.step input).2, clients⟩

/-- What can come of a network. -/
abbrev Steps : Network σ → Network σ → Prop := Relation.ReflTransGen Step

end Network

end Vdc
