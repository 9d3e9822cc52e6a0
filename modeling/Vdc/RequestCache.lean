import Vdc.Error
import Vdc.Message.Basic

/-!
# Pending requests

Every request that awaits a reply is kept here with the time it was made and what is to be done
with its reply, in the order of registration. An entry leaves when its reply is taken, when it is
found too old by a sweep, or when the connection is gone.

A sweep with a connection does nothing until the interval since the last one has passed, and then
removes the entries whose age is strictly above the response timeout. Without a connection it
removes all. A clock that went backwards counts as standing still.
-/

namespace Vdc

/-- A request without a reply so far, and what to do with the reply. -/
structure PendingRequest (κ : Type) where
  id : RequestId
  created : Nat
  completion : κ

/-- Why no reply will come. -/
inductive Expiry where
  | timedOut
  | disconnected
deriving DecidableEq, Repr

namespace Expiry

/-- The error that a request without a reply ends with. -/
def error : Expiry → Error
  | .timedOut => .timeout
  | .disconnected => .notConnected

end Expiry

/-- The pending requests, in the order of registration. -/
structure RequestCache (κ : Type) where
  entries : List (PendingRequest κ)
  responseTimeout : Nat
  sweepInterval : Nat
  lastSweep : Nat

namespace RequestCache

variable {κ : Type}

/-- An empty cache, made at a time that counts as the last sweep. -/
def new (responseTimeout sweepInterval now : Nat) : RequestCache κ :=
  ⟨[], responseTimeout, sweepInterval, now⟩

/-- How many requests are pending. -/
def size (c : RequestCache κ) : Nat := c.entries.length

/-- Whether no request is pending. -/
def isEmpty (c : RequestCache κ) : Bool := c.entries.isEmpty

/-- The ids that are pending. -/
def ids (c : RequestCache κ) : List RequestId := c.entries.map (·.id)

/-- Whether an id is pending. -/
def contains (c : RequestCache κ) (id : RequestId) : Bool :=
  c.entries.any (·.id == id)

/-- Keeps a request made at a time; its id must not be reserved or pending. -/
def register (c : RequestCache κ) (id : RequestId) (completion : κ) (created : Nat) :
    Except Error (RequestCache κ) :=
  if id = reservedId then .error (.parameter .reservedId)
  else if c.contains id then .error (.parameter (.pendingId id))
  else .ok { c with entries := c.entries ++ [⟨id, created, completion⟩] }

/-- Takes out the request with an id. -/
def take (c : RequestCache κ) (id : RequestId) : Option (PendingRequest κ) × RequestCache κ :=
  (c.entries.find? (·.id == id), { c with entries := c.entries.eraseP (·.id == id) })

/-- Takes out all requests; the connection is gone. -/
def flush (c : RequestCache κ) : List (PendingRequest κ × Expiry) × RequestCache κ :=
  (c.entries.map (·, .disconnected), { c with entries := [] })

/-- Whether a request is too old at a time. -/
def isOverdue (c : RequestCache κ) (now : Nat) (request : PendingRequest κ) : Bool :=
  decide (c.responseTimeout < now - request.created)

/-- Takes out the requests that will see no reply. -/
def sweep (c : RequestCache κ) (now : Nat) (connected : Bool) :
    List (PendingRequest κ × Expiry) × RequestCache κ :=
  if !connected then c.flush
  else if now - c.lastSweep < c.sweepInterval then ([], c)
  else
    ((c.entries.filter (c.isOverdue now)).map (·, .timedOut),
      { c with entries := c.entries.filter (!c.isOverdue now ·), lastSweep := now })

end RequestCache

end Vdc
