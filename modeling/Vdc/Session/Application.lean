import Vdc.Property.Rows
import Vdc.Session.State
import Vdc.Transport

/-!
# Applications

The devices behind an endpoint are an application: it is called back for what the session manager
asks, and answers with a script, a finite course of sends and announcements that may depend on how
each of them went and on the application's own memory of type `σ`. The completion of an
announcement is a script as well, run when the reply comes or when none will.

A script can do to a session what an application may do, and nothing else: it cannot disconnect,
complete a request or read a frame. A script takes time, and the world does not stand still for it:
what happens meanwhile is part of the course.
-/

namespace Vdc

/-- How a request ended. -/
inductive Outcome where
  | answered (code : ResultCode)
  | timedOut
  | disconnected
deriving DecidableEq, Repr

/-- What the session manager asks of an application. The last two hand out the tree that the answer
is to be sent with. -/
inductive Callback where
  | hello
  | bye (dsuid : String)
  | remove (dsuid : String)
  | ping (dsuid : String)
  | callScene (dsuids : List String) (scene : Int32) (force : Bool) (scope : Scope)
  | saveScene (dsuids : List String) (scene : Int32) (scope : Scope)
  | undoScene (dsuids : List String) (scene : Int32) (scope : Scope)
  | setLocalPriority (dsuids : List String) (scene : Int32) (scope : Scope)
  | callMinScene (dsuids : List String) (scene : Int32) (scope : Scope)
  | identify (dsuids : List String) (scope : Scope)
  | setControlValue (dsuids : List String) (name : String) (value : Double) (scope : Scope)
  | setChannelValue (dsuids : List String) (applyNow : Bool) (channel : Int32) (value : Double)
      (scope : Scope)
  | getProperty (dsuid : String) (query response : Property)
  | setProperty (dsuid : String) (values response : Property)
deriving Repr

/-- What can be seen of a session. -/
structure Status where
  own : String
  state : SessionState
  connected : Bool
  pending : Nat
deriving DecidableEq, Repr

/-- What an application can send without awaiting a reply. -/
inductive Outgoing where
  | pong (dsuid : String)
  | vanished (dsuid : String)
  | identify (dsuid : String)
  | push (dsuid : String) (tree : Property)
  | generic (id : RequestId) (code : ResultCode)
  | property (tree : Property)
  | propertySet (tree : Property) (code : ResultCode)
  | rows (rows : Rows)
deriving Repr

/-- What an application can announce. -/
inductive Subject where
  | container (dsuid : String)
  | device (container dsuid : String)
deriving DecidableEq, Repr

namespace Subject

/-- The message that announces a subject. -/
def payload : Subject → Payload
  | .container own => .announceContainer own
  | .device parent own => .announceDevice own parent

end Subject

/-- What an application does in answer to a callback or an outcome. -/
inductive Script (σ : Type) where
  | done
  | remember (change : σ → σ) (next : Script σ)
  | recall (next : σ → Script σ)
  | meanwhile (happening : Happening) (next : Script σ)
  | inspect (next : Status → Script σ)
  | send (what : Outgoing) (next : Except Error Unit → Script σ)
  | announce (subject : Subject) (completion : Outcome → Script σ)
      (next : Except Error RequestId → Script σ)

namespace Script

variable {σ : Type}

instance : Inhabited (Script σ) := ⟨.done⟩

/-- Sends something and ignores how it went. -/
def tell (what : Outgoing) : Script σ :=
  .send what fun _ => .done

end Script

/-- An application: its answer to each callback, and whether a device may be removed once the
callback that asks for it has run. -/
structure Application (σ : Type) where
  react : Callback → Script σ
  permits : σ → String → Bool

namespace Application

variable {σ : Type}

/-- What is answered to a callback that an application does not deal with: properties are not
implemented, and everything else is ignored. -/
def defaultReaction : Callback → Script σ
  | .getProperty _ _ response => .tell (.generic response.requestId .notImplemented)
  | .setProperty _ _ response => .tell (.propertySet response .notImplemented)
  | _ => .done

/-- The application without devices. -/
def default : Application σ := ⟨defaultReaction, fun _ _ => false⟩

end Application

end Vdc
