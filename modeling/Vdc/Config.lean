import Vdc.Message.Basic

/-!
# Configuration

How an endpoint listens and how long it waits. Times are in milliseconds; a waiting time of zero for
the connection means to wait without limit.
-/

namespace Vdc

/-- The first port tried when none is asked for. -/
def defaultPort : UInt16 := 49500

/-- The largest payload of a frame, unless configured otherwise. -/
def defaultFrameLimit : Nat := 16384

/-- The version of the handshake that is spoken, unless configured otherwise. -/
def defaultApiVersion : UInt32 := 2

/-- The settings of an endpoint. -/
structure Config where
  /-- The port to listen on; zero searches upward from `defaultPort`. -/
  port : UInt16
  bindAddress : String
  /-- The name announced on the network. -/
  name : String
  /-- The age above which a request without a reply has timed out. -/
  responseTimeout : Nat
  /-- The least time between two sweeps while a peer is connected. -/
  sweepInterval : Nat
  /-- How long to wait for the rest of a frame. -/
  ioTimeout : Nat
  frameLimit : Nat
  apiVersion : UInt32
deriving Repr

namespace Config

/-- The settings of an endpoint that is not configured. -/
def default : Config where
  port := 0
  bindAddress := "0.0.0.0"
  name := "dsvdc"
  responseTimeout := 10000
  sweepInterval := 20000
  ioTimeout := 2000
  frameLimit := defaultFrameLimit
  apiVersion := defaultApiVersion

instance : Inhabited Config := ⟨default⟩

/-- The port to try first. -/
def firstPort (c : Config) : UInt16 :=
  if c.port = 0 then defaultPort else c.port

end Config

end Vdc
