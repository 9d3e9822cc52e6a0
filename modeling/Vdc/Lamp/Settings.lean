import Vdc.CommandLine
import Vdc.Lamp.Basic

/-!
# Settings of the lamp

The command line of the reference lamp: under which names the container and the lamp are known, and
where they are reached. The lamp is the sibling of its container unless both are random.
-/

namespace Vdc.Lamp

open CommandLine

/-- The settings of the lamp. -/
structure Settings where
  dsuid : Option String
  randomDsuid : Bool
  port : Option UInt16
  name : String
deriving DecidableEq, Repr

/-- The names of a container and its lamp. -/
structure Identity where
  container : String
  lamp : String
deriving DecidableEq, Repr

namespace Settings

/-- The port with a number. The number is read as an integer of 64 bits first. -/
def port? (text : String) : Except String UInt16 :=
  match intOfText? (2 ^ 63) (2 ^ 63 - 1) (Utf8.encode text) with
  | .error fault => .error fault.message
  | .ok n =>
    if 0 ≤ n ∧ n ≤ 65535 then .ok (UInt16.ofNat n.toNat)
    else .error s!"{n} is not in 0..=65535"

/-- Refuses what is no port. -/
def refusesPort (text : String) : Option Refusal :=
  match port? text with
  | .ok _ => none
  | .error reason => some (.because reason)

/-- What may be written on the command line of the lamp. -/
def grammar : Grammar where
  program := "dsvdc-reference"
  version := "0.3.0"
  about := "Reference vDC hosting one dimmable lamp"
  flags := [
    ⟨"dsuid", none, .value "DSUID" fun _ => none, some "DSVDC_DSUID", ["random-dsuid"]⟩,
    ⟨"random-dsuid", none, .switch, none, []⟩,
    ⟨"port", some 'p', .value "PORT" refusesPort, some "DSVDC_PORT", []⟩,
    ⟨"name", none, .value "NAME" fun _ => none, none, []⟩]
  subcommands := []

/-- The settings that a command line stands for. -/
def ofParsed (p : Parsed) : Settings where
  dsuid := p.value? "dsuid"
  randomDsuid := p.has "random-dsuid"
  port := (p.value? "port").bind fun text => (port? text).toOption
  name := (p.value? "name").getD productName

/-- Reads a command line. -/
def parse (environment : String → Option String) (arguments : List String) :
    Except Stop Settings :=
  (grammar.parse environment arguments).map ofParsed

/-- The identity of the lamp that is not given one. -/
def defaultIdentity : Identity :=
  ⟨"198C033E330755E78015F97AD093DD1C00", "198C033E330755E78015F97AD093DD1C01"⟩

/-- The identity that the settings ask for, out of two random dSUIDs if it is to be random; or why
there is none. -/
def identity (s : Settings) (random : Identity) : Except String Identity :=
  match s.dsuid with
  | some text => do
    let container ← (Dsuid.parse text).mapError Error.message
    let lamp ← (Dsuid.sibling container).mapError IntegerFault.message
    return ⟨container, lamp⟩
  | none => .ok (if s.randomDsuid then random else defaultIdentity)

/-- How the program ends without an endpoint. -/
def failure (headline : String) (cause : String) : Exit :=
  .failure headline [cause]

/-- The port to try first. -/
def firstPort (s : Settings) : UInt16 :=
  { Config.default with port := s.port.getD 0 }.firstPort

/-- The settings and the identity that a command line asks for. -/
def prepare (environment : String → Option String) (arguments : List String) (random : Identity) :
    Except Exit (Settings × Identity) := do
  let settings ← (parse environment arguments).mapError (·.exit grammar)
  let identity ← (settings.identity random).mapError (failure "Invalid --dsuid")
  return (settings, identity)

/-- Opens the endpoint under an identity, on the port it listens on. -/
def openOn (s : Settings) (identity : Identity) (port : UInt16) : Except Exit (Endpoint Lamp) :=
  match Lamp.start identity.container identity.lamp s.name port with
  | .ready endpoint => .ok endpoint
  | .refused e => .error (failure "Failed to set up the endpoint" e.message)
  | .endless => .error (.failure "Failed to set up the endpoint" [])

/-- Opens the endpoint that a command line asks for, on the first port. -/
def start (environment : String → Option String) (arguments : List String) (random : Identity) :
    Except Exit (Endpoint Lamp) := do
  let (settings, identity) ← prepare environment arguments random
  settings.openOn identity settings.firstPort

end Settings

end Vdc.Lamp
