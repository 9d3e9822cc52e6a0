import Vdc.Address.Basic
import Vdc.CommandLine
import Vdc.Config
import Vdc.Probe.Assignment

/-!
# Settings of the probe

What the probe is asked to do, and the command line that says so.
-/

namespace Vdc.Probe

open CommandLine

/-- When output is coloured. -/
inductive Color where
  | on
  | off
  | auto
deriving DecidableEq, Repr

/-- What the probe does once a session is open. -/
inductive Command where
  | hello
  /-- Ping a device, or the endpoint itself. -/
  | ping (dsuid : Option String)
  | getProperty (dsuid : String) (names : List String)
  | setProperty (dsuid : String) (assignments : List Assignment)
  | watch
  | completions (shell : String)
deriving DecidableEq, Repr

/-- The settings of the probe. -/
structure Settings where
  address : String
  /-- The name that the probe introduces itself with. -/
  dsuid : String
  /-- Seconds to wait for each reply. -/
  timeout : Nat
  color : Color
  command : Command
deriving DecidableEq, Repr

namespace Settings

/-- The address of an endpoint on this machine. -/
def defaultAddress : String := "127.0.0.1:49500"

/-- The name that the probe introduces itself with unless told otherwise. -/
def defaultDsuid : String := "0000000000000000000000000000000000"

/-- The shells that there are completions for. -/
def shells : List String := ["bash", "elvish", "fish", "powershell", "zsh"]

/-- The colour setting with a name. -/
def color? (text : String) : Option Color :=
  [("on", Color.on), ("off", .off), ("auto", .auto)].lookup text

/-- Accepts every value. -/
def anything (_ : String) : Option Refusal := none

/-- Refuses all values but those in a list. -/
def oneOf (choices : List String) (text : String) : Option Refusal :=
  if choices.contains text then none else some .noChoice

/-- Refuses what is no number of seconds. -/
def refusesTimeout (text : String) : Option Refusal :=
  match natOfText? (2 ^ 64 - 1) (Utf8.encode text) with
  | .ok _ => none
  | .error fault => some (.because fault.message)

/-- Refuses what is no assignment. -/
def refusesAssignment (text : String) : Option Refusal :=
  match Assignment.parse text with
  | .ok _ => none
  | .error fault => some (.because fault.message)

/-- What may be written on the command line of the probe. -/
def grammar : Grammar where
  program := "dsvdc"
  version := "0.3.0"
  about := "Talk to a vDC endpoint as a session manager"
  flags := [
    ⟨"address", some 'a', .value "ADDRESS" anything, some "DSVDC_ADDRESS", []⟩,
    ⟨"vdsm", none, .value "VDSM" anything, some "DSVDC_VDSM_DSUID", []⟩,
    ⟨"timeout", some 't', .value "TIMEOUT" refusesTimeout, none, []⟩,
    ⟨"color", none, .value "COLOR" (oneOf ["on", "off", "auto"]), none, []⟩]
  subcommands := [
    ⟨"hello", []⟩,
    ⟨"ping", [⟨"DSUID", .optional, anything⟩]⟩,
    ⟨"get-property", [⟨"DSUID", .one, anything⟩, ⟨"NAMES", .many, anything⟩]⟩,
    ⟨"set-property", [⟨"DSUID", .one, anything⟩, ⟨"VALUES", .oneOrMore, refusesAssignment⟩]⟩,
    ⟨"watch", []⟩,
    ⟨"completions", [⟨"SHELL", .one, oneOf shells⟩]⟩]

/-- The command that a subcommand with its operands stands for. -/
def command? : String × List (List String) → Option Command
  | ("hello", _) => some .hello
  | ("ping", [dsuid]) => some (.ping dsuid.head?)
  | ("get-property", [[dsuid], names]) => some (.getProperty dsuid names)
  | ("set-property", [[dsuid], values]) =>
    some (.setProperty dsuid (values.filterMap fun text => (Assignment.parse text).toOption))
  | ("watch", _) => some .watch
  | ("completions", [[shell]]) => some (.completions shell)
  | _ => none

/-- The settings that a command line stands for. -/
def ofParsed (p : Parsed) : Option Settings := do
  let command ← p.subcommand.bind command?
  let timeout := (p.value? "timeout").bind fun text =>
    (natOfText? (2 ^ 64 - 1) (Utf8.encode text)).toOption
  return {
    address := (p.value? "address").getD defaultAddress
    dsuid := (p.value? "vdsm").getD defaultDsuid
    timeout := timeout.getD 5
    color := ((p.value? "color").bind color?).getD .auto
    command := command }

/-- Reads a command line. -/
def parse (environment : String → Option String) (arguments : List String) :
    Except Stop Settings := do
  match ofParsed (← grammar.parse environment arguments) with
  | some settings => return settings
  | none => throw (.mistaken .missingArguments)

/-- The address of the endpoint to talk to, or how the program ends without one. -/
def endpoint (s : Settings) : Except Exit Address :=
  match Address.parse? s.address with
  | some address => .ok address
  | none =>
    let shown := s.address
    .error (.failure (s!"Failed to resolve '{shown}'") [])

/-- The name of the host and the port of the endpoint, for an address that has a name in it. -/
def named? (s : Settings) : Option (String × UInt16) := do
  let (host, port) ← Address.divide? (Utf8.encode s.address)
  return (← Utf8.decode? host, port)

/-- How the program ends if the endpoint cannot be reached. -/
def unreachable (endpoint : Address) : Exit :=
  let shown := endpoint.toText
  .failure (s!"Failed to connect to '{shown}'") []

end Settings

end Vdc.Probe
