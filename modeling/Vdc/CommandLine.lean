import Vdc.Text.Terminal

/-!
# Command lines

A command line is a list of flags, some with a value, and possibly the name of a subcommand with its
operands. Flags are long or a single letter; a value follows its flag as the next argument, after an
equals sign, or directly after the letter. After two dashes everything is an operand.

Arguments are taken up from the left. What was read last, a flag that may still lack its value or
an operand that may still go on, is settled by what comes after it. The last flag before a
subcommand is settled only after the operands of the subcommand were, so of two mistakes the one in
the operands is reported. An environment variable stands in for a flag that is not given.

Mistakes are reported in text for a terminal, with the words of the command line highlighted, and
written as plain text.
-/

namespace Vdc.CommandLine

/-- Why a value is refused. -/
inductive Refusal where
  /-- It is none of the values there are. -/
  | noChoice
  | because (reason : String)
deriving DecidableEq, Repr

/-- What a flag is for. -/
inductive FlagKind where
  | switch
  /-- A flag with a value, the name of the value in usage texts, and which values are refused. -/
  | value (name : String) (refuses : String → Option Refusal)
  | help
  | version

/-- A flag. -/
structure Flag where
  long : String
  short : Option Char
  kind : FlagKind
  /-- The environment variable that stands in for the flag. -/
  standIn : Option String
  /-- The long names of flags it cannot be used with. -/
  excludes : List String

/-- How many arguments an operand stands for. -/
inductive Arity where
  | one
  | optional
  | many
  | oneOrMore
deriving DecidableEq, Repr

/-- An operand of a subcommand. -/
structure Operand where
  name : String
  arity : Arity
  refuses : String → Option Refusal

/-- A subcommand and its operands. Only the last operand may stand for many arguments. -/
structure Subcommand where
  name : String
  operands : List Operand

/-- What may be written on a command line. -/
structure Grammar where
  program : String
  version : String
  about : String
  flags : List Flag
  subcommands : List Subcommand

/-- What is wrong with a command line. -/
inductive UsageError where
  | unexpectedArgument (shown : String)
  | unrecognizedSubcommand (shown : String)
  | missingSubcommand (program : String)
  | missingArguments
  | missingValue (argument : String)
  | invalidValue (value argument : String) (reason : Option String)
  | unneededValue (value argument : String)
  | repeated (argument : String)
  | conflict (argument other : String)
deriving DecidableEq, Repr

namespace UsageError

open Terminal

/-- The mistake in words. A reason is part of the text around it, what was written stands out. -/
def message : UsageError → String
  | .unexpectedArgument shown => s!"unexpected argument '{highlight shown}' found"
  | .unrecognizedSubcommand shown => s!"unrecognized subcommand '{highlight shown}'"
  | .missingSubcommand program =>
    s!"'{highlight program}' requires a subcommand but one was not provided"
  | .missingArguments => "the following required arguments were not provided:"
  | .missingValue argument =>
    s!"a value is required for '{highlight argument}' but none was supplied"
  | .invalidValue value argument none =>
    s!"invalid value '{highlight value}' for '{highlight argument}'"
  | .invalidValue value argument (some reason) =>
    s!"invalid value '{highlight value}' for '{highlight argument}': {reason}"
  | .unneededValue value argument =>
    let value := highlight value
    s!"unexpected value '{value}' for '{highlight argument}' found; no more were expected"
  | .repeated argument =>
    s!"the argument '{highlight argument}' cannot be used multiple times"
  | .conflict argument other =>
    s!"the argument '{highlight argument}' cannot be used with '{highlight other}'"

/-- All that is said about the mistake. -/
def report (e : UsageError) : String :=
  let hint := highlight "--help"
  s!"error: {e.message}\n\nFor more information, try '{hint}'.\n"

end UsageError

/-- Why a command line is not carried out. -/
inductive Stop where
  | mistaken (error : UsageError)
  | help
  | version
deriving DecidableEq, Repr

/-- What a command line says: the flags that are given with their values, and the subcommand with
the arguments of each of its operands. -/
structure Parsed where
  flags : List (String × Option String)
  subcommand : Option (String × List (List String))
deriving DecidableEq, Repr

namespace Parsed

/-- The value of a flag. -/
def value? (p : Parsed) (long : String) : Option String :=
  (p.flags.lookup long).join

/-- Whether a flag is given. -/
def has (p : Parsed) (long : String) : Bool :=
  (p.flags.lookup long).isSome

end Parsed

/-! ## Shown forms -/

/-- A flag as usage texts show it. -/
def Flag.shown (f : Flag) : String :=
  let long := f.long
  match f.kind with
  | .value name _ => s!"--{long} <{name}>"
  | _ => s!"--{long}"

/-- Whether a flag takes a value. -/
def Flag.takesValue (f : Flag) : Bool :=
  match f.kind with
  | .value _ _ => true
  | _ => false

/-- An operand as usage texts show it. -/
def Operand.shown (o : Operand) : String :=
  let name := o.name
  match o.arity with
  | .one => s!"<{name}>"
  | .optional => s!"[{name}]"
  | .many => s!"[{name}]..."
  | .oneOrMore => s!"<{name}>..."

/-- The error for a value that is refused. An empty value that cannot be chosen counts as none. -/
def Refusal.error (value argument : String) : Refusal → UsageError
  | .because reason => .invalidValue value argument (some reason)
  | .noChoice => if value.isEmpty then .missingValue argument else .invalidValue value argument none

/-! ## Forms of arguments -/

/-- What an argument looks like. -/
inductive Form where
  /-- Two dashes alone. -/
  | dashes
  | long (name : String) (value : Option String)
  /-- Letters after one dash. -/
  | letters (letters : List Char)
  | plain
deriving DecidableEq, Repr

/-- Splits at the first equals sign. -/
def splitEquals (cs : List Char) : List Char × Option (List Char) :=
  match cs.dropWhile (· != '=') with
  | _ :: value => (cs.takeWhile (· != '='), some value)
  | [] => (cs, none)

/-- The form of an argument. -/
def Form.of (argument : String) : Form :=
  match argument.toList with
  | ['-', '-'] => .dashes
  | '-' :: '-' :: rest =>
    let (name, value) := splitEquals rest
    .long (String.ofList name) (value.map String.ofList)
  | '-' :: c :: rest => .letters (c :: rest)
  | _ => .plain

/-! ## Ends -/

/-- How a program ends: its exit code, and what it writes last. -/
structure Exit where
  code : UInt8
  out : String
  err : String
deriving DecidableEq, Repr

namespace Exit

/-- The end of a program that did what it was asked to. -/
def success : Exit := ⟨0, "", ""⟩

/-- The end of a program that failed, with what it failed at and the causes behind that. -/
def failure (headline : String) (causes : List String) : Exit :=
  let behind := String.join (causes.map fun cause => "    " ++ cause ++ "\n")
  let text := if causes.isEmpty then "" else "\nCaused by:\n" ++ behind
  ⟨1, "", "Error: " ++ headline ++ "\n" ++ text⟩

end Exit

/-- How a program ends that does not carry out its command line. -/
def Stop.exit (g : Grammar) : Stop → Exit
  | .mistaken error => ⟨2, "", Terminal.plain error.report⟩
  | .help => ⟨0, g.about ++ "\n", ""⟩
  | .version => ⟨0, g.program ++ " " ++ g.version ++ "\n", ""⟩

/-! ## Operands -/

/-- Whether an operand may stand for more than one argument. -/
def Operand.takesMany (o : Operand) : Bool :=
  o.arity = .many || o.arity = .oneOrMore

/-- Whether an operand must be given. -/
def Operand.isRequired (o : Operand) : Bool :=
  o.arity = .one || o.arity = .oneOrMore

/-- The operands read so far: those that are settled with their arguments, the last one, which may
still get more, and those to come. -/
structure OperandReading where
  settled : List (Operand × List String)
  pending : Option (Operand × List String)
  coming : List Operand

namespace OperandReading

/-- Settles the last operand. Its arguments are checked each by itself. -/
def flush (r : OperandReading) : Except Stop OperandReading :=
  match r.pending with
  | none => .ok r
  | some (operand, arguments) =>
    let mistake? (value : String) : Option UsageError :=
      (operand.refuses value).map (·.error value operand.shown)
    match arguments.findSome? mistake? with
    | some error => .error (.mistaken error)
    | none => .ok { r with settled := r.settled ++ [(operand, arguments)], pending := none }

/-- Begins the next operand. -/
def begin (r : OperandReading) (argument : String) : Except Stop OperandReading :=
  match r.coming with
  | [] => .error (.mistaken (.unexpectedArgument argument))
  | operand :: coming => do
    return { ← r.flush with pending := some (operand, [argument]), coming := coming }

/-- Takes an argument, for the last operand if that stands for many and else for the next one. -/
def take (r : OperandReading) (argument : String) : Except Stop OperandReading :=
  match r.pending with
  | some (operand, arguments) =>
    if operand.takesMany then .ok { r with pending := some (operand, arguments ++ [argument]) }
    else r.begin argument
  | none => r.begin argument

/-- Reads arguments as operands. A request for help is met once the last operand is settled. -/
def read (r : OperandReading) (dashed : Bool) : List String → Except Stop OperandReading
  | [] => r.flush
  | argument :: rest =>
    match if dashed then .plain else Form.of argument with
    | .dashes => r.read true rest
    | .long "help" none => r.flush.bind fun _ => .error .help
    | .long "help" (some value) => .error (.mistaken (.unneededValue value "--help"))
    | .long name _ => .error (.mistaken (.unexpectedArgument ("--" ++ name)))
    | .letters ('h' :: _) => r.flush.bind fun _ => .error .help
    | .letters letters =>
      .error (.mistaken (.unexpectedArgument (String.ofList ('-' :: letters.take 1))))
    | .plain => do (← r.take argument).read dashed rest

end OperandReading

/-- Reads the arguments of a subcommand. -/
def Subcommand.parse (s : Subcommand) (arguments : List String) :
    Except Stop (List (List String)) := do
  let r ← OperandReading.read ⟨[], none, s.operands⟩ false arguments
  if r.coming.any (·.isRequired) then throw (.mistaken .missingArguments)
  return r.settled.map (·.2) ++ r.coming.map fun _ => []

/-! ## Flags -/

/-- The flags read so far: those that are settled, and the last one, which may still lack its
value. -/
structure Reading where
  settled : List (Flag × Option String)
  pending : Option (Flag × Option String)

namespace Reading

/-- Settles a flag with its value. -/
def settle (r : Reading) (flag : Flag) (value : Option String) : Except Stop Reading :=
  match flag.kind, value with
  | .help, _ => .error .help
  | .version, _ => .error .version
  | .value _ _, none => .error (.mistaken (.missingValue flag.shown))
  | kind, value =>
    if r.settled.any fun given => given.1.long == flag.long then
      .error (.mistaken (.repeated flag.shown))
    else
      match kind, value with
      | .value _ refuses, some text =>
        match refuses text with
        | some refusal => .error (.mistaken (refusal.error text flag.shown))
        | none => .ok { r with settled := r.settled ++ [(flag, some text)] }
      | _, _ => .ok { r with settled := r.settled ++ [(flag, none)] }

/-- Settles the last flag. -/
def flush (r : Reading) : Except Stop Reading :=
  match r.pending with
  | none => .ok r
  | some (flag, value) => { r with pending := none }.settle flag value

/-- Whether the next argument is the value of a flag. -/
def awaits (r : Reading) : Bool :=
  match r.pending with
  | some (_, none) => true
  | _ => false

/-- Begins a flag: one without a value is settled at once, and so is one with its value at hand. -/
def begin (r : Reading) (flag : Flag) (value : Option String) : Except Stop Reading := do
  let r ← r.flush
  if flag.takesValue && value.isNone then return { r with pending := some (flag, none) }
  else r.settle flag value

/-- Reads letters after one dash. A letter with a value takes the rest of them, without an equals
sign in front. -/
def letters (flags : List Flag) (r : Reading) : List Char → Except Stop Reading
  | [] => .ok r
  | c :: rest =>
    match flags.find? (·.short == some c) with
    | none => .error (.mistaken (.unexpectedArgument (String.ofList ['-', c])))
    | some flag =>
      if flag.takesValue then
        match rest with
        | [] => r.begin flag none
        | '=' :: value => r.begin flag (some (String.ofList value))
        | value => r.begin flag (some (String.ofList value))
      else do letters flags (← r.begin flag none) rest

/-- Reads a long flag. -/
def long (flags : List Flag) (r : Reading) (name : String) (value : Option String) :
    Except Stop Reading :=
  match flags.find? (·.long == name) with
  | none => .error (.mistaken (.unexpectedArgument ("--" ++ name)))
  | some flag =>
    match flag.takesValue, value with
    | false, some text => .error (.mistaken (.unneededValue text flag.shown))
    | _, value => r.begin flag value

end Reading

namespace Grammar

/-- The flags that every command line has. -/
def standardFlags : List Flag :=
  [⟨"help", some 'h', .help, none, []⟩, ⟨"version", some 'V', .version, none, []⟩]

/-- All flags. -/
def allFlags (g : Grammar) : List Flag := g.flags ++ standardFlags

/-- The names of the subcommands, and help about them. -/
def subcommandNames (g : Grammar) : List String :=
  if g.subcommands.isEmpty then [] else g.subcommands.map (·.name) ++ ["help"]

/-- The error for an argument that is neither a flag nor a value. -/
def stray (g : Grammar) (argument : String) : UsageError :=
  if g.subcommands.isEmpty then .unexpectedArgument argument
  else .unrecognizedSubcommand argument

/-- The error for what follows two dashes, where no operand is taken. -/
def afterDashes (g : Grammar) : List String → Except Stop Unit
  | [] => .ok ()
  | argument :: _ =>
    if g.subcommandNames.contains argument then .error (.mistaken (.unexpectedArgument argument))
    else .error (.mistaken (g.stray argument))

/-- What a request for help about something comes to. There is help about the program and about
each subcommand, and nothing below that. -/
def helpOn (g : Grammar) : List String → Stop
  | [] => .help
  | name :: rest =>
    if !g.subcommandNames.contains name then .mistaken (.unrecognizedSubcommand name)
    else rest.head?.elim .help fun below => .mistaken (.unrecognizedSubcommand below)

/-- Reads flags up to a subcommand, and returns the subcommand with the arguments after it. -/
def readFlags (g : Grammar) (r : Reading) :
    List String → Except Stop (Reading × Option (Subcommand × List String))
  | [] => .ok (r, none)
  | argument :: rest =>
    match if r.awaits then none else g.subcommands.find? (·.name == argument) with
    | some subcommand => .ok (r, some (subcommand, rest))
    | none =>
      match Form.of argument with
      | .dashes => (g.afterDashes rest).map fun _ => (r, none)
      | .long name value => do g.readFlags (← r.long g.allFlags name value) rest
      | .letters letters => do g.readFlags (← r.letters g.allFlags letters) rest
      | .plain =>
        match r.pending with
        | some (flag, none) => g.readFlags { r with pending := some (flag, some argument) } rest
        | _ =>
          if !g.subcommands.isEmpty && argument == "help" then .error (g.helpOn rest)
          else .error (.mistaken (g.stray argument))

/-- Lets environment variables stand in for flags that are not given. -/
def fromEnvironment (environment : String → Option String) (flags : List Flag) (r : Reading) :
    Except Stop Reading :=
  flags.foldlM (fun r flag =>
    match flag.standIn.bind environment with
    | some text =>
      if r.settled.any fun given => given.1.long == flag.long then .ok r
      else r.settle flag (some text)
    | none => .ok r) r

/-- The first two flags that cannot be used together. -/
def conflict? (given : List Flag) : Option UsageError :=
  given.findSome? fun flag =>
    let clashes (other : Flag) : Bool :=
      flag.excludes.contains other.long || other.excludes.contains flag.long
    (given.find? clashes).map fun other => .conflict flag.shown other.shown

/-- Reads a command line. -/
def parse (g : Grammar) (environment : String → Option String) (arguments : List String) :
    Except Stop Parsed := do
  let (r, called) ← g.readFlags ⟨[], none⟩ arguments
  let subcommand ← match called with
    | some (subcommand, rest) =>
      (subcommand.parse rest).map fun dealt => some (subcommand.name, dealt)
    | none => pure none
  let r ← fromEnvironment environment g.flags (← r.flush)
  if subcommand.isNone && !g.subcommands.isEmpty then
    throw (.mistaken (.missingSubcommand g.program))
  if let some error := conflict? (r.settled.map (·.1)) then throw (.mistaken error)
  return ⟨r.settled.map fun given => (given.1.long, given.2), subcommand⟩

end Grammar

end Vdc.CommandLine
