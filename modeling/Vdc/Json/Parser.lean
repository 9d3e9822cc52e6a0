import Vdc.Json.Token

/-!
# Reading JSON

The parser is an automaton over tokens with a stack of the containers that are open. One token
changes the state or is refused, and the text is one value if the run over all its tokens ends with
nothing open. There is no limit on nesting here: `Json.parse` takes every well-formed text, and
`Json.read` those within the limit and with a value in every part.
-/

namespace Vdc.Json

/-- A container that is open, what it holds so far in reverse. An object with an unreadable key has
no entries any more. -/
inductive Level where
  | array (items : List Json)
  | object (entries : Option (List (String × Json)))
  | member (entries : Option (List (String × Json))) (name : Option String)
deriving Repr

/-- What must come next, inside the open containers. -/
inductive Parser where
  /-- A value. -/
  | value (levels : List Level)
  /-- A value or the end of the array. -/
  | item (levels : List Level)
  /-- A key, or the end of the object if it may come. -/
  | key (mayClose : Bool) (levels : List Level)
  /-- The colon after a key. -/
  | colon (levels : List Level)
  /-- A comma or the end of the container. -/
  | separator (levels : List Level)
  /-- Nothing: the value is complete. -/
  | done (json : Json)
deriving Repr

namespace Parser

/-- The object with these entries, unreadable if a key was. -/
def closeObject : Option (List (String × Json)) → Json
  | some entries => .object entries.reverse
  | none => .unreadable

/-- An entry more, unless a key is unreadable. -/
def insert (entries : Option (List (String × Json))) (name : Option String) (value : Json) :
    Option (List (String × Json)) :=
  match entries, name with
  | some entries, some name => some ((name, value) :: entries)
  | _, _ => none

/-- A complete value inside the open containers. -/
def complete (value : Json) : List Level → Option Parser
  | [] => some (.done value)
  | .array items :: levels => some (.separator (.array (value :: items) :: levels))
  | .member entries name :: levels =>
    some (.separator (.object (insert entries name value) :: levels))
  | .object _ :: _ => none

/-- The first token of a value. -/
def begin (levels : List Level) : Token → Option Parser
  | .null => complete .null levels
  | .boolean b => complete (.boolean b) levels
  | .number (some n) => complete (.number n) levels
  | .number none => complete .unreadable levels
  | .text (some s) => complete (.text s) levels
  | .text none => complete .unreadable levels
  | .openArray => some (.item (.array [] :: levels))
  | .openObject => some (.key true (.object (some []) :: levels))
  | _ => none

/-- Takes one token. -/
def step : Parser → Token → Option Parser
  | .value levels, token => begin levels token
  | .item (.array items :: levels), .closeArray => complete (.array items.reverse) levels
  | .item levels, token => begin levels token
  | .key _ (.object entries :: levels), .text name => some (.colon (.member entries name :: levels))
  | .key true (.object entries :: levels), .closeObject => complete (closeObject entries) levels
  | .colon levels, .colon => some (.value levels)
  | .separator (.array items :: levels), .comma => some (.value (.array items :: levels))
  | .separator (.array items :: levels), .closeArray => complete (.array items.reverse) levels
  | .separator (.object entries :: levels), .comma => some (.key false (.object entries :: levels))
  | .separator (.object entries :: levels), .closeObject => complete (closeObject entries) levels
  | _, _ => none

/-- Takes some tokens one after the other. -/
def run (p : Parser) (tokens : List Token) : Option Parser :=
  tokens.foldlM step p

/-- The value, once it is complete. -/
def result? : Parser → Option Json
  | .done json => some json
  | _ => none

theorem run_append (p : Parser) (a b : List Token) : p.run (a ++ b) = (p.run a).bind (·.run b) :=
  List.foldlM_append

end Parser

/-- The value of a sequence of tokens. -/
def ofTokens? (tokens : List Token) : Option Json :=
  ((Parser.value []).run tokens).bind Parser.result?

/-- The value of a well-formed text. -/
def parse (bytes : List UInt8) : Option Json :=
  (tokens? bytes).bind ofTokens?

/-- The most arrays and objects that may stand inside one another. -/
def maxNesting : Nat := 127

/-- The value of a text that is readable in all its parts and not nested too deep. -/
def read (bytes : List UInt8) : Option Json :=
  (parse bytes).filter fun json => json.isReadable && decide (json.nesting ≤ maxNesting)

end Vdc.Json
