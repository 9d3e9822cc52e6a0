import Vdc.Property.Tree

/-!
# Property rows

The older shape of a property: a named list of rows, each row a list of named values. Rows are
filled in any order, and an index that was skipped stays missing. The rows are sound if there is
one, none is missing, and all have as many values as the first, which has at least one; only then
do they become a property tree, one nameless node for each row.
-/

namespace Vdc

/-- Rows of named values, some of which may be missing. -/
structure Rows where
  name : String
  requestId : UInt32
  rows : List (Option (List Node))
deriving Repr, Inhabited

namespace Rows

/-- Rows of this number, all empty, answering no request. -/
def new (name : String) (count : Nat) : Rows :=
  ⟨name, reservedId, List.replicate count (some [])⟩

/-- No rows yet, for the answer that a tree was handed out for. -/
def forResponse (response : Property) (name : String) : Rows :=
  ⟨name, response.requestId, []⟩

/-- How many rows there are, missing ones included. -/
def size (r : Rows) : Nat := r.rows.length

/-- Puts a value at the end of the row at an index; rows that come into being before it are
missing. -/
def addTo (node : Node) : Nat → List (Option (List Node)) → List (Option (List Node))
  | 0, [] => [some [node]]
  | 0, row :: rest => some (row.getD [] ++ [node]) :: rest
  | index + 1, [] => none :: addTo node index []
  | index + 1, row :: rest => row :: addTo node index rest

/-- Adds a named value to the row at an index. -/
def add (r : Rows) (index : Nat) (key : String) (value : Value) : Rows :=
  { r with rows := addTo (.leaf (some key) value) index r.rows }

/-- Checks the rows from an index on against the width of the first. -/
def checkFrom (width : Nat) : Nat → List (Option (List Node)) → Except RowsFault Unit
  | _, [] => .ok ()
  | index, none :: _ => .error (.missing index)
  | index, some row :: rest =>
    if row.length = width then checkFrom width (index + 1) rest
    else .error (.width index row.length width)

/-- Whether the rows are sound, and what is wrong with them if not. -/
def check (r : Rows) : Except RowsFault Unit :=
  match r.rows with
  | [] => .error .noRows
  | none :: _ => .error (.missing 0)
  | some [] :: _ => .error .noElements
  | some (node :: row) :: rest => checkFrom (node :: row).length 1 rest

/-- Whether the rows are sound. -/
def isSound (r : Rows) : Bool :=
  match r.check with
  | .ok _ => true
  | .error _ => false

/-- The tree of sound rows: one node, named like the rows, with a nameless node for each row. -/
def toProperty? (r : Rows) : Except Error Property :=
  match r.check with
  | .error fault => .error (.structural fault)
  | .ok _ =>
    let children := r.rows.filterMap fun row => row.map (Node.branch none)
    .ok ⟨r.requestId, [.branch (some r.name) children]⟩

end Rows

end Vdc
