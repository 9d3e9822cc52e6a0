import Vdc.Property.Tree
import Vdc.Json.Printer
import Vdc.Store.Folder

/-!
# Property stores

A store keeps property trees under text keys in one file: an indented JSON object with the keys in
order, each with the list of its elements. Every save writes the whole file anew from what the store
holds, and the store changes only once the file has.

Saving takes trees of any depth, reading is held to the nesting limit of all JSON, so a tree that is
nested too deep makes the file unreadable.
-/

namespace Vdc

/-- The lists of elements under the keys of a store, in the order of the keys. -/
abbrev Records := List (String × List Element)

namespace Records

/-- Puts a list of elements under a key, in place of the one that was there. -/
def insert (key : String) (elements : List Element) : Records → Records
  | [] => [(key, elements)]
  | (k, es) :: rest =>
    if key < k then (key, elements) :: (k, es) :: rest
    else if key = k then (key, elements) :: rest
    else (k, es) :: insert key elements rest

/-- What stands under a key. -/
def find? (records : Records) (key : String) : Option (List Element) :=
  records.lookup key

/-- The records as JSON. -/
def toJson (records : Records) : Json :=
  .object (records.map fun record => (record.1, .array (Element.listToJson record.2)))

/-- Reads records: an object of lists of elements. Under a repeated key the last list stands. -/
def ofJson? : Json → Option Records
  | .object entries =>
    entries.foldlM (fun records entry => do
      return insert entry.1 (← Element.listOfJson? (Json.maxNesting - 1) entry.2) records) []
  | _ => none

/-- The content of a file with these records; a number that is not finite has none. -/
def encode (records : Records) : Except Error (List UInt8) :=
  match (toJson records).firstNonFinite? with
  | some d => .error (.parameter (.nonFinite d))
  | none => .ok ((toJson records).indent 0 ++ [0x0a])

/-- Reads the content of a file. -/
def decode (content : List UInt8) : Except Error Records :=
  match (Json.parse content).bind ofJson? with
  | some records => .ok records
  | none => .error (.protocol .malformed)

end Records

/-- An open store. -/
structure Store where
  /-- The file it is kept in. -/
  name : String
  /-- The path of the file as it is shown. -/
  path : String
  writable : Bool
  records : Records
deriving DecidableEq, Repr

namespace Store

/-- Opens the store that is kept in a file. A store that is to be written may begin without one. -/
def ofFolder (folder : Folder) (name : String) (writable : Bool) : Except Error Store :=
  match folder.lookup name with
  | .ok (.file content) => (Records.decode content).map (⟨name, folder.pathOf name, writable, ·⟩)
  | .ok .folder => .error (.protocol .malformed)
  | .error .notFound =>
    if writable then .ok ⟨name, folder.pathOf name, writable, []⟩
    else .error (.notFound (folder.pathOf name))
  | .error fault => .error (.ofFault fault)

/-- The keys in order. -/
def keys (s : Store) : List String := s.records.map (·.1)

/-- The tree under a key. -/
def load (s : Store) (key : String) : Except Error Property :=
  match s.records.find? key with
  | some elements => Property.ofElements? elements
  | none => .error (.notFound key)

/-- Puts a tree under a key and writes the file. -/
def save (s : Store) (folder : Folder) (key : String) (tree : Property) :
    Except Error (Store × Folder) :=
  if !s.writable then .error (.parameter (.readOnly s.path))
  else do
    let records := s.records.insert key tree.toElements
    let content ← Records.encode records
    match folder.replace s.name content with
    | .ok folder => return ({ s with records := records }, folder)
    | .error fault => throw (.ofFault fault)

end Store

end Vdc
