import Vdc.Error
import Vdc.Text.Parts

/-!
# Folders

What a property store needs of a file system: a folder of files and folders, named by their paths
from it, in which a file is read as a whole and replaced as a whole. A replacement happens or fails;
when it fails, for whatever reason, the folder is what it was.

A path is walked part by part from the folder, or from the outermost one if it begins with a slash.
Every part but the last has to lead to a folder; a point stays where the walk is, and so does an
empty part, and two points go back. Paths may leave the folder for the one that it stands in.
Different paths may so lead to one place, and what stands there is found by all of them.
-/

namespace Vdc

/-- What stands at a place. -/
inductive FileEntry where
  | file (content : List UInt8)
  | folder
deriving DecidableEq, Repr

/-- A place in a file system: the names on the way to it from the outermost folder. -/
abbrev Place := List String

namespace Place

/-- The place of the folder itself, which no path names. -/
def home : Place := [""]

end Place

/-- A folder, the path that it is shown with, and what stands at the places in and around it. -/
structure Folder where
  root : String
  entries : List (Place × FileEntry)
  /-- What every replacement fails with at present, if anything. -/
  fault : Option TransportFault
deriving DecidableEq, Repr

namespace Folder

/-- An empty folder. -/
def empty (root : String) : Folder := ⟨root, [], none⟩

/-- Whether a path begins at the outermost folder. -/
def isAbsolute (name : String) : Bool := name.startsWith "/"

/-- The path of a file as it is shown. -/
def pathOf (f : Folder) (name : String) : String :=
  let root := f.root
  if isAbsolute name then name else s!"{root}/{name}"

/-- What stands at a place. The folder and the one around it are always there. -/
def find? (f : Folder) (place : Place) : Option FileEntry :=
  if place = [] ∨ place = Place.home then some .folder
  else (f.entries.find? (·.1 == place)).map (·.2)

/-- Puts something at a place, whatever stood there. -/
def put (f : Folder) (place : Place) (entry : FileEntry) : Folder :=
  { f with entries := (place, entry) :: f.entries.filter (·.1 != place) }

/-- Removes what stands at a place. -/
def remove (f : Folder) (place : Place) : Folder :=
  { f with entries := f.entries.filter (·.1 != place) }

/-- The names in the folder, in order. -/
def names (f : Folder) : List String :=
  let name? (entry : Place × FileEntry) : Option String :=
    if entry.1.dropLast = Place.home then entry.1.getLast? else none
  (f.entries.filterMap name?).mergeSort fun a b => decide (a ≤ b)

/-! ## Walking paths -/

/-- The most bytes that a name has. -/
def maxName : Nat := 255

/-- The most bytes that a path has. -/
def maxPath : Nat := 4095

/-- Whether a part of a path stays where the walk is. -/
def stays (part : String) : Bool := part = "" || part = "."

/-- The place that a part of a path leads to from a folder. -/
def enter (f : Folder) (place : Place) (part : String) : Except TransportFault Place :=
  match f.find? place with
  | none => .error .notFound
  | some (.file _) => .error .notADirectory
  | some .folder =>
    if stays part then .ok place
    else if part = ".." then .ok place.dropLast
    else if maxName < part.utf8ByteSize then .error .invalidFilename
    else .ok (place ++ [part])

/-- Where a path begins, and its parts. -/
structure Path where
  start : Place
  parts : List String

/-- Takes a path apart. -/
def path (f : Folder) (name : String) : Except TransportFault Path :=
  if name.contains '\x00' then .error .invalidInput
  else if maxPath < (f.pathOf name).utf8ByteSize then .error .invalidFilename
  else
    .ok ⟨if isAbsolute name then [] else Place.home,
      (Parts.split '/' name.toList).map String.ofList⟩

/-- The place that a path leads to. -/
def walk (f : Folder) (path : Path) : Except TransportFault Place :=
  path.parts.foldlM f.enter path.start

/-- The place that the path with a name leads to. -/
def resolve (f : Folder) (name : String) : Except TransportFault Place := do
  f.walk (← f.path name)

/-- What a path leads to. -/
def lookup (f : Folder) (name : String) : Except TransportFault FileEntry := do
  match f.find? (← f.resolve name) with
  | some entry => return entry
  | none => throw .notFound

/-! ## Changes -/

/-- Writes a file, or makes it. -/
def write (f : Folder) (name : String) (content : List UInt8) : Except TransportFault Folder := do
  let place ← f.resolve name
  if f.find? place = some .folder then throw .isADirectory
  return f.put place (.file content)

/-- Makes a folder and those on the way to it, as far as they are missing. -/
def makeFolder (f : Folder) (name : String) : Except TransportFault Folder := do
  let path ← f.path name
  let (f, place) ← path.parts.foldlM (fun (f, place) part => do
    let next ← f.enter place part
    return (if f.find? next = none then f.put next .folder else f, next)) (f, path.start)
  if f.find? place = some .folder then return f else throw .alreadyExists

/-- Moves a file to where a path leads, over a file that is there. The path has to end in a name. -/
def moveOver (f : Folder) (path : Path) (content : List UInt8) : Except TransportFault Folder := do
  let slashes := path.parts.reverse.takeWhile (· == "")
  let named := path.parts.take (path.parts.length - slashes.length)
  let folder ← f.walk { path with parts := named.dropLast }
  let name := named.getLast?.getD "."
  let place ← f.enter folder name
  if stays name || name = ".." then throw .resourceBusy
  if !slashes.isEmpty then throw .notADirectory
  if f.find? place = some .folder then throw .isADirectory
  return f.put place (.file content)

/-- A path, and the place of the folder beside whose files a new content for it is written. -/
def beside (f : Folder) (name : String) : Except TransportFault (Path × Place) := do
  let path ← f.path name
  let place ← f.walk { path with parts := (path.parts.filter (!stays ·)).dropLast }
  discard (f.enter place ".")
  return (path, place)

/-- Replaces a file as a whole, or makes it. The new content is first written beside the place where
the path leads, and then moved there. -/
def replace (f : Folder) (name : String) (content : List UInt8) : Except TransportFault Folder := do
  let (path, _) ← f.beside name
  if let some fault := f.fault then throw fault
  f.moveOver path content

end Folder

end Vdc
