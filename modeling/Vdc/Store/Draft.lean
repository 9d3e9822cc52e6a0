import Vdc.Store.Basic

/-!
# Drafts

A file is replaced in steps, and each of them can fail: a draft is made in the folder of the file,
the new content is written to it, it is brought to the disk, and at last it is moved to where the
file stands. A draft that was not moved is removed. `Folder.overwrite` takes these steps one after
the other, and `Store.commit` saves a tree in that way; a folder and a store are returned also when
they fail.

The temporary files that serve as drafts are not made here. `Drafts` is what is used of them, and
`Drafts.Lawful` what may be relied on. `Drafts.within` are those of a disk that can be full.
-/

namespace Vdc

/-- What is used of temporary files. Whatever is done with one is told with the folder after it. -/
structure Drafts where
  /-- Makes an empty file in the folder at a place and returns its name. -/
  create : Folder → Place → Except TransportFault String × Folder
  /-- Writes a content to a file that is empty. -/
  write : Folder → Place → List UInt8 → Except TransportFault Unit × Folder
  /-- Brings what was written to the disk. -/
  sync : Folder → Place → Except TransportFault Unit × Folder
  /-- Moves a file to where a path leads. -/
  persist : Folder → Place → Folder.Path → Except TransportFault Unit × Folder
  /-- Gives up a file that was not moved. -/
  discard : Folder → Place → Folder

namespace Drafts

/-- What temporary files are relied on for. They get names that are free, they can be written in
part, those that are given up are removed, and a move that fails leaves everything in its place. -/
structure Lawful (drafts : Drafts) : Prop where
  create_error {f f' : Folder} {place : Place} {fault : TransportFault} :
    drafts.create f place = (.error fault, f') → f' = f
  create_ok {f f' : Folder} {place : Place} {name : String} :
    drafts.create f place = (.ok name, f') →
      f.find? (place ++ [name]) = none ∧ f' = f.put (place ++ [name]) (.file [])
  write_error {f f' : Folder} {draft : Place} {content : List UInt8} {fault : TransportFault} :
    f.find? draft = some (.file []) → drafts.write f draft content = (.error fault, f') →
      ∃ written, written <+: content ∧ f' = f.put draft (.file written)
  write_ok {f f' : Folder} {draft : Place} {content : List UInt8} :
    f.find? draft = some (.file []) → drafts.write f draft content = (.ok (), f') →
      f' = f.put draft (.file content)
  sync_eq (f : Folder) (draft : Place) : (drafts.sync f draft).2 = f
  persist_error {f f' : Folder} {draft : Place} {path : Folder.Path} {fault : TransportFault} :
    drafts.persist f draft path = (.error fault, f') → f' = f
  persist_ok {f f' : Folder} {draft : Place} {path : Folder.Path} {content : List UInt8} :
    f.find? draft = some (.file content) → drafts.persist f draft path = (.ok (), f') →
      (f.remove draft).moveOver path content = .ok f'
  discard_eq {f : Folder} {draft : Place} {content : List UInt8} :
    f.find? draft = some (.file content) → drafts.discard f draft = f.remove draft

/-- Writes a draft and moves it to where a path leads. -/
def deliver (drafts : Drafts) (f : Folder) (draft : Place) (content : List UInt8)
    (path : Folder.Path) : Except TransportFault Unit × Folder :=
  match drafts.write f draft content with
  | (.error fault, f) => (.error fault, f)
  | (.ok _, f) =>
    match drafts.sync f draft with
    | (.error fault, f) => (.error fault, f)
    | (.ok _, f) => drafts.persist f draft path

/-- The temporary files of a disk that has room for so many bytes. A file gets the first of some
names that is free. -/
def within (room : Nat) (names : List String) : Drafts where
  create f place :=
    match names.find? fun name => f.find? (place ++ [name]) = none with
    | some name => (.ok name, f.put (place ++ [name]) (.file []))
    | none => (.error .alreadyExists, f)
  write f draft content :=
    if content.length ≤ room then (.ok (), f.put draft (.file content))
    else (.error .storageFull, f.put draft (.file (content.take room)))
  sync f _ := (.ok (), f)
  persist f draft path :=
    match f.find? draft with
    | some (.file content) =>
      match (f.remove draft).moveOver path content with
      | .ok f' => (.ok (), f')
      | .error fault => (.error fault, f)
    | _ => (.error .notFound, f)
  discard f draft := f.remove draft

end Drafts

/-- Replaces a file as a whole, or makes it, by way of a draft. -/
def Folder.overwrite (f : Folder) (drafts : Drafts) (name : String) (content : List UInt8) :
    Except TransportFault Unit × Folder :=
  match f.beside name with
  | .error fault => (.error fault, f)
  | .ok (path, place) =>
    match drafts.create f place with
    | (.error fault, f) => (.error fault, f)
    | (.ok own, f) =>
      let draft := place ++ [own]
      match drafts.deliver f draft content path with
      | (.error fault, f) => (.error fault, drafts.discard f draft)
      | (.ok _, f) => (.ok (), f)

/-- Puts a tree under a key and writes the file, by way of a draft. -/
def Store.commit (s : Store) (drafts : Drafts) (folder : Folder) (key : String) (tree : Property) :
    Except Error Unit × Store × Folder :=
  if !s.writable then (.error (.parameter (.readOnly s.path)), s, folder)
  else
    let records := s.records.insert key tree.toElements
    match records.encode with
    | .error e => (.error e, s, folder)
    | .ok content =>
      match folder.overwrite drafts s.name content with
      | (.error fault, folder) => (.error (.ofFault fault), s, folder)
      | (.ok _, folder) => (.ok (), { s with records := records }, folder)

end Vdc
