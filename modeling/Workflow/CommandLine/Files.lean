import Workflow.Bindings
import Workflow.Text.Pieces

namespace Workflow.CommandLine

/-- Why a file cannot be read or written. -/
inductive FileError where
  | missing
  | directory
  | notDirectory
  | nameTooLong
  | other (message : String)
  deriving DecidableEq, Repr

/-- The wording of a file error, with the number that the system gives it. -/
def FileError.message : FileError → String
  | .missing => "No such file or directory (os error 2)"
  | .directory => "Is a directory (os error 21)"
  | .notDirectory => "Not a directory (os error 20)"
  | .nameTooLong => "File name too long (os error 36)"
  | .other message => message

/-- Computations that can read and write whole texts by path. -/
class Files (m : Type → Type) where
  read : (path : String) → m (Except FileError String)
  write : (path text : String) → m (Except FileError Unit)

/-- The bytes that a path may have. -/
def maxPathSize : Nat := 4095

/-- The bytes that one name of a path may have. -/
def maxNameSize : Nat := 255

/-- The names of a path. -/
def pathNames (path : String) : List String := (Text.pieces '/' path.toList).map String.ofList

/-- What the names of a place start from: the folder, what the folder lies in, or the root. -/
inductive Origin where
  | folder
  | outside
  | root
  deriving DecidableEq, Repr

/-- A place of the file system: the names that lead to it. -/
structure Place where
  origin : Origin := .folder
  names : List String := []
  deriving DecidableEq, Repr

namespace Place

/-- The place one name further. -/
def child (place : Place) (name : String) : Place := { place with names := place.names ++ [name] }

/-- The place above. The folder lies in a directory whose own place is not known, so that one and
the root are said to lie in themselves. -/
def parent : Place → Place
  | ⟨.folder, []⟩ => ⟨.outside, []⟩
  | ⟨origin, names⟩ => ⟨origin, names.dropLast⟩

/-- Whether a place is another one or above it. -/
def isAbove (place lower : Place) : Bool :=
  place.origin = lower.origin && place.names.isPrefixOf lower.names

/-- The device that is always empty and keeps nothing of what is written to it. -/
def nullDevice : Place := ⟨.root, ["dev", "null"]⟩

/-- The directories that a system has below its root. -/
def standard : List Place :=
  ["bin", "boot", "dev", "etc", "home", "lib", "media", "mnt", "opt", "proc", "root", "run", "sbin",
    "srv", "sys", "tmp", "usr", "var"].map fun name => ⟨.root, [name]⟩

end Place

/-- A folder: texts by their places. The directories on the way exist as well, and of the system
that the folder belongs to, the standard directories and the null device. -/
structure Folder where
  texts : List (Place × String) := []
  deriving Inhabited

namespace Folder

/-- What is at a place. -/
inductive Entry where
  | file (text : String)
  | directory
  | nothing
  deriving DecidableEq, Repr

/-- The text of the file at a place. -/
def text? (folder : Folder) (place : Place) : Option String :=
  if place = .nullDevice then some ""
  else (folder.texts.find? (·.1 = place)).map Prod.snd

/-- What a place holds. A place of no names is a directory, whatever it starts from. -/
def entry (folder : Folder) (place : Place) : Entry :=
  match folder.text? place with
  | some text => .file text
  | none =>
    if place.names.isEmpty || Place.standard.contains place ||
        folder.texts.any (place.isAbove ·.1) then .directory
    else .nothing

/-- Where names lead that start at a place. Empty names and `.` stay at the place, and `..` leaves
it. Only the last name may lead to something that is not there. -/
def locate (folder : Folder) (here : Place) : List String → Except FileError Place
  | [] => .ok here
  | name :: rest =>
    match folder.entry here with
    | .nothing => .error .missing
    | .file _ => .error .notDirectory
    | .directory =>
      if name = "" ∨ name = "." then locate folder here rest
      else if name = ".." then locate folder here.parent rest
      else if name.utf8ByteSize > maxNameSize then .error .nameTooLong
      else locate folder (here.child name) rest

/-- Where the names of a path lead. A path that starts with a slash starts at the root. -/
def follow (folder : Folder) : List String → Except FileError Place
  | "" :: names => folder.locate ⟨.root, []⟩ names
  | names => folder.locate ⟨.folder, []⟩ names

/-- Refuses the paths that lead nowhere, whatever the folder holds. -/
def checkPath (path : String) : Except FileError Unit :=
  if path.isEmpty then .error .missing
  else if path.utf8ByteSize > maxPathSize then .error .nameTooLong
  else .ok ()

/-- The text of the file at a path. -/
def read (folder : Folder) (path : String) : Except FileError String := do
  checkPath path
  match folder.entry (← folder.follow (pathNames path)) with
  | .file text => .ok text
  | .directory => .error .directory
  | .nothing => .error .missing

/-- Puts a text at a place, where it replaces what was there. -/
def put (folder : Folder) (place : Place) (text : String) : Folder :=
  if place = .nullDevice then folder
  else if (folder.text? place).isSome then
    ⟨folder.texts.map fun file => if file.1 = place then (place, text) else file⟩
  else ⟨folder.texts ++ [(place, text)]⟩

/-- Writes a file, which is made if its directory is there. A path that ends in a slash cannot lead
to a file, and only what is before its last name is looked up. -/
def write (folder : Folder) (path text : String) : Except FileError Folder := do
  checkPath path
  let names := pathNames path
  let trimmed := (names.reverse.dropWhile (· = "")).reverse
  if trimmed ≠ names then
    let _ ← folder.follow (trimmed.dropLast ++ ["."])
    .error .directory
  else
    let place ← folder.follow names
    match folder.entry place with
    | .directory => .error .directory
    | _ => .ok (folder.put place text)

/-- The folder with the given files. -/
def ofList (files : List (String × String)) : Folder :=
  files.foldl (fun folder (path, text) =>
    let names := (pathNames path).filter fun name => name ≠ "" ∧ name ≠ "."
    folder.put ⟨.folder, names⟩ text) {}

end Folder

instance : Files (StateM Folder) where
  read path := do return (← get).read path
  write path text := do
    match (← get).write path text with
    | .ok folder =>
      set folder
      return .ok ()
    | .error e => return .error e

end Workflow.CommandLine
