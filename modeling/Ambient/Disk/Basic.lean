/-
A disk: a directory tree and the working directory. Paths are followed name by name, so that each
name but the last has to be a directory, also before a dot or two.
-/
import Ambient.Disk.Tree
import Ambient.Files

namespace Ambient

structure Disk where
  top : Tree
  /-- The working directory. -/
  here : Location
deriving Repr

namespace Disk

/-- The names of a path as they are written, dots included. -/
def names (p : Path) : List Text :=
  (p.text.splitOn '/').filter (!·.isEmpty)

/-- Where following a path begins. -/
def start (d : Disk) (p : Path) : Location :=
  if p.isAbsolute then [] else d.here

/-- One name further from a place, which has to be a directory. -/
def step (d : Disk) (place : Location) (name : Text) : Except IoError Location :=
  match d.top.get? place with
  | none => .error .noSuchFile
  | some (.file _) => .error .notDirectory
  | some (.directory entries) =>
    if name = ['.'] then .ok place
    else if name = ['.', '.'] then .ok place.dropLast
    else if (entries.lookup name).isSome then .ok (place ++ [name])
    else .error .noSuchFile

/-- What a path leads to, and where that is. A slash at the end asks for a directory. -/
def find (d : Disk) (p : Path) : Except IoError (Location × Tree) := do
  if p.text.isEmpty then throw .noSuchFile
  let place ← (names p).foldlM d.step (d.start p)
  match d.top.get? place with
  | none => throw .noSuchFile
  | some (.file content) =>
    if p.text.getLast? = some '/' then throw .notDirectory else return (place, .file content)
  | some (.directory entries) => return (place, .directory entries)

def present (d : Disk) (p : Path) : Bool :=
  (d.find p).isOk

def isDirectory (d : Disk) (p : Path) : Bool :=
  match d.find p with
  | .ok (_, t) => t.isDirectory
  | .error _ => false

def read (d : Disk) (p : Path) : Except IoError Text := do
  match (← d.find p).2 with
  | .directory _ => throw .isDirectory
  | .file (.binary _) => throw .notText
  | .file (.text t) => return t

/-! ## Writing -/

/-- The directory that the last name of a path is in, and that name. There is none for a path that
ends in dots. -/
def findParent (d : Disk) (p : Path) : Except IoError (Location × Option Text) := do
  if p.text.isEmpty then throw .noSuchFile
  let place ← (names p).dropLast.foldlM d.step (d.start p)
  match d.top.get? place with
  | none => throw .noSuchFile
  | some (.file _) => throw .notDirectory
  | some (.directory _) =>
    return (place, (names p).getLast?.filter fun name => name != ['.'] && name != ['.', '.'])

/-- Makes one directory. -/
def makeDirectory (d : Disk) (p : Path) : Except IoError Disk := do
  match ← d.findParent p with
  | (_, none) => throw .fileExists
  | (place, some name) =>
    match d.top.get? (place ++ [name]) with
    | some _ => throw .fileExists
    | none => return { d with top := d.top.set (place ++ [name]) Tree.empty }

/-- Makes a directory after those above it, which follow it in the list, and keeps one that is there.
Gives the disk with what was made before an error too. -/
def makeDirectories (d : Disk) : List Path → Except IoError Unit × Disk
  | [] => (.ok (), d)
  | p :: above =>
    if p.text.isEmpty then (.ok (), d)
    else
      match d.makeDirectory p with
      | .ok made => (.ok (), made)
      | .error .noSuchFile =>
        match makeDirectories d above with
        | (.error e, made) => (.error e, made)
        | (.ok (), made) =>
          match made.makeDirectory p with
          | .ok all => (.ok (), all)
          | .error e => (if made.isDirectory p then .ok () else .error e, made)
      | .error e => (if d.isDirectory p then .ok () else .error e, d)

/-- Writes a file in a directory that is there. -/
def writeFile (d : Disk) (p : Path) (text : Text) : Except IoError Disk := do
  match ← d.findParent p with
  | (place, some name) =>
    if p.text.getLast? = some '/' then throw .isDirectory
    match d.top.get? (place ++ [name]) with
    | some (.directory _) => throw .isDirectory
    | _ => return { d with top := d.top.set (place ++ [name]) (.file (.text text)) }
  | (_, none) => throw .isDirectory

/-- Writes a file, and makes the directories above it. -/
def write (d : Disk) (p : Path) (text : Text) : Except Failure Unit × Disk :=
  let above := (p.parent?.getD ⟨[]⟩).ancestors
  match d.makeDirectories above with
  | (.error e, made) => (.error (.makeDirectory e (p.parent?.getD ⟨[]⟩)), made)
  | (.ok (), made) =>
    match made.writeFile p text with
    | .ok written => (.ok (), written)
    | .error e => (.error (.write e p), made)

/-! ## Removing -/

/-- Why a directory cannot be removed by the last name of a path, though all it holds can. -/
def lastNameError? (p : Path) : Option IoError :=
  match (names p).getLast? with
  | none => some .busy
  | some name =>
    if name = ['.'] then some .invalidArgument
    else if name = ['.', '.'] then some .notEmpty
    else none

/-- Removes a directory with all it holds. One that is not there is no error. -/
def removeTree (d : Disk) (p : Path) : Except Failure Unit × Disk :=
  match d.find p with
  | .error .noSuchFile => (.ok (), d)
  | .error e => (.error (.removeDirectory e p), d)
  | .ok (_, .file _) => (.error (.removeDirectory .notDirectory p), d)
  | .ok (place, .directory _) =>
    match lastNameError? p with
    | some e => (.error (.removeDirectory e p), { d with top := d.top.set place Tree.empty })
    | none => (.ok (), { d with top := d.top.erase place })

/-- The files below the working directory, and the directories that hold nothing. -/
def leaves (d : Disk) : List (Location × Option Content) :=
  ((d.top.get? d.here).map Tree.leaves).getD []

end Disk

end Ambient
