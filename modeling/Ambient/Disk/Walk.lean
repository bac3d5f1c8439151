/-
Walks over a directory tree, and the sources that one finds.

A walk goes into every directory, except entries that an ignore file skips and installed packages. It
never skips the root it starts from.
-/
import Ambient.Disk.Basic
import Ambient.Ignore.Scope

namespace Ambient.Disk

open Ignore (Scope)

/-- The name of directories that hold installed packages. -/
def packages : Text :=
  "node_modules"

/-- Whether a walk leaves out an entry. -/
def isSkipped (scopes : List Scope) (place : Location) (name : Text) (t : Tree) : Bool :=
  name == packages || Scope.decide? scopes place t.isDirectory == some .skip

mutual

/-- The files of a tree by their path, when the tree is at `place` and its path is `path`. -/
def visit (scopes : List Scope) (place : Location) (path : Path) : Tree → List Path
  | .file _ => [path]
  | .directory entries =>
    visitAll (Scope.ofDirectory place (.directory entries) :: scopes) place path entries

def visitAll (scopes : List Scope) (place : Location) (path : Path) : List (Text × Tree) → List Path
  | [] => []
  | (name, t) :: rest =>
    (if isSkipped scopes (place ++ [name]) name t then []
      else visit scopes (place ++ [name]) (path.join ⟨name⟩) t) ++ visitAll scopes place path rest

end

/-- The failure of a walk whose root cannot be found. -/
def rootFailure (root : Path) (e : IoError) : Failure :=
  .walk root
    (root.text ++ (": IO error for operation on " : Text) ++ root.text ++ (": " : Text) ++ e.message)

/-- The files that a walk finds in a tree that is at `place` below `top`. A line that holds no pattern
in an ignore file above the tree ends the walk. -/
def walkFrom (top : Tree) (root : Path) (place : Location) : Tree → Except Failure (List Path)
  | .file _ => .ok [root]
  | .directory entries =>
    let scopes := Scope.above [] [] top place
    match scopes.reverse.flatMap Scope.faults with
    | [] => .ok (visit scopes place root (.directory entries))
    | faults => .error (.walk root (Text.joinLines faults))

/-- Whether a root stands for the standard input, where a walk finds nothing. -/
def isStandardInput (root : Path) : Bool :=
  root.same "-"

/-- The files that a walk from a root finds. -/
def walk (d : Disk) (root : Path) : Except Failure (List Path) :=
  if isStandardInput root then .ok []
  else
    match d.find root with
    | .error e => .error (rootFailure root e)
    | .ok (place, t) => walkFrom d.top root place t

/-- The sources among the files that a walk found, in the order of paths. -/
def selectSources (globs : List Glob) (root : Path) (found : List Path) : List Path :=
  (found.filter (isSelected globs root)).mergeSort fun p q => p.compare q != .gt

/-- The sources under a root that the globs select. -/
def sources (d : Disk) (root : Path) (entrypoints : List Text) : Except Failure (List Path) := do
  let globs ← compileEntrypoints entrypoints
  return selectSources globs root (← d.walk root)

/-- The operations of a run on a disk. One file has a name for every directory that the working
directory is in, and one more. -/
def fileOps : Files (StateM Disk) where
  read path := return (← get).read path
  write path text := modifyGet (·.write path text)
  removeTree path := modifyGet (·.removeTree path)
  present path := return (← get).present path
  sources root entrypoints := return (← get).sources root entrypoints
  bound := return (← get).top.leaves.length * ((← get).here.length + 2)

end Ambient.Disk
