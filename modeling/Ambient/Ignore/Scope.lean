/-
The ignore files of directories, and what they say together. Of files of one kind the nearest that
says anything of a path decides. Files for every walk go before those of a repository, which hold
only inside of one.
-/
import Ambient.Ignore.Rule

namespace Ambient.Ignore

/-- What the ignore files of one directory say. -/
structure Scope where
  place : Location
  /-- The rules for every walk. -/
  general : List Rule := []
  /-- The rules of the repository around the directory. -/
  tracked : List Rule := []
  /-- The rules that a repository keeps for itself. -/
  excluded : List Rule := []
  isRepository : Bool := false
  /-- What is told of lines that hold no pattern. -/
  faults : List Text := []
deriving Repr

namespace Scope

/-- The rules of a file by the names that lead to it from a directory, and what is told of its
faults. -/
def readAt (place : Location) (t : Tree) (names : Location) : List Rule × List Text :=
  match t.get? names with
  | some (.file content) =>
    let path : Text := (place ++ names).flatMap ('/' :: ·)
    let (rules, faults) := readFile content
    (rules, faults.map fun f => path ++ (": " : Text) ++ f.message)
  | _ => ([], [])

/-- The scope of a directory. -/
def ofDirectory (place : Location) (t : Tree) : Scope :=
  let (general, generalFaults) := readAt place t [".ignore"]
  let (tracked, trackedFaults) := readAt place t [".gitignore"]
  let (excluded, excludedFaults) := readAt place t [".git", "info", "exclude"]
  { place, general, tracked, excluded
    isRepository := (t.entry? ".git").isSome || (t.entry? ".jj").isSome
    faults := generalFaults ++ trackedFaults ++ excludedFaults }

/-- The path of a place as the rules of a scope see it. -/
def pathOf (s : Scope) (place : Location) : Bytes :=
  encode (List.intercalate ['/'] (place.drop s.place.length))

/-- The scopes in the innermost repository, from the nearest to that of the repository itself. -/
def inRepository : List Scope → List Scope
  | [] => []
  | s :: rest =>
    if s.isRepository then [s]
    else
      match inRepository rest with
      | [] => []
      | scopes => s :: scopes

/-- What scopes, the nearest first, say of a place. -/
def decide? (scopes : List Scope) (place : Location) (isDirectory : Bool) : Option Verdict :=
  let first (rules : Scope → List Rule) (scopes : List Scope) : Option Verdict :=
    scopes.findSome? fun s => Ignore.decide? (rules s) (s.pathOf place) isDirectory
  (first general scopes).or ((first tracked (inRepository scopes)).or
    (first excluded (inRepository scopes)))

/-- The scopes of the directories above a place, the nearest first, behind `found`. -/
def above (found : List Scope) (top : Location) (t : Tree) : Location → List Scope
  | [] => found
  | name :: rest =>
    above (ofDirectory top t :: found) (top ++ [name]) ((t.entry? name).getD Tree.empty) rest

end Scope

end Ambient.Ignore
