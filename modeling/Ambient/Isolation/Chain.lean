/-
Whether a project asks for isolated declarations. A project file may extend another, which holds
where the first has no setting of its own, and so on to the end of the chain.
-/
import Ambient.Files
import Ambient.Isolation.Project

namespace Ambient.Isolation

/-- Why a chain of project files has no end that can be used. -/
inductive Fault where
  | unreadable (error : IoError) (path : Path)
  | unparsable (path : Path)
  | cycle (path : Path)
  | missingBase (base : Text)
  | unresolvedBase (base : Text) (directory : Path)
deriving DecidableEq, Repr

def Fault.message : Fault → Text
  | .unreadable error path => (Failure.read error path).message
  | .unparsable path => ("failed to parse tsconfig (" : Text) ++ path.text ++ [')']
  | .cycle path => ("cycle detected while resolving tsconfig extends: " : Text) ++ path.text
  | .missingBase base => ("extended tsconfig '" : Text) ++ base ++ ("' does not exist" : Text)
  | .unresolvedBase base directory =>
    ("failed to resolve tsconfig extends '" : Text) ++ base ++ ("' from '" : Text) ++ directory.text ++ ['\'']

variable {m : Type → Type} [Monad m]

/-- The files a name may stand for: itself, with an extension, or the project file in the directory
of that name. -/
def attempts (p : Path) : List Path :=
  [p] ++ (if p.extension? = some ("json" : Text) then [] else [⟨p.text ++ (".json" : Text)⟩]) ++
    [p.join "tsconfig.json"]

/-- Whether a base is named by its place and not by the name of a package. -/
def isPlace (base : Text) : Bool :=
  Text.startsWith base ['.'] || (Path.mk base).isAbsolute

/-- The places where a base is looked for, from the directory of the file that extends it. A package
is looked for in every directory above too. -/
def candidates (directory : Path) (base : Text) : List Path :=
  if isPlace base then attempts (Path.normalize (directory.join ⟨base⟩))
  else directory.ancestors.flatMap fun above =>
    attempts (Path.normalize ((above.join "node_modules").join ⟨base⟩))

/-- The first of the files that can be read. -/
def firstReadable (read : Path → m (Except IoError Text)) : List Path → m (Option Path)
  | [] => return none
  | p :: rest => do
    match ← read p with
    | .ok _ => return some p
    | .error _ => firstReadable read rest

/-- The file that a base stands for. -/
def resolveBase (read : Path → m (Except IoError Text)) (directory : Path) (base : Text) :
    m (Except Fault Path) := do
  match ← firstReadable read (candidates directory base) with
  | some p => return .ok p
  | none =>
    return .error (if isPlace base then .missingBase base else .unresolvedBase base directory)

/-- Follows a chain of at most `bound` files from `path`, behind the files in `visited`: the setting
of the first file that has one. A longer chain holds some file twice. -/
def follow (read : Path → m (Except IoError Text)) (parse? : Text → Option Project) :
    (bound : Nat) → (visited : List Path) → (path : Path) → m (Except Fault (Option Bool))
  | 0, _, path => return .error (.cycle path)
  | bound + 1, visited, path => do
    let key := path.normalize
    if visited.contains key then return .error (.cycle path)
    match ← read path with
    | .error e => return .error (.unreadable e path)
    | .ok text =>
      match parse? text with
      | none => return .error (.unparsable path)
      | some project =>
        match project.base with
        | none => return .ok project.isolated
        | some base =>
          match ← resolveBase read (path.parent?.getD ⟨[]⟩) base with
          | .error e => return .error e
          | .ok next =>
            match ← follow read parse? bound (key :: visited) next with
            | .error e => return .error e
            | .ok inherited => return .ok (project.isolated.or inherited)

/-- Whether the project at `path` asks for isolated declarations. -/
def enabled (files : Files m) (parse? : Text → Option Project) (path : Path) :
    m (Except Fault Bool) := do
  return (← follow files.read parse? ((← files.bound) + 1) [] path).map (·.getD false)

/-- The failure of a run for a project that does not ask for isolated declarations. -/
def failureOf (path : Path) : Except Fault Bool → Except Failure Unit
  | .ok true => .ok ()
  | .ok false =>
    .error (.precondition path "compilerOptions.isolatedDeclarations is not set to true")
  | .error fault => .error (.precondition path fault.message)

def check (files : Files m) (parse? : Text → Option Project) (path : Path) :
    m (Except Failure Unit) :=
  return failureOf path (← enabled files parse? path)

end Ambient.Isolation
