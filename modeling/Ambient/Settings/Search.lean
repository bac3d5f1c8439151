/-
Where the settings of a run come from: a file that is asked for, or the nearest settings file in a
directory and the directories above it.
-/
import Ambient.Files
import Ambient.Run.Report
import Ambient.Settings.File

namespace Ambient.Settings

variable {m : Type → Type} [Monad m]

/-- How many directories are searched. -/
def searchLimit : Nat :=
  10

/-- The directories that are searched from `start`. -/
def searched (start : Path) : List Path :=
  start.ancestors.take searchLimit

/-- The settings of a file that was asked for. -/
def load (read : Path → m (Except IoError Text)) (parse? : Text → Option Settings) (path : Path) :
    m (Except Failure Settings) := do
  match ← read path with
  | .error e => return .error (.readSettings e path)
  | .ok text =>
    match parse? text with
    | none => return .error (.config unreadableText)
    | some s => return .ok s

/-- The settings of a file that a search comes to, unless it is not there or is of no use. -/
def tryLoad (read : Path → m (Except IoError Text)) (parse? : Text → Option Settings) (path : Path) :
    m (Log × Option Settings) := do
  match ← read path with
  | .error .noSuchFile => return ([], none)
  | .error e =>
    return ([⟨.warn, ("Failed to read config file " : Text) ++ path.text ++ (": " : Text) ++ e.message⟩], none)
  | .ok text =>
    match parse? text with
    | none => return ([⟨.warn, unreadableText ++ (". Using defaults." : Text)⟩], none)
    | some s => return ([⟨.debug, ("Loaded config from " : Text) ++ path.text⟩], some s)

/-- The settings of the first file that holds any, and the defaults when none does. -/
def loadFirst (read : Path → m (Except IoError Text)) (parse? : Text → Option Settings) :
    List Path → m (Log × Settings)
  | [] =>
    return ([⟨.debug, ("No config found after checking " : Text) ++ searchLimit.repr.toList ++
      (" directories. Using default config." : Text)⟩], {})
  | path :: rest => do
    match ← tryLoad read parse? path with
    | (log, some s) => return (log, s)
    | (log, none) =>
      let (more, s) ← loadFirst read parse? rest
      return (log ++ more, s)

/-- The settings that hold in a directory. -/
def loadNear (read : Path → m (Except IoError Text)) (parse? : Text → Option Settings) (start : Path) :
    m (Log × Settings) :=
  loadFirst read parse? ((searched start).map (·.join ⟨fileName⟩))

end Ambient.Settings
