/-
What commands do: find the settings that hold, work on the files, and tell what became of it.
-/
import Ambient.Command.Help
import Ambient.Run.Generate
import Ambient.Settings.Issue
import Ambient.Settings.Search
import Ambient.Settings.File

namespace Ambient.Command

open Declaration (Fallback)

/-- What a command leaves behind besides files. -/
structure Result where
  exit : Nat := 0
  output : Text := []
  errors : Text := []
  log : Log := []
deriving DecidableEq, Repr

def Result.fail (log : Log) (message : Text) : Result where
  exit := 1
  errors := ("Error: " : Text) ++ message ++ ['\n']
  log := log

variable {m : Type → Type} [Monad m]

/-- The settings of a file that was asked for, or of the nearest settings file. -/
def baseSettings (files : Files m) (here : Path) : Option Path → m (Log × Except Text Settings)
  | none => do
    let (log, s) ← Settings.loadNear files.read Settings.parse? here
    return (log, .ok s)
  | some path => do
    match ← Settings.load files.read Settings.parse? path with
    | .ok s => return ([⟨.debug, ("Loaded config from " : Text) ++ path.text⟩], .ok s)
    | .error e =>
      return ([], .error (("Failed to load config from " : Text) ++ path.text ++
        ("\n\nCaused by:\n    " : Text) ++ e.message))

/-- The settings of a command in the directory `here`: those of a file, then those of the command
line, when they can be used together. -/
def resolveSettings (files : Files m) (here : Path) (config : Option Path)
    (overrides : Settings.Overrides) : m (Log × Except Text Settings) := do
  let (log, base) ← baseSettings files here config
  return (log, do (← base).override overrides |>.validate here)

/-- How the end of a run is told. -/
def summary (r : Report) : Text :=
  let count (n : Nat) (what : Text) : Text := n.repr.toList ++ what
  ("Declarations: " : Text) ++ count r.written.length " written, " ++
    count r.skipped.length " skipped, " ++ count r.failed.length " failed\n" ++
    r.failed.flatMap fun (source, e) =>
      ("  ✗ " : Text) ++ source.text ++ (": " : Text) ++ e.message ++ ['\n']

def generateResult (log : Log) : Except Failure Report → Result
  | .error e => .fail log e.message
  | .ok r =>
    let failed := Result.fail log (r.failed.length.repr.toList ++ (" file(s) failed to generate" : Text))
    if r.isSuccess then { errors := summary r, log } else { failed with errors := summary r ++ failed.errors }

def runGenerate (files : Files m) (here : Path) (overrides : Settings.Overrides)
    (config : Option Path) : m Result := do
  match ← resolveSettings files here config overrides with
  | (log, .error message) => return .fail log message
  | (log, .ok s) =>
    let (more, result) ← Run.generateBy Run.inOrder files Isolation.Project.parse? s
    return generateResult (log ++ more) result

/-- Tells the declarations of one file. Nothing is checked or written. -/
def runEmit (files : Files m) (here file : Path) (overrides : Settings.Overrides)
    (config : Option Path) : m Result := do
  match ← resolveSettings files here config overrides with
  | (log, .error message) => return .fail log message
  | (log, .ok s) =>
    match ← Run.extract files s.options file with
    | .error e => return .fail log e.message
    | .ok text =>
      let warning : Log :=
        if text.isEmpty then [⟨.warn, ("No declarations extracted for " : Text) ++ file.text⟩] else []
      return { output := text, log := log ++ warning }

/-- Writes a settings file into a directory, over one that is there only if that is asked for. -/
def writeTemplate (files : Files m) (directory : Path) (force : Bool) : m (Except Text Path) := do
  let path := directory.join ⟨Settings.fileName⟩
  if (← files.present path) && !force then
    return .error "Configuration file already exists. Use --force to overwrite."
  else
    match ← files.write path Settings.template with
    | .ok () => return .ok path
    | .error e => return .error e.message

def runInit (files : Files m) (force : Bool) : m Result := do
  match ← writeTemplate files "." force with
  | .error message => return .fail [] message
  | .ok _ =>
    return { output := ("Created " : Text) ++ Settings.fileName ++ (" configuration file\n" : Text) }

/-- How much of its log a command shows. -/
def detail : Command → Detail
  | .generate _ _ verbosity | .emit _ _ _ _ verbosity => .ofCount verbosity
  | .init _ => .warn

/-- Carries out a command in the directory `here`. -/
def execute (files : Files m) (here : Path) : Command → m Result
  | .generate overrides config _ => runGenerate files here overrides config
  | .emit file fallback noComments config _ =>
    runEmit files here file { fallback, keepComments := switch false noComments } config
  | .init force => runInit files force

/-- What is told of a line that asks for no command. -/
def usageResult (args : List Text) : UsageError → Result
  | .help => { output := helpFor args }
  | .version => { output := versionText }
  | .noCommand => { exit := 2, errors := helpText }
  | e => { exit := 2, errors := ("error: " : Text) ++ e.message ++ ['\n'] }

/-- Carries out a command line. The log that is left is the part that is shown. -/
def run (files : Files m) (here : Path) (args : List Text) : m Result :=
  match parse args with
  | .ok command => do
    let r ← execute files here command
    return { r with log := r.log.filter (command.detail.shows ·.level) }
  | .error e => return usageResult args e

end Ambient.Command
