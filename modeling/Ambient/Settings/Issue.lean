/-
Checking settings. Every check runs, and all that is wrong is told at once.
-/
import Ambient.Glob
import Ambient.Settings.Basic

namespace Ambient.Settings

/-- What can be wrong with settings. -/
inductive Issue where
  | emptyRoot
  | emptyOutdir
  | emptyTsconfig
  /-- Cleaning the output directory would remove the sources. -/
  | cleansSources (outdir root : Path)
  | noEntrypoints
  | badGlob (glob : Text) (error : GlobError)
deriving DecidableEq, Repr

namespace Issue

/-- The setting an issue is about. -/
def field : Issue → Text
  | .emptyRoot => "root"
  | .emptyOutdir | .cleansSources _ _ => "outdir"
  | .emptyTsconfig => "tsconfig"
  | .noEntrypoints | .badGlob _ _ => "entrypoints"

def message : Issue → Text
  | .emptyRoot | .emptyOutdir | .emptyTsconfig => "must not be empty"
  | .cleansSources outdir root =>
    ("cleaning '" : Text) ++ outdir.text ++ ("' would remove the sources under '" : Text) ++ root.text ++ ['\'']
  | .noEntrypoints => "at least one glob is required"
  | .badGlob glob error =>
    ("invalid glob '" : Text) ++ glob ++ ("': " : Text) ++ error.message

def text (i : Issue) : Text :=
  i.field ++ (": " : Text) ++ i.message

end Issue

def pathIssues (s : Settings) : List Issue :=
  (if s.root.text.isEmpty then [.emptyRoot] else []) ++
    (if s.outdir.text.isEmpty then [.emptyOutdir] else []) ++
    (if s.tsconfig.text.isEmpty then [.emptyTsconfig] else [])

/-- Both directories are compared as seen from the working directory. -/
def cleanIssues (cwd : Path) (s : Settings) : List Issue :=
  if s.clean && !s.outdir.text.isEmpty &&
      (Path.absolute cwd s.root).startsWith (Path.absolute cwd s.outdir) then
    [.cleansSources s.outdir s.root]
  else []

def globIssue? (glob : Text) : Option Issue :=
  match Glob.parse glob with
  | .ok _ => none
  | .error e => some (.badGlob glob e)

def entrypointIssues (s : Settings) : List Issue :=
  if s.entrypoints.isEmpty then [.noEntrypoints] else s.entrypoints.filterMap globIssue?

/-- All that is wrong with settings, for a working directory. -/
def issues (cwd : Path) (s : Settings) : List Issue :=
  s.pathIssues ++ s.cleanIssues cwd ++ s.entrypointIssues

/-- The text that tells all issues at once. -/
def issuesText (issues : List Issue) : Text :=
  ("Configuration has " : Text) ++ issues.length.repr.toList ++ (" problem(s):\n" : Text) ++
    Text.joinLines (issues.map fun i => ("  - " : Text) ++ i.text)

/-- The settings, when nothing is wrong with them. -/
def validate (cwd : Path) (s : Settings) : Except Text Settings :=
  match s.issues cwd with
  | [] => .ok s
  | issues => .error (issuesText issues)

end Ambient.Settings
