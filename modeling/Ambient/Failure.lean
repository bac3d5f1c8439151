/-
What can go wrong in a run, and how it is told.

A failure to read or write touches one file only; every other failure ends the run.
-/
import Ambient.Path.Basic

namespace Ambient

inductive Failure where
  | io (message : Text) (path : Path)
  /-- The project does not emit isolated declarations. -/
  | precondition (tsconfig : Path) (reason : Text)
  | walk (root : Path) (message : Text)
  | config (message : Text)
deriving DecidableEq, Repr

namespace Failure

def message : Failure → Text
  | .io message path => message ++ (" (" : Text) ++ path.text ++ [')']
  | .precondition tsconfig reason =>
    ("isolatedDeclarations must be enabled in " : Text) ++ tsconfig.text ++ (": " : Text) ++ reason
  | .walk root message =>
    ("Failed to walk directory '" : Text) ++ root.text ++ ("': " : Text) ++ message
  | .config message => ("Invalid configuration: " : Text) ++ message

/-- Whether a failure touches only the file it happened on. -/
def isPerFile : Failure → Bool
  | .io _ _ => true
  | _ => false

def path? : Failure → Option Path
  | .io _ path => some path
  | .precondition tsconfig _ => some tsconfig
  | .walk root _ => some root
  | .config _ => none

end Failure

end Ambient
