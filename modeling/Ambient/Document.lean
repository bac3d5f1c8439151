/-
The declaration file of a source: the imports its declarations need, a blank line, and the
declarations with their comments. A source that declares nothing has the empty file.
-/
import Ambient.Declaration.Symbol
import Ambient.Import.Statement
import Ambient.Import.Usage
import Ambient.Source.Scan

namespace Ambient.Document

open Declaration (Symbol Fallback)

structure Options where
  fallback : Fallback := .any
  keepComments : Bool := true
deriving DecidableEq, Repr

/-- The declarations of a source. -/
def symbols (options : Options) (source : Text) : List Symbol :=
  ((Source.blocks source).filterMap (Declaration.declare? options.fallback)).map fun s =>
    if options.keepComments then s else { s with comment := none }

/-- The import lines that declarations of a source need. -/
def importLines (source : Text) (symbols : List Symbol) : List Text :=
  (Import.Table.ofStatements (Source.imports source)).usedLines
    (symbols.flatMap fun s => Import.typeNames s.text)

/-- The text of a declaration file. -/
def compose (imports : List Text) (symbols : List Symbol) : Text :=
  (if imports.isEmpty then [] else Text.joinLines imports ++ ("\n\n" : Text)) ++
    Text.joinLines (symbols.map Symbol.render) ++ ['\n']

/-- The declaration file of a source. -/
def generate (options : Options) (source : Text) : Text :=
  match symbols options source with
  | [] => []
  | found => compose (importLines source found) found

end Ambient.Document
