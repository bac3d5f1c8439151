/-
Reading import statements: the module and the names bound from it, and the table of all names bound
in a source.
-/
import Ambient.Code.Nesting

namespace Ambient.Import

open Text (trim trimStart trimEnd trimEndWhile startsWith collapse)

/-- How a name is bound. -/
inductive BindingKind where
  | named (imported : Text)
  | defaultExport
  | wholeModule
deriving DecidableEq, Repr

/-- A local name, and what it stands for in the module it comes from. -/
structure Binding where
  name : Text
  kind : BindingKind
deriving DecidableEq, Repr

/-- The names bound from one module, in the order of their first import. -/
structure ModuleBindings where
  path : Text
  bindings : List Binding
deriving DecidableEq, Repr

/-- The modules a source imports from, in the order of their first import. -/
abbrev Table := List ModuleBindings

/-- Adds a binding, unless its name is bound from the module already. -/
def ModuleBindings.add (m : ModuleBindings) (b : Binding) : ModuleBindings :=
  if m.bindings.any (·.name == b.name) then m else { m with bindings := m.bindings ++ [b] }

/-- Adds a binding to its module, and the module to the table when it is new. -/
def Table.add (path : Text) (b : Binding) : Table → Table
  | [] => [⟨path, [b]⟩]
  | m :: rest => if m.path = path then m.add b :: rest else m :: Table.add path b rest

/-! ## Statements -/

/-- The text of a statement in front of the quoted module path it ends with, and the path. -/
def splitPath? (t : Text) : Option (Text × Text) := do
  let mark ← t.getLast?
  guard (mark = '\'' ∨ mark = '"')
  let body := t.dropLast.reverse
  match body.dropWhile (· != mark) with
  | [] => none
  | _ :: clause => some (clause.reverse, (body.takeWhile (· != mark)).reverse)

/-- The text without the word that marks an import of types only. Before `from` that word is a
name. -/
def skipTypeMark (t : Text) : Text :=
  match Text.after? t "type " with
  | some rest => if startsWith (trimStart rest) "from" then t else trimStart rest
  | none => t

/-- The text in front of the braces of a clause, and the text in them. -/
def splitBraces? (clause : Text) : Option (Text × Text) :=
  match clause.dropWhile (· != '{') with
  | [] => some (clause, [])
  | braces =>
    (Code.close? braces).map fun close =>
      (clause.takeWhile (· != '{'), Text.takeBytes braces.tail (close - 1))

/-- A part of a clause outside the braces: a default export, or the whole module. -/
def headBinding? (part : Text) : Option Binding :=
  match part with
  | '*' :: rest =>
    (Text.after? (trimStart rest) "as").map fun name => ⟨trim name, .wholeModule⟩
  | name => some ⟨name, .defaultExport⟩

/-- A part of a clause in the braces. -/
def namedBinding (part : Text) : Binding :=
  let part := ((Text.after? part "type ").map trimStart).getD part
  match Text.splitFirst? " as " part with
  | some (imported, name) => ⟨trim name, .named (trim imported)⟩
  | none => ⟨part, .named part⟩

/-- The module and the bindings of an import statement. A statement that binds nothing, or that
cannot be read, has none. -/
def statement? (t : Text) : Option (Text × List Binding) := do
  let t := trimEnd (trimEndWhile (· == ';') (collapse (Code.stripComments t)))
  let rest ← Text.after? t "import"
  let (before, path) ← splitPath? (skipTypeMark (trimStart rest))
  let clause := trim (← Text.before? (trimEnd before) "from")
  guard (!clause.isEmpty)
  let (head, braces) ← splitBraces? clause
  let heads ← (Code.split ',' head).mapM headBinding?
  some (path, heads ++ (Code.split ',' braces).map namedBinding)

/-- The table with the bindings of a statement added. -/
def Table.addStatement (table : Table) (t : Text) : Table :=
  match statement? t with
  | some (path, bindings) => bindings.foldl (fun table b => table.add path b) table
  | none => table

/-- The table of the bindings of all statements. -/
def Table.ofStatements (statements : List Text) : Table :=
  statements.foldl Table.addStatement []

end Ambient.Import
