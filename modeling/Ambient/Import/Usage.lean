/-
The imports that declarations need: the type names they mention, and one import line for each module
that binds one of these names.
-/
import Ambient.Import.Statement

namespace Ambient.Import

open Text (isWordChar)

/-- A word of a text and the byte it starts at. -/
structure Token where
  start : Nat
  text : Text
deriving DecidableEq, Repr

def Token.stop (w : Token) : Nat :=
  w.start + Text.size w.text

/-- The words that code characters make. A word ends where the next word character does not follow
it directly. -/
def tokens : List Code.CodeChar → List Token
  | [] => []
  | (i, c) :: cs =>
    if isWordChar c then
      match tokens cs with
      | w :: ws => if w.start = i + c.utf8Size then ⟨i, c :: w.text⟩ :: ws else ⟨i, [c]⟩ :: w :: ws
      | [] => [⟨i, [c]⟩]
    else tokens cs

/-- Whether a word of `t` may name a type: it starts with a capital, or it is the first part of a
qualified name. -/
def Token.namesType (t : Text) (w : Token) : Bool :=
  w.text.head?.any Char.isUpper ||
    (Code.charBefore? t w.start != some '.' && Code.charAfter? t w.stop == some '.')

/-- The words of a text that may name types. -/
def typeNames (t : Text) : List Text :=
  ((tokens (Code.chars t)).filter (Token.namesType t)).map Token.text

/-- How a binding is written in the braces of an import. A whole module has no such form. -/
def Binding.specifier? (b : Binding) : Option Text :=
  match b.kind with
  | .named imported => some (if imported = b.name then b.name else imported ++ (" as " : Text) ++ b.name)
  | .defaultExport => some (("default as " : Text) ++ b.name)
  | .wholeModule => none

/-- The import lines of a module for bindings of it: one for all that stand in braces, and one for
each name of the whole module. -/
def moduleLines (path : Text) (bindings : List Binding) : List Text :=
  let specifiers := bindings.filterMap Binding.specifier?
  let names := (bindings.filter (·.specifier?.isNone)).map Binding.name
  let ending := (" from '" : Text) ++ path ++ ['\'']
  (if specifiers.isEmpty then []
    else [("import type \x7b " : Text) ++ List.intercalate ", " specifiers ++ (" \x7d" : Text) ++ ending]) ++
    names.map fun name => ("import type * as " : Text) ++ name ++ ending

/-- The import lines for the bindings whose names are used. -/
def Table.usedLines (table : Table) (used : List Text) : List Text :=
  table.flatMap fun m => moduleLines m.path (m.bindings.filter (used.contains ·.name))

end Ambient.Import
