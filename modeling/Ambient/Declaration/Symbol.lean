/-
The declaration that a block of source makes.

Implementations and default values are left out, a constant gets the type of its initializer, and
interfaces, type aliases and re-exports stay as they are. A block of no known shape declares nothing.
-/
import Ambient.Code.Chars
import Ambient.Declaration.Object
import Ambient.Source.Block

namespace Ambient.Declaration

open Source (Block Kind Keyword)
open Text (trim trimStart trimEnd trimEndWhile startsWith endsWith leadingWord? collapse)

inductive SymbolKind where
  | value
  | function
  | interface
  | typeAlias
  | reExport
  | other
deriving DecidableEq, Repr

/-- A declaration and the comment above it. -/
structure Symbol where
  kind : SymbolKind
  comment : Option Text
  text : Text
deriving DecidableEq, Repr

def Symbol.render (s : Symbol) : Text :=
  match s.comment with
  | some comment => comment ++ ('\n' :: s.text)
  | none => s.text

/-- What follows the keyword of an exported declaration. -/
def declarationHead? (code keyword : Text) : Option Text := do
  let rest := trimStart (← Text.after? (trimStart code) "export")
  let rest := ((Text.after? rest "async").map trimStart).getD rest
  trimStart <$> Text.after? rest keyword

/-! ## Values -/

/-- The parts of the declaration of a value. -/
structure Binding where
  name : Text
  annotation : Option Text
  initializer : Option Text
deriving DecidableEq, Repr

/-- Reads `name: annotation = initializer`. An annotation or an initializer without text counts as
none. -/
def readBinding (t : Text) : Binding :=
  let (target, initializer) := match Code.assignment? t with
    | some eq => (Text.takeBytes t eq, some (trim (Text.dropBytes t (eq + 1))))
    | none => (t, none)
  let (name, annotation) := match Code.find? (fun _ c => c == ':') target with
    | some colon =>
      (trim (Text.takeBytes target colon), some (trim (Text.dropBytes target (colon + 1))))
    | none => (trim target, none)
  { name := trimEndWhile (· == '!') name
    annotation := annotation.filter (!·.isEmpty)
    initializer := initializer.filter (!·.isEmpty) }

/-- The type of a declared value. The type of an object or of a literal comes before the annotation,
and that before the fallback. -/
def Binding.type (fallback : Fallback) (b : Binding) : Text :=
  match b.initializer with
  | none => b.annotation.getD "any"
  | some init =>
    if startsWith init ['{'] then objectType fallback 0 init
    else ((literalType? init).or b.annotation).getD fallback.text

/-- The declaration of a value. A pattern, which has no one name, declares nothing. -/
def valueText? (keyword : Keyword) (fallback : Fallback) (body : Text) : Option Text := do
  let rest := trimEnd (← declarationHead? (Code.stripComments body) keyword.text)
  let b := readBinding ((Text.before? rest [';']).getD rest)
  if leadingWord? b.name = some b.name then
    some (("export declare " : Text) ++ keyword.text ++ [' '] ++ b.name ++ (": " : Text) ++
      b.type fallback ++ [';'])
  else none

/-! ## Functions -/

/-- A parameter without its default value. -/
def stripDefault (param : Text) : Text :=
  match Code.assignment? param with
  | some eq => trimEnd (Text.takeBytes param eq)
  | none => param

/-- Whether a brace after `before` opens the body and is not part of the return type. -/
def opensBody (before : Text) : Bool :=
  let before := trimEnd before
  !before.isEmpty && !before.getLast?.any (['|', '&', ':', ',', '<', '('].contains ·) &&
    !endsWith before "=>"

/-- The return type, up to the body of a function or the end of a signature without one. -/
def returnType (t : Text) : Text :=
  let ends (i : Nat) (c : Char) := c == ';' || (c == '{' && opensBody (Text.takeBytes t i))
  match Code.find? ends t with
  | some stop => collapse (Text.takeBytes t stop)
  | none => collapse t

/-- The type parameters at the start of a text, and what follows them. -/
def typeParameters? (t : Text) : Option (Text × Text) :=
  if startsWith t ['<'] then
    (Code.close? t).map fun close =>
      (Text.takeBytes t (close + 1), trimStart (Text.dropBytes t (close + 1)))
  else some ([], t)

/-- The signature of a function. -/
def functionText? (body : Text) : Option Text := do
  let head ← declarationHead? (Code.stripComments body) "function"
  let head := trimStart (head.dropWhile (· == '*'))
  let name ← leadingWord? head
  let (generics, rest) ← typeParameters? (trimStart (head.drop name.length))
  guard (startsWith rest ['('])
  let close ← Code.close? rest
  let params := (Code.split ',' (Text.takeBytes rest.tail (close - 1))).map (collapse ∘ stripDefault)
  let returns := ((Text.after? (trimStart (Text.dropBytes rest (close + 1))) [':']).map returnType).filter
    (!·.isEmpty)
  some (("export declare function " : Text) ++ name ++ collapse generics ++ ['('] ++
    List.intercalate ", " params ++ [')'] ++ (returns.map ((": " : Text) ++ ·)).getD [] ++ [';'])

/-! ## Symbols -/

/-- The declaration of what has no implementation. -/
def ambientText? (body : Text) : Option Text :=
  (Text.after? body "export").map fun rest => ("export declare " : Text) ++ trimStart rest

def terminated (body : Text) : Text :=
  if endsWith body [';'] then body else body ++ [';']

/-- The declaration of a block. Interfaces and type aliases that are not exported declare nothing. -/
def declare? (fallback : Fallback) (b : Block) : Option Symbol :=
  let symbol (kind : SymbolKind) (text : Text) : Symbol := ⟨kind, b.comment, text⟩
  match b.kind with
  | .value keyword => (valueText? keyword fallback b.body).map (symbol .value)
  | .function => (functionText? b.body).map (symbol .function)
  | .interface => if b.exported then (ambientText? b.body).map (symbol .interface) else none
  | .typeAlias => if b.exported then (ambientText? b.body).map (symbol .typeAlias) else none
  | .reExport => some (symbol .reExport b.body)
  | .other => some (symbol .other (terminated b.body))

end Ambient.Declaration
