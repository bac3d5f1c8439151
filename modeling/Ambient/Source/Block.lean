/-
The top-level declarations of a source, as blocks of text: how a line opens one, and what kind of
declaration a block is.
-/
import Ambient.Code.Nesting

namespace Ambient.Source

open Text (startsWith leadingWord? isWordChar trimStart)

/-- The keyword of a declared value. -/
inductive Keyword where
  | constKeyword
  | letKeyword
  | varKeyword
deriving DecidableEq, Repr

def Keyword.text : Keyword → Text
  | .constKeyword => "const"
  | .letKeyword => "let"
  | .varKeyword => "var"

/-- What a block declares. -/
inductive Kind where
  | value (keyword : Keyword)
  | function
  | interface
  | typeAlias
  | reExport
  | other
deriving DecidableEq, Repr

/-- A top-level declaration, with the doc comment right before it. -/
structure Block where
  comment : Option Text
  body : Text
  kind : Kind
  exported : Bool
deriving DecidableEq, Repr

/-- What a line opens. -/
inductive Opening where
  | importStatement
  | declaration
deriving DecidableEq, Repr

/-- What follows `keyword`, without the blanks before it, when the text starts with that whole
word. -/
def afterKeyword? (t keyword : Text) : Option Text := do
  let rest ← Text.after? t keyword
  if rest.head?.any isWordChar then none else some (trimStart rest)

def startsWithKeyword (t keyword : Text) : Bool :=
  (afterKeyword? t keyword).isSome

/-- Whether a text goes on as the declaration of a type alias does after its keyword: a name, and
then an equals sign or type parameters. -/
def namesAlias (t : Text) : Bool :=
  match leadingWord? t with
  | none => false
  | some name => (trimStart (t.drop name.length)).head?.any fun c => c == '=' || c == '<'

/-- What a trimmed line opens. A call of `import` and a property of it open nothing. -/
def opening? (line : Text) : Option Opening :=
  match afterKeyword? line "import" with
  | some rest =>
    if rest.head?.any fun c => c == '(' || c == '.' then none else some .importStatement
  | none =>
    if startsWithKeyword line "export" then some .declaration
    else
      match afterKeyword? line "interface" with
      | some rest => (leadingWord? rest).map fun _ => .declaration
      | none =>
        match afterKeyword? line "type" with
        | some rest => if namesAlias rest then some .declaration else none
        | none => none

/-- An export list names what another module exports when `from` follows it. -/
def exportListKind (list : Text) : Kind :=
  match Code.close? list with
  | some close =>
    if startsWithKeyword (trimStart (Text.dropBytes list (close + 1))) "from" then .reExport else .other
  | none => .other

/-- The kind that the keyword after `export` gives. -/
def keywordKind (rest : Text) : Kind :=
  match leadingWord? rest with
  | none => .other
  | some word =>
    if word = ("const" : Text) then
      if (afterKeyword? rest "const").any (startsWith · "enum") then .other
      else .value .constKeyword
    else if word = ("let" : Text) then .value .letKeyword
    else if word = ("var" : Text) then .value .varKeyword
    else if word = ("function" : Text) then .function
    else if word = ("interface" : Text) then .interface
    else if word = ("type" : Text) then .typeAlias
    else .other

/-- The kind of a block that starts with `export`, by what follows that word. -/
def exportKind (rest : Text) : Kind :=
  if startsWith rest ['*'] then .reExport
  else if startsWith rest ['{'] then exportListKind rest
  else
    match (afterKeyword? rest "type").filter (startsWith · ['{']) with
    | some list => exportListKind list
    | none => keywordKind ((afterKeyword? rest "async").getD rest)

/-- The kind of a block, and whether it is exported. -/
def blockKind (body : Text) : Kind × Bool :=
  match afterKeyword? body "export" with
  | some rest => (exportKind rest, true)
  | none => (if startsWithKeyword body "interface" then .interface else .typeAlias, false)

end Ambient.Source
