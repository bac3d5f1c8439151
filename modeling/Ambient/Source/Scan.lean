/-
Finding the declarations and the import statements of a source, line by line.

Outside blocks and comments a line may open a comment or a block. A block takes in lines until its
brackets are balanced, it ends in plain code, and the next line does not go on with it. A doc comment
waits for the next declaration; another doc comment, an import and a line of plain code drop it.
-/
import Ambient.Code.Chars
import Ambient.Source.Block

namespace Ambient.Source

open Code (Carry)
open Text (trim trimStart trimEnd startsWith endsWith contains)

/-- What a scan finds, in the order of the source. -/
inductive Item where
  | importStatement (body : Text)
  | declaration (block : Block)
deriving DecidableEq, Repr

/-- A block whose last line is not found yet. -/
structure OpenBlock where
  opening : Opening
  lines : List Text := []
  depth : Int := 0
  carry : Carry := .code
deriving DecidableEq, Repr

inductive Phase where
  | idle
  /-- In a comment; `doc` holds the lines of a doc comment so far. -/
  | comment (doc : Option (List Text))
  | block (b : OpenBlock)
deriving DecidableEq, Repr

structure Scanner where
  phase : Phase := .idle
  /-- The doc comment that waits for a declaration. -/
  pending : Option Text := none
deriving DecidableEq, Repr

/-- Whether a comment that opens at the start of a line ends on that line. -/
def closesOnOpenLine (line : Text) : Bool :=
  decide (3 < Text.size line) && contains (line.drop 2) "*/"

/-- Whether a balanced declaration goes on in the line after `line`. -/
def continues (line : Text) (next : Option Text) : Bool :=
  match next with
  | none => false
  | some next =>
    let code := trimEnd (Code.stripComments line)
    let next := trimStart next
    [",", "=", "|", "&", "=>", ":"].any (fun token => endsWith code token) ||
      startsWith next ['|'] || startsWith next ['&'] ||
      (startsWith next ['.'] && !startsWith next "...")

/-- The block with one more line. -/
def OpenBlock.push (b : OpenBlock) (line : Text) : OpenBlock :=
  { b with
    lines := b.lines ++ [line]
    depth := b.depth + Code.bracketDelta b.carry line
    carry := b.carry.after line }

def OpenBlock.body (b : OpenBlock) : Text :=
  trim (Text.joinLines b.lines)

/-- Whether a block is not complete with its last line `line`. -/
def OpenBlock.goesOn (b : OpenBlock) (line : Text) (next : Option Text) : Bool :=
  decide (0 < b.depth) || !b.carry.isCode || continues line next

namespace Scanner

/-- The item that a complete block makes. A declaration takes the waiting doc comment. -/
def item (s : Scanner) (b : OpenBlock) : Item :=
  match b.opening with
  | .importStatement => .importStatement b.body
  | .declaration =>
    let (kind, exported) := blockKind b.body
    .declaration ⟨s.pending, b.body, kind, exported⟩

/-- Adds a line to a block, and closes the block where it ends. -/
def extend (s : Scanner) (b : OpenBlock) (line : Text) (next : Option Text) : Scanner × Option Item :=
  let b := b.push line
  if b.goesOn line next then ({ s with phase := .block b }, none)
  else ({ phase := .idle, pending := none }, some (s.item b))

/-- A line outside blocks and comments. -/
def idle (s : Scanner) (line : Text) (next : Option Text) : Scanner × Option Item :=
  let trimmed := trim line
  if startsWith trimmed "/**" then
    if closesOnOpenLine trimmed then ({ phase := .idle, pending := some line }, none)
    else ({ phase := .comment (some [line]), pending := none }, none)
  else if startsWith trimmed "/*" then
    if closesOnOpenLine trimmed then (s, none) else ({ s with phase := .comment none }, none)
  else
    match opening? trimmed with
    | some opening => s.extend { opening } line next
    | none =>
      if trimmed.isEmpty || startsWith trimmed "//" then (s, none)
      else ({ s with pending := none }, none)

/-- A line in a comment. -/
def inComment (s : Scanner) (doc : Option (List Text)) (line : Text) : Scanner :=
  let doc := doc.map (· ++ [line])
  if contains line "*/" then { phase := .idle, pending := (doc.map Text.joinLines).or s.pending }
  else { s with phase := .comment doc }

def step (s : Scanner) (line : Text) (next : Option Text) : Scanner × Option Item :=
  match s.phase with
  | .idle => s.idle line next
  | .comment doc => (s.inComment doc line, none)
  | .block b => s.extend b line next

/-- The items of the lines that follow. A block still open at the end is complete there. -/
def items (s : Scanner) : List Text → List Item
  | [] =>
    match s.phase with
    | .block b => [s.item b]
    | _ => []
  | line :: rest =>
    let r := s.step line rest.head?
    r.2.toList ++ r.1.items rest

end Scanner

/-- The items of a source. -/
def scan (source : Text) : List Item :=
  Scanner.items {} (Text.lines source)

def Item.declaration? : Item → Option Block
  | .declaration block => some block
  | .importStatement _ => none

def Item.import? : Item → Option Text
  | .importStatement body => some body
  | .declaration _ => none

def blocks (source : Text) : List Block :=
  (scan source).filterMap Item.declaration?

def imports (source : Text) : List Text :=
  (scan source).filterMap Item.import?

end Ambient.Source
