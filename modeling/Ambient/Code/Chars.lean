/-
The code characters of a text, with their byte offsets. Every other reader of code is a fold over
them.

Depths of nesting, here and wherever brackets are counted (`Nesting`, `closeFrom?` and the depth of an
open block), are numbers without a bound. A counter of 32 bits holds the same ones as long as a source
has fewer than 2 ^ 31 brackets.
-/
import Ambient.Code.State

namespace Ambient.Code

/-- A character of a text, where it stands, and the part it plays. -/
structure Mark where
  offset : Nat
  char : Char
  role : Role
deriving DecidableEq, Repr

/-- The marks of a text that starts at byte `offset` in state `s` and is followed by `look`. -/
def marks (s : State) (offset : Nat) (look : Option Char) : Text → List Mark
  | [] => []
  | c :: t =>
    let r := s.step c (t.head?.or look)
    ⟨offset, c, r.1⟩ :: marks r.2 (offset + c.utf8Size) look t

/-- A character of code and its byte offset. -/
abbrev CodeChar := Nat × Char

def Mark.codeChar? (m : Mark) : Option CodeChar :=
  match m.role with
  | .code => some (m.offset, m.char)
  | _ => none

/-- The code characters of a line that starts in `k`. -/
def charsFrom (k : Carry) (t : Text) : List CodeChar :=
  (marks k.state 0 none t).filterMap Mark.codeChar?

/-- The code characters of a text. -/
def chars (t : Text) : List CodeChar :=
  charsFrom .code t

/-- The offset of the first line comment of a line that starts in `k`. -/
def lineComment? (k : Carry) (t : Text) : Option Nat :=
  ((marks k.state 0 none t).find? (·.role == .lineComment)).map Mark.offset

/-- What a bracket adds to the nesting depth. -/
def weight (c : Char) : Int :=
  if c = '{' ∨ c = '(' ∨ c = '[' then 1
  else if c = '}' ∨ c = ')' ∨ c = ']' then -1
  else 0

/-- What code characters add to the nesting depth. -/
def totalWeight : List CodeChar → Int
  | [] => 0
  | x :: cs => weight x.2 + totalWeight cs

/-- How much deeper the brackets nest after a line than before it. -/
def bracketDelta (k : Carry) (line : Text) : Int :=
  totalWeight (charsFrom k line)

/-! ## Texts without their line comments -/

/-- A line up to its line comment, without the blanks before that, and with its line feed. -/
def stripLine (k : Carry) (line : Text) : Text :=
  match lineComment? k line with
  | none => line
  | some cut =>
    Text.trimEnd (Text.takeBytes line cut) ++ if line.getLast? = some '\n' then ['\n'] else []

def stripLines : Carry → List Text → Text
  | _, [] => []
  | k, line :: rest => stripLine k line ++ stripLines (k.after line) rest

/-- The text without its line comments, line for line. -/
def stripComments (t : Text) : Text :=
  stripLines .code (Text.fullLines t)

end Ambient.Code
