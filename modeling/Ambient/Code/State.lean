/-
Which characters of a text are code, decided one character at a time.

`State.step` reads a character, with a look at the one after it, and says which part the character
plays: code, the start of a line comment, or hidden in a string, a template, a comment or a regular
expression. Grammar plays no role here: only quotes, comment marks, and the last code character,
which tells a regular expression from a division.
-/
import Ambient.Text.Basic

namespace Ambient.Code

open Text (isBlank)

/-- What the next character stands in. -/
inductive Mode where
  | code
  /-- A string or a template that `mark` opened. -/
  | quoted (mark : Char)
  /-- Right after a backslash in it. -/
  | escaped (mark : Char)
  | comment
  /-- On the star of the comment's opening mark. -/
  | commentOpening
  /-- On the slash of the comment's closing mark. -/
  | commentClosing
  | lineComment
  /-- A regular expression, in or out of a character class. -/
  | regex (inClass : Bool)
  | regexEscape (inClass : Bool)
deriving DecidableEq, Repr

/-- The mode, and the last character before that was code and no blank or opened something else. -/
structure State where
  mode : Mode := .code
  last : Option Char := none
deriving DecidableEq, Repr

/-- The part a character plays. -/
inductive Role where
  | code
  /-- The first slash of a line comment. -/
  | lineComment
  | hidden
deriving DecidableEq, Repr

/-- The characters after which a slash opens a regular expression and does not divide. Angle
brackets are not among them, so the closing tag of an element stays code. -/
def regexLeaders : List Char :=
  ['(', ',', '=', ':', '[', '!', '&', '|', '?', '{', '}', ';', '+', '-', '*', '%', '~']

namespace State

/-- Whether a slash would open a regular expression: at the start, or after a character that an
operand follows. -/
def expectsOperand (s : State) : Bool :=
  match s.last with
  | none => true
  | some c => regexLeaders.contains c

/-- A character read as code, whatever the mode. -/
def readCode (s : State) (c : Char) (next : Option Char) : Role × State :=
  if c = '\'' ∨ c = '"' ∨ c = '`' then (.hidden, ⟨.quoted c, some c⟩)
  else if c = '/' ∧ next = some '/' then (.lineComment, ⟨.lineComment, s.last⟩)
  else if c = '/' ∧ next = some '*' then (.hidden, ⟨.commentOpening, s.last⟩)
  else if c = '/' ∧ s.expectsOperand then (.hidden, ⟨.regex false, some c⟩)
  else (.code, ⟨.code, if isBlank c then s.last else some c⟩)

/-- The part `c` plays when `next` follows it, and the state behind it. A line comment and a regular
expression end before a line feed, a string at one, a template only at its closing mark. -/
def step (s : State) (c : Char) (next : Option Char) : Role × State :=
  match s.mode with
  | .code => s.readCode c next
  | .quoted mark =>
    if c = '\\' then (.hidden, ⟨.escaped mark, s.last⟩)
    else if c = mark ∨ (c = '\n' ∧ mark ≠ '`') then (.hidden, ⟨.code, s.last⟩)
    else (.hidden, s)
  | .escaped mark => (.hidden, ⟨.quoted mark, s.last⟩)
  | .comment =>
    if c = '*' ∧ next = some '/' then (.hidden, ⟨.commentClosing, s.last⟩) else (.hidden, s)
  | .commentOpening => (.hidden, ⟨.comment, s.last⟩)
  | .commentClosing => (.hidden, ⟨.code, s.last⟩)
  | .lineComment => if c = '\n' then s.readCode c next else (.hidden, s)
  | .regex inClass =>
    if c = '\n' then s.readCode c next
    else if c = '\\' then (.hidden, ⟨.regexEscape inClass, s.last⟩)
    else if c = '[' then (.hidden, ⟨.regex true, s.last⟩)
    else if c = ']' then (.hidden, ⟨.regex false, s.last⟩)
    else if c = '/' ∧ inClass = false then (.hidden, ⟨.code, s.last⟩)
    else (.hidden, s)
  | .regexEscape inClass =>
    if c = '\n' then s.readCode c next else (.hidden, ⟨.regex inClass, s.last⟩)

/-- The state behind a text, when `look` is the character that follows the text. -/
def after (s : State) (look : Option Char) : Text → State
  | [] => s
  | c :: t => ((s.step c (t.head?.or look)).2).after look t

end State

/-- What a line starts in. Strings end with their line, so that only a template and a comment reach
the next one. -/
inductive Carry where
  | code
  | template
  | comment
deriving DecidableEq, Repr

namespace Carry

def isCode (k : Carry) : Bool :=
  k == .code

def state : Carry → State
  | .code => {}
  | .template => ⟨.quoted '`', none⟩
  | .comment => ⟨.comment, none⟩

end Carry

def Mode.carry : Mode → Carry
  | .quoted mark | .escaped mark => if mark = '`' then .template else .code
  | .comment | .commentOpening => .comment
  | .code | .commentClosing | .lineComment | .regex _ | .regexEscape _ => .code

/-- What the line after a text starts in. -/
def Carry.after (k : Carry) (t : Text) : Carry :=
  (k.state.after none t).mode.carry

end Ambient.Code
