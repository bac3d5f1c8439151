/-
Ignore files: a pattern to a line, each with what it says of the paths it matches. The last line that
matches a path decides.
-/
import Ambient.Disk.Tree
import Ambient.Ignore.Pattern

namespace Ambient.Ignore

inductive Verdict where
  | skip
  | keep
deriving DecidableEq, Repr

structure Rule where
  pattern : List Piece
  verdict : Verdict
  /-- Whether the rule is about directories only. -/
  directoriesOnly : Bool
deriving Repr

/-- A line that holds no pattern. -/
structure Fault where
  /-- The number of the line, from one. -/
  number : Nat
  line : Text
  error : PatternError
deriving DecidableEq, Repr

def Fault.message (f : Fault) : Text :=
  ("line " : Text) ++ f.number.repr.toList ++ (": error parsing glob '" : Text) ++ f.line ++
    ("': " : Text) ++ f.error.message

/-! ## Reading -/

/-- The line without the blanks at its end, where the last of them is not escaped. -/
def significant (line : Text) : Text :=
  if Text.endsWith line ("\\ " : Text) then line else Text.trimEnd line

/-- What a line says of the paths it matches, whether it starts at the directory of the file, and the
rest of it. -/
def readMarks (line : Text) : Verdict × Bool × Text :=
  let anchor (v : Verdict) (t : Text) : Verdict × Bool × Text :=
    match t with
    | '/' :: t => (v, true, t)
    | t => (v, false, t)
  match line with
  | '\\' :: '!' :: t => (.skip, false, '!' :: t)
  | '\\' :: '#' :: t => (.skip, false, '#' :: t)
  | '!' :: t => anchor .keep t
  | t => anchor .skip t

/-- Whether a line is about directories only, and the line without the slash that says so. -/
def readDirectoryMark (line : Text) : Bool × Text :=
  match Text.before? line ['/'] with
  | some t => (true, (Text.before? t ['\\']).getD t)
  | none => (false, line)

/-- The whole pattern of a line. One without a slash is about names in every directory, and one that
ends in `**` is not about the directory before it. -/
def wholePattern (anchored : Bool) (line : Text) : Text :=
  let t :=
    if anchored || Text.contains line ['/'] || line == ("**" : Text) then line
    else ("**/" : Text) ++ line
  if Text.endsWith t ("/**" : Text) then t ++ ("/*" : Text) else t

/-- Reads a line. Comments and empty lines hold no rule. -/
def Rule.parse? (line : Text) : Except PatternError (Option Rule) :=
  if Text.startsWith line ['#'] || (significant line).isEmpty then .ok none
  else
    let (verdict, anchored, rest) := readMarks (significant line)
    let (directoriesOnly, body) := readDirectoryMark rest
    (parse (wholePattern anchored body)).map fun pattern => some ⟨pattern, verdict, directoriesOnly⟩

/-- The rules of lines, and the lines that hold no pattern, when the first has the number `n`. -/
def readLines (n : Nat) : List Text → List Rule × List Fault
  | [] => ([], [])
  | line :: lines =>
    let (rules, faults) := readLines (n + 1) lines
    match Rule.parse? line with
    | .ok rule => (rule.toList ++ rules, faults)
    | .error e => (rules, ⟨n, significant line, e⟩ :: faults)

/-- The rules of a file, where marks of the byte order before the first line do not count. -/
def readFile (content : Content) : List Rule × List Fault :=
  match content.lines with
  | [] => ([], [])
  | line :: lines => readLines 1 (line.dropWhile (· == '\uFEFF') :: lines)

/-! ## Deciding -/

def Rule.applies (r : Rule) (path : Bytes) (isDirectory : Bool) : Bool :=
  (isDirectory || !r.directoriesOnly) && matchesPath r.pattern path

/-- What the rules of one file say of a path. -/
def decide? (rules : List Rule) (path : Bytes) (isDirectory : Bool) : Option Verdict :=
  (rules.reverse.find? (·.applies path isDirectory)).map Rule.verdict

end Ambient.Ignore
