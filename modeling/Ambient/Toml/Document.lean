/-
Reading a TOML document.
-/
import Ambient.Toml.Scalar

namespace Ambient.Toml

open Reader

/-! ## Blanks and comments -/

def isSpace (c : Char) : Bool :=
  c == ' ' || c == '\t'

/-- The characters allowed in comments and strings: all but control characters, save the tab. -/
def isPrintable (c : Char) : Bool :=
  c == '\t' || (decide (0x20 ≤ c.toNat) && c.toNat != 0x7F)

def spaces : Reader Unit :=
  discard (takeWhile isSpace)

/-- A line feed, with or without a carriage return before it. -/
def newline : Reader Unit :=
  exactly "\n" <|> exactly "\r\n"

def comment : Reader Unit := do
  char '#'
  discard (takeWhile isPrintable)

/-- Blanks, comments and line ends. -/
def gap : Reader Unit :=
  loop (fun _ => do
    spaces
    match ← peek? with
    | some '#' => comment; return .inl ()
    | some '\n' | some '\r' => newline; return .inl ()
    | _ => return .inr ()) ()

/-- The rest of a line behind what it holds. -/
def lineEnd : Reader Unit := do
  spaces
  if (← peek?) = some '#' then comment
  if !(← atEnd) then newline

/-! ## Strings -/

def isHexDigit (c : Char) : Bool :=
  Numeral.isDigitIn 16 c

/-- The character with a given number. Surrogates have none. -/
def scalarValue (n : Nat) : Reader Char :=
  if n < 0xD800 ∨ (0xDFFF < n ∧ n < 0x110000) then return Char.ofNat n else failure

/-- What stands behind a backslash. -/
def escape : Reader Char := do
  match ← next with
  | 'b' => return '\x08'
  | 't' => return '\t'
  | 'n' => return '\n'
  | 'f' => return '\x0c'
  | 'r' => return '\r'
  | 'e' => return '\x1b'
  | '"' => return '"'
  | '\\' => return '\\'
  | 'x' => scalarValue (Numeral.value 16 (← exactlyN 2 isHexDigit))
  | 'u' => scalarValue (Numeral.value 16 (← exactlyN 4 isHexDigit))
  | 'U' => scalarValue (Numeral.value 16 (← exactlyN 8 isHexDigit))
  | _ => failure

/-- The rest of a string in double quotes on one line. -/
def basicString : Reader Text :=
  loop (fun done => do
    match ← next with
    | '"' => return .inr done
    | '\\' => return .inl (done ++ [← escape])
    | c => if isPrintable c then return .inl (done ++ [c]) else failure) []

/-- The rest of a string in single quotes on one line. -/
def literalString : Reader Text := do
  let t ← takeWhile fun c => isPrintable c && c != '\''
  char '\''
  return t

/-- The quotes that come next in a string of several lines, and whether they end it. Of those that
do, the ones before the last three are part of it. -/
def closingQuotes (mark : Char) : Reader (Text × Bool) := do
  let run := ((← get).takeWhile (· == mark)).take 5
  set ((← get).drop run.length)
  if 3 ≤ run.length then return (run.drop 3, true) else return (run, false)

/-- The blanks behind a backslash at the end of a line, up to the next character. -/
def lineContinuation : Reader Unit := do
  spaces
  newline
  discard (takeWhile fun c => isSpace c || c == '\n' || c == '\r')

/-- A character of a string of several lines. -/
def longChar : Reader Text := do
  match ← next with
  | '\n' => return ['\n']
  | '\r' => char '\n'; return ['\r', '\n']
  | c => if isPrintable c then return [c] else failure

/-- The rest of a string in three double quotes. -/
def longBasicString : Reader Text := do
  discard (newline <|> pure ())
  loop (fun done => do
    match ← peek? with
    | some '"' =>
      let (quotes, ended) ← closingQuotes '"'
      return if ended then .inr (done ++ quotes) else .inl (done ++ quotes)
    | some '\\' =>
      discard next
      (do lineContinuation; return .inl done) <|> (do return .inl (done ++ [← escape]))
    | _ => return .inl (done ++ (← longChar))) []

/-- The rest of a string in three single quotes. -/
def longLiteralString : Reader Text := do
  discard (newline <|> pure ())
  loop (fun done => do
    match ← peek? with
    | some '\'' =>
      let (quotes, ended) ← closingQuotes '\''
      return if ended then .inr (done ++ quotes) else .inl (done ++ quotes)
    | _ => return .inl (done ++ (← longChar))) []

/-! ## Keys and values -/

def isBareKeyChar (c : Char) : Bool :=
  c.isAlphanum || c == '_' || c == '-'

def simpleKey : Reader Text := do
  if ← accept ['"'] then basicString
  else if ← accept ['\''] then literalString
  else
    let key ← takeWhile isBareKeyChar
    if key.isEmpty then failure else return key

/-- A dotted key: the path of tables, and the last key. -/
def dottedKey : Reader (List Text × Text) := do
  let first ← simpleKey
  loop (fun (path, key) => do
    spaces
    if ← accept ['.'] then
      spaces
      return .inl (path ++ [key], ← simpleKey)
    else return .inr (path, key)) ([], first)

/-- The items of an array behind its opening bracket. -/
def arrayItems (value : Reader Value) : Reader (List Value) :=
  loop (fun items => do
    gap
    if ← accept [']'] then return .inr items
    let items := items ++ [← value]
    gap
    if ← accept [','] then return .inl items
    char ']'
    return .inr items) []

/-- The entries of an inline table behind its opening brace. -/
def inlineEntries (value : Reader Value) : Reader Entries :=
  loop (fun entries => do
    gap
    if ← accept ['}'] then return .inr entries
    let (path, key) ← dottedKey
    spaces
    char '='
    spaces
    match addKey path key (← value) .inline entries with
    | none => failure
    | some entries =>
      gap
      if ← accept [','] then return .inl entries
      char '}'
      return .inr entries) []

/-- A value in which arrays and inline tables nest at most `depth` deep. -/
def value (depth : Nat) : Reader Value := do
  if ← accept "\"\"\"" then return .string (← longBasicString)
  if ← accept "'''" then return .string (← longLiteralString)
  if ← accept ['"'] then return .string (← basicString)
  if ← accept ['\''] then return .string (← literalString)
  match depth with
  | 0 => scalar
  | depth + 1 =>
    if ← accept ['['] then return .array (← arrayItems (value depth))
    if ← accept ['{'] then return .table .inline (← inlineEntries (value depth))
    scalar

/-- How deep arrays and inline tables may nest. -/
def maxDepth : Nat := 80

/-! ## The document -/

/-- What is read of a document: the keys of the last header, and the entries so far. -/
structure State where
  header : List Text := []
  entries : Entries := []

def readHeader (s : State) (brackets : Nat) : Reader State := do
  exactly (List.replicate brackets '[')
  spaces
  let (path, key) ← dottedKey
  spaces
  exactly (List.replicate brackets ']')
  let opened := if brackets = 1 then openTable path key s.entries else openElement path key s.entries
  match opened with
  | some entries => return { header := path ++ [key], entries }
  | none => failure

def readEntry (s : State) : Reader State := do
  let (path, key) ← dottedKey
  spaces
  char '='
  spaces
  match addUnder s.header path key (← value maxDepth) s.entries with
  | some entries => return { s with entries }
  | none => failure

def readLines : Reader State :=
  loop (fun s => do
    gap
    if ← atEnd then return .inr s
    let s ← if ← ahead "[[" then readHeader s 2
      else if ← ahead ['['] then readHeader s 1
      else readEntry s
    lineEnd
    return .inl s) {}

/-- The entries of a document. A byte order mark in front of it is skipped. -/
def parse? (t : Text) : Option Entries :=
  let t := match t with
    | '\uFEFF' :: t => t
    | t => t
  (readAll readLines t).map State.entries

end Ambient.Toml
