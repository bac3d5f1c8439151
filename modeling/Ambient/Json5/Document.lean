/-
Reading a JSON5 document.
-/
import Ambient.Json5.Identifier
import Ambient.Json5.Value
import Ambient.Numeral
import Ambient.Reader

namespace Ambient.Json5

open Reader

/-! ## Blanks and comments -/

def isLineTerminator (c : Char) : Bool :=
  c == '\n' || c == '\r' || c == '\u2028' || c == '\u2029'

def isSpaceSeparator (c : Char) : Bool :=
  Text.inRanges [(0x20, 0x20), (0xA0, 0xA0), (0x1680, 0x1680), (0x2000, 0x200A), (0x202F, 0x202F),
    (0x205F, 0x205F), (0x3000, 0x3000)] c

def isWhitespace (c : Char) : Bool :=
  c == '\t' || c == '\x0b' || c == '\x0c' || c == '\uFEFF' || isSpaceSeparator c || isLineTerminator c

/-- Blanks and comments. -/
def gap : Reader Unit :=
  loop (fun _ => do
    discard (takeWhile isWhitespace)
    if ← accept "//" then
      discard (takeWhile (!isLineTerminator ·))
      return .inl ()
    else if ← accept "/*" then
      match Text.splitFirst? "*/" (← get) with
      | some (_, rest) => set rest; return .inl ()
      | none => failure
    else return .inr ()) ()

/-! ## Strings and keys -/

/-- A part of a string: a character, or a unit of UTF-16 by its number. -/
inductive Piece where
  | char (c : Char)
  | unit (n : Nat)

/-- The text of the parts. Two units that make a surrogate pair are one character; half a pair is
none. -/
def textOf? : List Piece → Option Text
  | [] => some []
  | .char c :: rest => (textOf? rest).map (c :: ·)
  | .unit n :: rest =>
    if n < 0xD800 ∨ 0xDFFF < n then (textOf? rest).map (Char.ofNat n :: ·)
    else
      match rest with
      | .unit m :: rest =>
        if n < 0xDC00 ∧ 0xDC00 ≤ m ∧ m ≤ 0xDFFF then
          (textOf? rest).map (Char.ofNat (0x10000 + (n - 0xD800) * 0x400 + (m - 0xDC00)) :: ·)
        else none
      | _ => none

def hexNumber (digits : Nat) : Reader Nat :=
  return Numeral.value 16 (← exactlyN digits (Numeral.isDigitIn 16))

/-- What stands behind a backslash in a string. A line end there is left out. -/
def escape : Reader (List Piece) := do
  let c ← next
  match c with
  | 'b' => return [.char '\x08']
  | 'f' => return [.char '\x0c']
  | 'n' => return [.char '\n']
  | 'r' => return [.char '\r']
  | 't' => return [.char '\t']
  | 'v' => return [.char '\x0b']
  | '0' => return [.char '\x00']
  | 'x' => return [.char (Char.ofNat (← hexNumber 2))]
  | 'u' => return [.unit (← hexNumber 4)]
  | '\r' => discard (accept "\n"); return []
  | _ =>
    if isLineTerminator c then return []
    else if c.isDigit then failure
    else return [.char c]

/-- The rest of a string behind its opening mark. -/
def stringPieces (mark : Char) : Reader (List Piece) :=
  loop (fun done => do
    let c ← next
    if c = mark then return .inr done.reverse
    else if c = '\\' then return .inl ((← escape).reverse ++ done)
    else if isLineTerminator c then failure
    else return .inl (.char c :: done)) []

/-- A character of an identifier. -/
def identifierPiece (p : Char → Bool) : Reader Piece :=
  (do exactly "\\u"; return .unit (← hexNumber 4)) <|> (do return .char (← satisfy p))

def identifierPieces : Reader (List Piece) := do
  let first ← identifierPiece isIdentifierStart
  loop (fun done =>
    (do return .inl (done ++ [← identifierPiece isIdentifierPart])) <|> pure (.inr done)) [first]

def key : Reader (Option Text) := do
  if ← accept ['"'] then return textOf? (← stringPieces '"')
  if ← accept ['\''] then return textOf? (← stringPieces '\'')
  return textOf? (← identifierPieces)

/-! ## Numbers -/

/-- Decimal digits without a zero in front. -/
def wholeDigits : Reader Text := do
  if ← accept ['0'] then return ['0']
  let t ← takeWhile Char.isDigit
  if t.isEmpty then failure else return t

/-- An exponent, when one comes next. -/
def exponent? : Reader (Option Int) :=
  (do discard (satisfy fun c => c == 'e' || c == 'E')
      let negative ← if ← accept ['-'] then pure true else do discard (accept ['+']); pure false
      let digits ← takeWhile Char.isDigit
      if digits.isEmpty then failure
      let n : Int := Numeral.value 10 digits
      return some (if negative then -n else n)) <|> pure none

/-- A decimal number behind its sign, and whether it can be read: an integer has to fit 64 bits, any
other number a double. -/
def decimal (negative : Bool) : Reader Bool :=
  (do let digits ← wholeDigits
      char '.'
      let places ← takeWhile Char.isDigit
      let exponent ← exponent?
      return !Numeral.overflowsDouble (digits ++ places) (exponent.getD 0 - places.length)) <|>
  (do char '.'
      let places ← takeWhile Char.isDigit
      if places.isEmpty then failure
      let exponent ← exponent?
      return !Numeral.overflowsDouble places (exponent.getD 0 - places.length)) <|>
  (do let digits ← wholeDigits
      match ← exponent? with
      | some exponent => return !Numeral.overflowsDouble digits exponent
      | none =>
        let n := Numeral.value 10 digits
        return decide (if negative then n ≤ Nat.pow 2 63 else n < Nat.pow 2 63))

/-- A number, and whether it can be read. Hexadecimal numbers take no sign and 32 bits, and infinity
and the number that is none take no plus. -/
def number : Reader Bool := do
  let sign ← (some <$> satisfy fun c => c == '+' || c == '-') <|> pure none
  (do exactly "0x" <|> exactly "0X"
      let digits ← takeWhile (Numeral.isDigitIn 16)
      if digits.isEmpty then failure
      return sign.isNone && decide (Numeral.value 16 digits < Nat.pow 2 32)) <|>
  decimal (sign == some '-') <|>
  (do exactly "Infinity" <|> exactly "NaN"
      return sign != some '+')

/-! ## Values -/

/-- The items of an array behind its opening bracket. -/
def arrayItems (value : Reader Value) : Reader (List Value) := do
  gap
  if ← accept [']'] then return []
  loop (fun items => do
    let items := items ++ [← value]
    gap
    if ← accept [','] then
      gap
      if ← accept [']'] then return .inr items else return .inl items
    char ']'
    return .inr items) []

/-- The entries of an object behind its opening brace. -/
def objectEntries (value : Reader Value) : Reader (List (Option Text × Value)) := do
  gap
  if ← accept ['}'] then return []
  loop (fun entries => do
    let k ← key
    gap
    char ':'
    gap
    let entries := entries ++ [(k, ← value)]
    gap
    if ← accept [','] then
      gap
      if ← accept ['}'] then return .inr entries else return .inl entries
    char '}'
    return .inr entries) []

def stringValue (mark : Char) : Reader Value := do
  match textOf? (← stringPieces mark) with
  | some t => return .string t
  | none => return .unreadable

/-- A value in which arrays and objects nest less than `depth` deep. -/
def value : Nat → Reader Value
  | 0 => failure
  | depth + 1 => do
    if ← accept "null" then return .null
    if ← accept "true" then return .boolean true
    if ← accept "false" then return .boolean false
    if ← accept ['"'] then stringValue '"'
    else if ← accept ['\''] then stringValue '\''
    else if ← accept ['['] then return .array (← arrayItems (value depth))
    else if ← accept ['{'] then return .object (← objectEntries (value depth))
    else return if ← number then .number else .unreadable

/-- The value of a document. -/
def parse? (t : Text) : Option Value :=
  readAll (do gap; let v ← value (t.length + 1); gap; return v) t

end Ambient.Json5
