/-
Numbers, booleans and dates of TOML: values written as one run of letters, digits and signs.
-/
import Ambient.Numeral
import Ambient.Reader
import Ambient.Toml.Value

namespace Ambient.Toml

open Reader

/-- Digits of a base, with single underscores between them, which are left out. -/
def digits (base : Nat) : Reader Text := do
  let run ← takeWhile fun c => Numeral.isDigitIn base c || c == '_'
  let groups := run.splitOn '_'
  if groups.any (·.isEmpty) then failure
  else return groups.flatten

/-- Decimal digits without a zero in front. -/
def plainDigits : Reader Text := do
  let run ← digits 10
  if 1 < run.length ∧ run.head? = some '0' then failure else return run

/-- A sign, and whether it is a minus. -/
def sign : Reader Bool := do
  if ← accept ['-'] then return true
  discard (accept ['+'])
  return false

/-- The least and the greatest integer that are read. -/
def integerMin : Int := -Int.ofNat (Nat.pow 2 127)
def integerMax : Int := Int.ofNat (Nat.pow 2 128 - 1)

def checkedInteger (n : Int) : Reader Value :=
  if integerMin ≤ n ∧ n ≤ integerMax then return .integer n else failure

def integer : Reader Value := do
  if ← accept "0x" then checkedInteger (Numeral.value 16 (← digits 16))
  else if ← accept "0o" then checkedInteger (Numeral.value 8 (← digits 8))
  else if ← accept "0b" then checkedInteger (Numeral.value 2 (← digits 2))
  else
    let negative ← sign
    let n : Int := Numeral.value 10 (← plainDigits)
    checkedInteger (if negative then -n else n)

/-- A float with a fraction, an exponent or both. One too large for a double is refused. -/
def float : Reader Value := do
  let whole ← get
  discard sign
  if (← accept "inf") || (← accept "nan") then return .float whole
  let head ← plainDigits
  let fraction ← if ← accept ['.'] then some <$> digits 10 else pure none
  let exponent ← if (← accept ['e']) || (← accept ['E']) then
      let negative ← sign
      let n : Int := Numeral.value 10 (← digits 10)
      pure (some (if negative then -n else n))
    else pure none
  let places := fraction.getD []
  if (fraction.isNone ∧ exponent.isNone) ∨
      Numeral.overflowsDouble (head ++ places) (exponent.getD 0 - places.length) then failure
  else return .float whole

def boolean : Reader Value :=
  (exactly "true" *> pure (.boolean true)) <|> (exactly "false" *> pure (.boolean false))

/-! ## Dates and times -/

/-- A number of exactly `n` digits between two bounds. -/
def numberWithin (n low high : Nat) : Reader Nat := do
  let k := Numeral.value 10 (← exactlyN n Char.isDigit)
  if low ≤ k ∧ k ≤ high then return k else failure

def daysIn (year month : Nat) : Nat :=
  if month = 2 then
    if year % 4 = 0 ∧ (year % 100 ≠ 0 ∨ year % 400 = 0) then 29 else 28
  else if month = 4 ∨ month = 6 ∨ month = 9 ∨ month = 11 then 30
  else 31

def date : Reader Unit := do
  let year ← numberWithin 4 0 9999
  char '-'
  let month ← numberWithin 2 1 12
  char '-'
  discard (numberWithin 2 1 (daysIn year month))

/-- A time of day. Seconds, and their fraction, may be left out. -/
def time : Reader Unit := do
  discard (numberWithin 2 0 23)
  char ':'
  discard (numberWithin 2 0 59)
  if ← accept [':'] then
    discard (numberWithin 2 0 60)
    if ← accept ['.'] then
      if (← takeWhile Char.isDigit).isEmpty then failure

def offset : Reader Unit := do
  if (← accept ['Z']) || (← accept ['z']) then return
  discard (satisfy fun c => c == '+' || c == '-')
  discard (numberWithin 2 0 23)
  char ':'
  discard (numberWithin 2 0 59)

def dateTime : Reader Value := do
  let whole ← get
  (do date
      if !(← atEnd) then
        discard (satisfy fun c => c == 'T' || c == 't' || c == ' ')
        time
        if !(← atEnd) then offset) <|> time
  return .dateTime whole

/-! ## Scalars -/

def isScalarChar (c : Char) : Bool :=
  c.isAlphanum || c == '_' || c == '+' || c == '-' || c == '.' || c == ':'

/-- The text of a scalar. A date and a time may have a space between them. -/
def scalarText : Reader Text := do
  let run ← takeWhile isScalarChar
  match ← get with
  | ' ' :: c :: _ =>
    if c.isDigit ∧ (readAll date run).isSome then
      discard next
      return run ++ ' ' :: (← takeWhile isScalarChar)
    else return run
  | _ => return run

def scalar : Reader Value := do
  let t ← scalarText
  match readAll (boolean) t <|> readAll dateTime t <|> readAll integer t <|> readAll float t with
  | some v => return v
  | none => failure

end Ambient.Toml
