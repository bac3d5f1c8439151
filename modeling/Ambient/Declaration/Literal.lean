/-
The type of an initializer that is one literal: its own text, or `any[]` for a bracketed list.

Expressions are never evaluated. Whatever is not seen to be a literal gets the fallback type.
-/
import Ambient.Code.Chars

namespace Ambient.Declaration

open Text (isDigit trim trimEnd trimEndWhile startsWith endsWith)

/-- The type of what is not a literal. -/
inductive Fallback where
  | any
  | string
deriving DecidableEq, Repr

def Fallback.text : Fallback → Text
  | .any => "any"
  | .string => "string"

/-! ## Numerals -/

def isDigitOrGap (c : Char) : Bool :=
  isDigit c || c == '_'

/-- The digits of a base other than ten, by the letter after the leading zero. -/
def baseDigit? : Char → Option (Char → Bool)
  | 'x' | 'X' => some fun c => c.isDigit || ('a' ≤ c && c ≤ 'f') || ('A' ≤ c && c ≤ 'F')
  | 'o' | 'O' => some fun c => '0' ≤ c && c ≤ '7'
  | 'b' | 'B' => some fun c => c == '0' || c == '1'
  | _ => none

/-- What follows the digits before and after the decimal point. One of the two may be missing. -/
def afterMantissa? : Text → Option Text
  | '.' :: c :: rest => if isDigit c then some (rest.dropWhile isDigitOrGap) else none
  | c :: rest =>
    if isDigit c then
      match rest.dropWhile isDigitOrGap with
      | '.' :: rest => some (rest.dropWhile isDigitOrGap)
      | rest => some rest
    else none
  | [] => none

/-- What follows an exponent, when the text starts with one, and the text otherwise. -/
def afterExponent (t : Text) : Text :=
  match t with
  | [] => t
  | e :: rest =>
    if e = 'e' ∨ e = 'E' then
      let digits := match rest with
        | '+' :: digits | '-' :: digits => digits
        | digits => digits
      if digits.head?.any isDigit then digits.dropWhile isDigit else t
    else t

/-- Whether nothing, or only the mark of a big integer, is left. -/
def isNumeralEnd (t : Text) : Bool :=
  t == [] || t == ['n']

def isUnsignedNumeral (t : Text) : Bool :=
  let inBase := match t with
    | '0' :: b :: digits =>
      match baseDigit? b with
      | some isBaseDigit =>
        let isBaseDigit := fun c => isBaseDigit c || c == '_'
        digits.head?.any isBaseDigit && isNumeralEnd (digits.dropWhile isBaseDigit)
      | none => false
    | _ => false
  inBase || (afterMantissa? t).any fun rest => isNumeralEnd (afterExponent rest)

/-- Whether a text is one number: decimal, with digits of any script, or hexadecimal, octal or
binary. -/
def isNumeral : Text → Bool
  | '-' :: t => isUnsignedNumeral t
  | t => isUnsignedNumeral t

/-! ## Literals -/

/-- Whether a text is one string in single or double quotes, so that none of it is code. -/
def isString (t : Text) : Bool :=
  match t with
  | [] => false
  | mark :: _ =>
    (mark == '\'' || mark == '"') && decide (2 ≤ Text.size t) && t.getLast? == some mark &&
      (Code.chars t).isEmpty

/-- An expression without semicolons and a const assertion at its end. -/
def bare (expr : Text) : Text :=
  let expr := trimEnd (trimEndWhile (· == ';') (trim expr))
  match Text.before? expr "as const" with
  | some expr => trimEnd expr
  | none => expr

/-- The type of an expression that is one literal. -/
def literalType? (expr : Text) : Option Text :=
  let expr := bare expr
  if expr = ("true" : Text) ∨ expr = ("false" : Text) ∨ isNumeral expr ∨ isString expr then some expr
  else if startsWith expr ['['] ∧ endsWith expr [']'] then some "any[]"
  else none

/-- The type of an expression. -/
def valueType (fallback : Fallback) (expr : Text) : Text :=
  (literalType? expr).getD fallback.text

end Ambient.Declaration
