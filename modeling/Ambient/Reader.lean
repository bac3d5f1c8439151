/-
Readers of structured text: each takes what it reads off the front of the text, or fails.
-/
import Ambient.Text.Basic

namespace Ambient

abbrev Reader (α : Type) := StateT Text Option α

namespace Reader

def peek? : Reader (Option Char) :=
  return (← get).head?

def atEnd : Reader Bool :=
  return (← get).isEmpty

def next : Reader Char := do
  match ← get with
  | [] => failure
  | c :: t => set t; return c

/-- A character that satisfies `p`. -/
def satisfy (p : Char → Bool) : Reader Char := do
  let c ← next
  if p c then return c else failure

def char (c : Char) : Reader Unit :=
  discard (satisfy (· == c))

/-- The given text. -/
def exactly (t : Text) : Reader Unit := do
  match Text.after? (← get) t with
  | some rest => set rest
  | none => failure

/-- Reads the given text if it comes next, and tells whether it did. -/
def accept (t : Text) : Reader Bool := do
  match Text.after? (← get) t with
  | some rest => set rest; return true
  | none => return false

/-- Whether the given text comes next. -/
def ahead (t : Text) : Reader Bool :=
  return Text.startsWith (← get) t

/-- The longest run of characters that satisfy `p`. -/
def takeWhile (p : Char → Bool) : Reader Text := do
  let t ← get
  set (t.dropWhile p)
  return t.takeWhile p

/-- Exactly `n` characters that satisfy `p`. -/
def exactlyN (n : Nat) (p : Char → Bool) : Reader Text := do
  let t := (← get).take n
  if t.length = n ∧ t.all p then
    set ((← get).drop n)
    return t
  else failure

/-- Repeats `step` until it gives a result. A step that goes on has to read something. -/
def loop {σ β : Type} (step : σ → Reader (σ ⊕ β)) (s : σ) (t : Text) : Option (β × Text) :=
  match step s t with
  | none => none
  | some (.inr b, rest) => some (b, rest)
  | some (.inl s, rest) => if rest.length < t.length then loop step s rest else none
termination_by t.length

/-- The result of a reader on a whole text. -/
def readAll {α : Type} (r : Reader α) (t : Text) : Option α :=
  match r t with
  | some (a, []) => some a
  | _ => none

end Reader

end Ambient
