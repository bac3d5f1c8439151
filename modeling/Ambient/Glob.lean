/-
Globs that select files by their path: `?` and `*` stay within one component, `**` is a component of
its own and stands for any number of them, and brackets list characters.
-/
import Ambient.Text.Basic

namespace Ambient

/-- A character, or a closed range of characters, between brackets. -/
inductive GlobClass where
  | single (c : Char)
  | range (first last : Char)
deriving DecidableEq, Repr

def GlobClass.contains (c : Char) : GlobClass → Bool
  | .single d => c == d
  | .range first last => decide (first ≤ c) && decide (c ≤ last)

inductive GlobToken where
  | char (c : Char)
  | anyChar
  | anySequence
  /-- Any number of components, with the slash behind them. -/
  | anyComponents
  | within (classes : List GlobClass)
  | except (classes : List GlobClass)
deriving DecidableEq, Repr

structure Glob where
  tokens : List GlobToken
deriving DecidableEq, Repr

/-- Why a text is no glob. -/
inductive GlobError where
  | tooManyStars (position : Nat)
  | partOfComponent (position : Nat)
  | unclosedBrackets (position : Nat)
deriving DecidableEq, Repr

namespace GlobError

/-- The place of an error, in characters. -/
def position : GlobError → Nat
  | .tooManyStars n | .partOfComponent n | .unclosedBrackets n => n

def reason : GlobError → Text
  | .tooManyStars _ => "wildcards are either regular `*` or recursive `**`"
  | .partOfComponent _ => "recursive wildcards must form a single path component"
  | .unclosedBrackets _ => "invalid range pattern"

def message (e : GlobError) : Text :=
  ("Pattern syntax error near position " : Text) ++ e.position.repr.toList ++ (": " : Text) ++ e.reason

end GlobError

namespace Glob

/-! ## Reading -/

/-- What stands between brackets. -/
def classes : Text → List GlobClass
  | a :: '-' :: b :: rest => .range a b :: classes rest
  | c :: rest => .single c :: classes rest
  | [] => []

/-- The text between brackets, and what follows them. The first character never closes them. -/
def brackets? : Text → Option (Text × Text)
  | [] => none
  | c :: rest =>
    match rest.dropWhile (· != ']') with
    | [] => none
    | _ :: after => some (c :: rest.takeWhile (· != ']'), after)

/-- The token of a pair of brackets, the number of characters between them, and what follows. -/
def bracketToken? (t : Text) : Option (GlobToken × Nat × Text) :=
  match t with
  | '!' :: t => (brackets? t).map fun (inner, after) => (.except (classes inner), inner.length + 1, after)
  | t => (brackets? t).map fun (inner, after) => (.within (classes inner), inner.length, after)

theorem length_lt_of_brackets? {t inner after : Text} (h : brackets? t = some (inner, after)) :
    after.length < t.length := by
  cases t with
  | nil => simp [brackets?] at h
  | cons c rest =>
    have hle := (List.dropWhile_sublist (l := rest) (· != ']')).length_le
    simp only [brackets?] at h
    split at h
    · simp at h
    · rename_i d after' he
      simp only [Option.some.injEq, Prod.mk.injEq] at h
      obtain ⟨_, rfl⟩ := h
      rw [he] at hle
      simp only [List.length_cons] at hle ⊢
      omega

theorem length_lt_of_bracketToken? {t after : Text} {token : GlobToken} {n : Nat}
    (h : bracketToken? t = some (token, n, after)) : after.length < t.length := by
  unfold bracketToken? at h
  split at h <;> simp only [Option.map_eq_some_iff, Prod.mk.injEq] at h
  · obtain ⟨⟨inner, rest⟩, hb, _, _, rfl⟩ := h
    have := length_lt_of_brackets? hb
    simp only [List.length_cons]
    omega
  · obtain ⟨⟨inner, rest⟩, hb, _, _, rfl⟩ := h
    exact length_lt_of_brackets? hb

/-- The tokens with `**` behind them. Where one ends them already it is not repeated, unless it stands
alone. -/
def pushComponents (tokens : List GlobToken) : List GlobToken :=
  if 1 < tokens.length ∧ tokens.getLast? = some .anyComponents then tokens
  else tokens ++ [.anyComponents]

/-- Reads the rest of a glob at character `pos`, behind `tokens` and the character `before`. -/
def parseFrom (tokens : List GlobToken) (before : Option Char) (pos : Nat) (t : Text) :
    Except GlobError (List GlobToken) :=
  match t with
  | [] => .ok tokens
  | '?' :: t => parseFrom (tokens ++ [.anyChar]) (some '?') (pos + 1) t
  | '*' :: '*' :: '*' :: _ => .error (.tooManyStars (pos + 2))
  | '*' :: '*' :: t =>
    if pos = 0 ∨ before = some '/' then
      match t with
      | [] => .ok (pushComponents tokens)
      | '/' :: t => parseFrom (pushComponents tokens) (some '/') (pos + 3) t
      | _ => .error (.partOfComponent (pos + 2))
    else .error (.partOfComponent (pos - 1))
  | '*' :: t => parseFrom (tokens ++ [.anySequence]) (some '*') (pos + 1) t
  | '[' :: t =>
    match h : bracketToken? t with
    | some (token, n, after) =>
      have := length_lt_of_bracketToken? h
      parseFrom (tokens ++ [token]) (some ']') (pos + n + 2) after
    | none => .error (.unclosedBrackets pos)
  | c :: t => parseFrom (tokens ++ [.char c]) (some c) (pos + 1) t
termination_by t.length

def parse (t : Text) : Except GlobError Glob :=
  (parseFrom [] none 0 t).map Glob.mk

/-! ## Matching -/

/-- How matching ends. When the text runs out before the glob, no other choice for a wildcard further
on can help. -/
inductive Outcome where
  | matched
  | mismatch
  | outOfText
deriving DecidableEq, Repr

/-- What matching gives when a wildcard takes more and more of the text and `next` the rest. -/
def tryAll (next : Text → Outcome) (components : Bool) : Text → Outcome
  | [] => next []
  | c :: t =>
    if components ∧ c ≠ '/' then tryAll next components t
    else if ¬components ∧ c = '/' then .mismatch
    else
      match next t with
      | .mismatch => tryAll next components t
      | result => result

/-- Whether a token for one character takes `c`. -/
def takes (c : Char) : GlobToken → Bool
  | .char d => c == d
  | .anyChar => c != '/'
  | .within classes => c != '/' && classes.any (·.contains c)
  | .except classes => c != '/' && !classes.any (·.contains c)
  | .anySequence | .anyComponents => false

def matchFrom : List GlobToken → Text → Outcome
  | [], t => if t.isEmpty then .matched else .mismatch
  | .anySequence :: tokens, t =>
    match matchFrom tokens t with
    | .mismatch => tryAll (matchFrom tokens) false t
    | result => result
  | .anyComponents :: tokens, t =>
    match matchFrom tokens t with
    | .mismatch => tryAll (matchFrom tokens) true t
    | result => result
  | _ :: _, [] => .outOfText
  | token :: tokens, c :: t => if takes c token then matchFrom tokens t else .mismatch

/-- Whether a glob selects a relative path. A backslash counts as a slash. -/
def selects (g : Glob) (path : Text) : Bool :=
  matchFrom g.tokens (path.map fun c => if c = '\\' then '/' else c) == .matched

end Glob

end Ambient
