/-
Positions outside all brackets: where a text is split, where its first assignment stands, and where
an open bracket closes.

Round, square and curly brackets count together. Angle brackets count apart, and the arrow `=>` does
not close one, so type arguments and function types nest as they should.
-/
import Ambient.Code.Chars

namespace Ambient.Code

/-- The brackets open before a character, and the code character before it. -/
structure Nesting where
  brackets : Int := 0
  angles : Nat := 0
  last : Option Char := none
deriving DecidableEq, Repr

namespace Nesting

def step (n : Nesting) (c : Char) : Nesting :=
  if c = '<' then { n with angles := n.angles + 1, last := some c }
  else if c = '>' ∧ n.last ≠ some '=' ∧ 0 < n.angles then
    { n with angles := n.angles - 1, last := some c }
  else { n with brackets := n.brackets + weight c, last := some c }

def atTop (n : Nesting) : Bool :=
  n.brackets == 0 && n.angles == 0

end Nesting

/-- The offset of the first character outside all brackets that satisfies `p`. -/
def findFrom? (p : Nat → Char → Bool) : Nesting → List CodeChar → Option Nat
  | _, [] => none
  | n, (i, c) :: cs => if n.atTop && p i c then some i else findFrom? p (n.step c) cs

def find? (p : Nat → Char → Bool) (t : Text) : Option Nat :=
  findFrom? p {} (chars t)

/-- The offsets of the separators outside all brackets. -/
def separatorsFrom (sep : Char) : Nesting → List CodeChar → List Nat
  | _, [] => []
  | n, (i, c) :: cs =>
    if c = sep ∧ n.atTop then i :: separatorsFrom sep { n with last := some c } cs
    else separatorsFrom sep (n.step c) cs

/-- The pieces between cuts, for a text that starts at byte `start` and cuts `width` bytes wide. -/
def piecesAt (width start : Nat) (t : Text) : List Nat → List Text
  | [] => [t]
  | i :: cuts =>
    Text.takeBytes t (i - start) ::
      piecesAt width (i + width) (Text.dropBytes t (i + width - start)) cuts

/-- The text split at the separators outside all brackets. The pieces are trimmed, and the empty ones
left out. -/
def split (sep : Char) (t : Text) : List Text :=
  ((piecesAt sep.utf8Size 0 t (separatorsFrom sep {} (chars t))).map Text.trim).filter (!·.isEmpty)

theorem length_le_of_mem_piecesAt {width start : Nat} {t p : Text} {cuts : List Nat}
    (h : p ∈ piecesAt width start t cuts) : p.length ≤ t.length := by
  induction cuts generalizing start t with
  | nil => simp only [piecesAt, List.mem_singleton] at h; simp [h]
  | cons i cuts ih =>
    simp only [piecesAt, List.mem_cons] at h
    rcases h with rfl | h
    · exact Text.length_takeBytes_le t _
    · exact Nat.le_trans (ih h) (Text.length_dropBytes_le t _)

theorem length_le_of_mem_split {sep : Char} {t p : Text} (h : p ∈ split sep t) :
    p.length ≤ t.length := by
  simp only [split, List.mem_filter, List.mem_map] at h
  obtain ⟨⟨q, hq, rfl⟩, _⟩ := h
  exact Nat.le_trans (Text.length_trim_le q) (length_le_of_mem_piecesAt hq)

theorem ne_nil_of_mem_split {sep : Char} {t p : Text} (h : p ∈ split sep t) : p ≠ [] := by
  simp only [split, List.mem_filter, Bool.not_eq_true', List.isEmpty_eq_false_iff] at h
  exact h.2

/-- The character whose last byte is byte `n - 1`. -/
def charBefore? (t : Text) (n : Nat) : Option Char :=
  (Text.takeBytes t n).getLast?

def charAfter? (t : Text) (n : Nat) : Option Char :=
  (Text.dropBytes t n).head?

/-- Whether the `=` at byte `i` is part of an arrow or of a comparison. -/
def isCompound (t : Text) (i : Nat) : Bool :=
  (charAfter? t (i + 1)).any (fun c => c == '>' || c == '=') ||
    (charBefore? t i).any fun c => c == '=' || c == '!' || c == '<' || c == '>'

/-- The offset of the first `=` outside all brackets that assigns. -/
def assignment? (t : Text) : Option Nat :=
  find? (fun i c => c == '=' && !isCompound t i) t

/-- The bracket that closes `c`, for the four kinds of brackets. -/
def closer? : Char → Option Char
  | '{' => some '}'
  | '(' => some ')'
  | '[' => some ']'
  | '<' => some '>'
  | _ => none

/-- The offset at which the depth of one kind of brackets comes back to zero. The arrow `=>` closes
no angle bracket. -/
def closeFrom? (opener closer : Char) : Int → Option Char → List CodeChar → Option Nat
  | _, _, [] => none
  | depth, last, (i, c) :: cs =>
    if c = opener then closeFrom? opener closer (depth + 1) (some c) cs
    else if c = closer ∧ ¬(closer = '>' ∧ last = some '=') then
      if depth - 1 = 0 then some i else closeFrom? opener closer (depth - 1) (some c) cs
    else closeFrom? opener closer depth (some c) cs

/-- The offset of the bracket that closes the one the text starts with. -/
def close? (t : Text) : Option Nat := do
  let opener ← t.head?
  let closer ← closer? opener
  closeFrom? opener closer 0 none (chars t)

/-- The offset of the bracket that closes the one at byte `start`. The text before that byte plays no
role. -/
def closeAt? (t : Text) (start : Nat) : Option Nat :=
  (close? (Text.dropBytes t start)).map (start + ·)

end Ambient.Code
