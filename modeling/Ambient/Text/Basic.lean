/-
Texts as lists of characters, measured in UTF-8 bytes.

Offsets into a text count bytes. `takeBytes` and `dropBytes` cut at an offset; the offsets the rest
of the library cuts at are always boundaries between two characters (`isBoundary`).
-/
import Ambient.Text.Class

namespace Ambient

/-- A piece of source or of output. -/
abbrev Text := List Char

instance : Coe String Text := ⟨String.toList⟩

namespace Text

/-- The number of bytes of a text in UTF-8. -/
def size : Text → Nat
  | [] => 0
  | c :: t => c.utf8Size + size t

theorem size_append (t u : Text) : size (t ++ u) = size t + size u := by
  induction t with
  | nil => simp [size]
  | cons c t ih => simp [size, ih, Nat.add_assoc]

theorem eq_nil_of_size {t : Text} (h : size t = 0) : t = [] := by
  cases t with
  | nil => rfl
  | cons c t =>
    have hc := c.utf8Size_pos
    rw [size] at h
    omega

/-- The characters that end at or before byte `n`. -/
def takeBytes : Text → Nat → Text
  | [], _ => []
  | c :: t, n => if c.utf8Size ≤ n then c :: takeBytes t (n - c.utf8Size) else []

/-- What `takeBytes` leaves. -/
def dropBytes : Text → Nat → Text
  | [], _ => []
  | c :: t, n => if c.utf8Size ≤ n then dropBytes t (n - c.utf8Size) else c :: t

/-- Whether byte `n` stands between two characters, or at an end, of the text. -/
def isBoundary (t : Text) (n : Nat) : Bool :=
  size (takeBytes t n) == n

/-- The bytes `i`, …, `j - 1`. -/
def slice (t : Text) (i j : Nat) : Text :=
  takeBytes (dropBytes t i) (j - i)

theorem takeBytes_append_dropBytes (t : Text) (n : Nat) : takeBytes t n ++ dropBytes t n = t := by
  induction t generalizing n with
  | nil => rfl
  | cons c t ih =>
    simp only [takeBytes, dropBytes]
    split
    · simp [ih]
    · rfl

theorem length_takeBytes_le (t : Text) (n : Nat) : (takeBytes t n).length ≤ t.length := by
  have h := congrArg List.length (takeBytes_append_dropBytes t n)
  simp only [List.length_append] at h
  omega

theorem length_dropBytes_le (t : Text) (n : Nat) : (dropBytes t n).length ≤ t.length := by
  have h := congrArg List.length (takeBytes_append_dropBytes t n)
  simp only [List.length_append] at h
  omega

/-! ## Trimming -/

def trimStart (t : Text) : Text :=
  t.dropWhile isBlank

/-- The text without the characters at its end that satisfy `p`. -/
def trimEndWhile (p : Char → Bool) (t : Text) : Text :=
  (t.reverse.dropWhile p).reverse

def trimEnd (t : Text) : Text :=
  trimEndWhile isBlank t

def trim (t : Text) : Text :=
  trimEnd (trimStart t)

theorem length_dropWhile_le (p : Char → Bool) (t : Text) : (t.dropWhile p).length ≤ t.length :=
  (List.dropWhile_sublist p).length_le

theorem length_trimStart_le (t : Text) : (trimStart t).length ≤ t.length :=
  length_dropWhile_le _ t

theorem length_trimEnd_le (t : Text) : (trimEnd t).length ≤ t.length := by
  simpa [trimEnd, trimEndWhile] using length_dropWhile_le isBlank t.reverse

theorem length_trim_le (t : Text) : (trim t).length ≤ t.length :=
  Nat.le_trans (length_trimEnd_le _) (length_trimStart_le t)

/-! ## Looking for a text -/

def startsWith (t head : Text) : Bool :=
  head.isPrefixOf t

def endsWith (t tail : Text) : Bool :=
  tail.isSuffixOf t

/-- What follows `head`, when the text starts with it. -/
def after? : (t head : Text) → Option Text
  | t, [] => some t
  | [], _ :: _ => none
  | c :: t, d :: head => if c = d then after? t head else none

/-- What stands before `tail`, when the text ends with it. -/
def before? (t tail : Text) : Option Text :=
  (after? t.reverse tail.reverse).map List.reverse

/-- The text around the first occurrence of `sep`. -/
def splitFirst? (sep : Text) : Text → Option (Text × Text)
  | [] => (after? [] sep).map fun rest => ([], rest)
  | c :: t =>
    match after? (c :: t) sep with
    | some rest => some ([], rest)
    | none => (splitFirst? sep t).map fun (a, b) => (c :: a, b)

theorem eq_append_of_after? {t head rest : Text} (h : after? t head = some rest) : t = head ++ rest := by
  induction head generalizing t with
  | nil => simpa [after?] using h
  | cons d head ih =>
    cases t with
    | nil => simp [after?] at h
    | cons c t =>
      simp only [after?] at h
      split at h
      · rename_i hc
        rw [List.cons_append, ← ih h, hc]
      · simp at h

theorem eq_append_of_splitFirst? {sep t a b : Text} (h : splitFirst? sep t = some (a, b)) :
    t = a ++ sep ++ b := by
  induction t generalizing a b with
  | nil =>
    simp only [splitFirst?, Option.map_eq_some_iff, Prod.mk.injEq] at h
    obtain ⟨rest, hr, rfl, rfl⟩ := h
    simpa using eq_append_of_after? hr
  | cons c t ih =>
    simp only [splitFirst?] at h
    split at h
    · rename_i rest hr
      simp only [Option.some.injEq, Prod.mk.injEq] at h
      obtain ⟨rfl, rfl⟩ := h
      simpa using eq_append_of_after? hr
    · simp only [Option.map_eq_some_iff, Prod.mk.injEq] at h
      obtain ⟨⟨x, y⟩, hxy, rfl, rfl⟩ := h
      simp [ih hxy]

def contains (t part : Text) : Bool :=
  (splitFirst? part t).isSome

/-! ## Words and lines -/

/-- The longest identifier a text starts with. -/
def leadingWord? (t : Text) : Option Text :=
  match t.takeWhile isWordChar with
  | [] => none
  | word => some word

/-- The words of a text, a word being a longest run without blanks. -/
def words (t : Text) : List Text :=
  (t.splitOnP isBlank).filter (!·.isEmpty)

/-- The text with one space for each run of blanks, and none at its ends. -/
def collapse (t : Text) : Text :=
  List.intercalate [' '] (words t)

/-- The lines of a text, each with the line feed that ends it. -/
def fullLines : Text → List Text
  | [] => []
  | c :: t =>
    if c = '\n' then [c] :: fullLines t
    else
      match fullLines t with
      | [] => [[c]]
      | line :: rest => (c :: line) :: rest

/-- A line without the line feed that ends it and a carriage return before that. -/
def lineContent (line : Text) : Text :=
  match before? line ['\n'] with
  | none => line
  | some body => (before? body ['\r']).getD body

def lines (t : Text) : List Text :=
  (fullLines t).map lineContent

/-- The texts with a line feed between each two. -/
def joinLines (ls : List Text) : Text :=
  List.intercalate ['\n'] ls

end Text

end Ambient
