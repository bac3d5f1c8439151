/-
The patterns of ignore files. A pattern is matched against the bytes of a whole path: `?` and `*`
stay within one component, `**` goes over components where it is one of its own, brackets list
characters and braces list patterns.
-/
import Ambient.Text.Basic

namespace Ambient.Ignore

abbrev Bytes := List UInt8

def encode (t : Text) : Bytes :=
  t.flatMap String.utf8EncodeChar

def slash : UInt8 :=
  47

/-- The bytes from the first to the last. -/
structure ByteRange where
  first : UInt8
  last : UInt8
deriving DecidableEq, Repr

def ByteRange.contains (r : ByteRange) (b : UInt8) : Bool :=
  decide (r.first ≤ b) && decide (b ≤ r.last)

/-- A part of a pattern. -/
inductive Piece where
  | byte (b : UInt8)
  /-- Any byte but a slash. -/
  | anyByte
  /-- Any number of bytes but slashes. -/
  | anyRun
  /-- Any number of components at the start, with the slash behind them. -/
  | anyAbove
  /-- Anything behind a slash. -/
  | anyBelow
  /-- Any number of components between two slashes, with the slashes. -/
  | anyBetween
  | oneOf (negated : Bool) (ranges : List ByteRange)
  | choice (branches : List (List Piece))
deriving Repr

/-- Why a text is no pattern. -/
inductive PatternError where
  | reversedRange (first last : Char)
  | unopenedGroup
  | unclosedGroup
  | danglingEscape
deriving DecidableEq, Repr

def PatternError.message : PatternError → Text
  | .reversedRange first last =>
    ("invalid range; '" : Text) ++ [first] ++ ("' > '" : Text) ++ [last] ++ ['\'']
  | .unopenedGroup =>
    "unopened alternate group; missing '\x7b' (maybe escape '\x7d' with '[\x7d]'?)"
  | .unclosedGroup =>
    "unclosed alternate group; missing '\x7d' (maybe escape '\x7b' with '[\x7b]'?)"
  | .danglingEscape => "dangling '\\'"

/-! ## Matching -/

/-- What can be left of a text behind a run without slashes. -/
def afterRun : Bytes → List Bytes
  | [] => [[]]
  | b :: s => (b :: s) :: if b = slash then [] else afterRun s

/-- What is left of a text behind each of its slashes. -/
def afterSlashes : Bytes → List Bytes
  | [] => []
  | b :: s => if b = slash then s :: afterSlashes s else afterSlashes s

def tails : Bytes → List Bytes
  | [] => [[]]
  | b :: s => (b :: s) :: tails s

mutual

/-- What can be left of a text behind a piece. -/
def Piece.rests : Piece → Bytes → List Bytes
  | .byte b, s =>
    match s with
    | c :: s => if c = b then [s] else []
    | [] => []
  | .anyByte, s =>
    match s with
    | c :: s => if c = slash then [] else [s]
    | [] => []
  | .anyRun, s => afterRun s
  | .anyAbove, s => s :: afterSlashes s
  | .anyBelow, s =>
    match s with
    | c :: s => if c = slash then tails s else []
    | [] => []
  | .anyBetween, s =>
    match s with
    | c :: s => if c = slash then s :: afterSlashes s else []
    | [] => []
  | .oneOf negated ranges, s =>
    match s with
    | c :: s => if ranges.any (·.contains c) != negated then [s] else []
    | [] => []
  | .choice [], s => [s]
  | .choice (branch :: branches), s => restsOfAny (branch :: branches) s

/-- What can be left of one of some texts behind all pieces. -/
def restsOfAll : List Piece → List Bytes → List Bytes
  | [], texts => texts
  | piece :: pieces, texts => restsOfAll pieces (texts.flatMap fun s => piece.rests s).eraseDups

/-- What can be left of a text behind one of the branches. -/
def restsOfAny : List (List Piece) → Bytes → List Bytes
  | [], _ => []
  | branch :: branches, s => restsOfAll branch [s] ++ restsOfAny branches s

end

/-- Whether a pattern matches a whole path. One that is `**` alone matches every path. -/
def matchesPath (pattern : List Piece) (path : Bytes) : Bool :=
  match pattern with
  | [.anyAbove] => true
  | _ => (restsOfAll pattern [path]).contains []

/-! ## Reading -/

/-- The bytes that a range of characters between brackets lists: those of each character, and all
between the last of the first character and the first of the last. -/
def byteRanges (range : Char × Char) : List ByteRange :=
  let single (b : UInt8) : ByteRange := ⟨b, b⟩
  if range.1 = range.2 then (String.utf8EncodeChar range.1).map single
  else
    match (String.utf8EncodeChar range.1).getLast?, String.utf8EncodeChar range.2 with
    | some a, z :: more =>
      (String.utf8EncodeChar range.1).dropLast.map single ++ ⟨a, z⟩ :: more.map single
    | _, _ => []

/-- Reads what is left between brackets behind `ranges`, which stand in reverse, and gives what
follows. There is nothing when no bracket closes them. A bracket in the first place is listed, and so
is a dash that is not between two characters. -/
def readRanges (first inRange : Bool) (ranges : List (Char × Char)) :
    Text → Except PatternError (Option (List (Char × Char) × Text))
  | [] => .ok none
  | c :: t =>
    if c = ']' ∧ !first then
      .ok (some ((if inRange then ('-', '-') :: ranges else ranges).reverse, t))
    else if c = '-' ∧ !first ∧ !inRange then readRanges false true ranges t
    else
      match inRange, ranges with
      | true, (low, _) :: rest =>
        if c < low then .error (.reversedRange low c) else readRanges false false ((low, c) :: rest) t
      | _, _ => readRanges false false ((c, c) :: ranges) t

/-- Reads brackets behind the one that opens them. -/
def readClass (t : Text) : Except PatternError (Option (Piece × Text)) :=
  let read (negated : Bool) (t : Text) : Except PatternError (Option (Piece × Text)) :=
    (readRanges true false [] t).map fun r =>
      r.map fun (ranges, rest) => (.oneOf negated (ranges.flatMap byteRanges), rest)
  match t with
  | '!' :: t => read true t
  | '^' :: t => read true t
  | t => read false t

theorem length_lt_of_readRanges {first inRange : Bool} {ranges found : List (Char × Char)}
    {t rest : Text} (h : readRanges first inRange ranges t = .ok (some (found, rest))) :
    rest.length < t.length := by
  induction t generalizing first inRange ranges with
  | nil => simp [readRanges] at h
  | cons c t ih =>
    unfold readRanges at h
    split at h
    · simp only [Except.ok.injEq, Option.some.injEq, Prod.mk.injEq] at h
      simp [← h.2]
    · split at h
      · exact Nat.lt_succ_of_lt (ih h)
      · split at h
        · split at h
          · simp at h
          · exact Nat.lt_succ_of_lt (ih h)
        · exact Nat.lt_succ_of_lt (ih h)

theorem exists_readRanges_of_map {negated : Bool} {t rest : Text} {piece : Piece}
    (h : (readRanges true false [] t).map (fun r => r.map fun (ranges, rest) =>
      (Piece.oneOf negated (ranges.flatMap byteRanges), rest)) = .ok (some (piece, rest))) :
    ∃ found, readRanges true false [] t = .ok (some (found, rest)) := by
  cases hr : readRanges true false [] t with
  | error e => simp [hr, Except.map] at h
  | ok r =>
    cases r with
    | none => simp [hr, Except.map] at h
    | some p =>
      simp only [hr, Except.map, Option.map_some, Except.ok.injEq, Option.some.injEq,
        Prod.mk.injEq] at h
      exact ⟨p.1, by rw [← h.2]⟩

theorem length_lt_of_readClass {t rest : Text} {piece : Piece}
    (h : readClass t = .ok (some (piece, rest))) : rest.length < t.length := by
  unfold readClass at h
  split at h
  · obtain ⟨_, hr⟩ := exists_readRanges_of_map h
    exact Nat.lt_succ_of_lt (length_lt_of_readRanges hr)
  · obtain ⟨_, hr⟩ := exists_readRanges_of_map h
    exact Nat.lt_succ_of_lt (length_lt_of_readRanges hr)
  · obtain ⟨_, hr⟩ := exists_readRanges_of_map h
    exact length_lt_of_readRanges hr

/-- A pattern that is read in part, everything in reverse. -/
structure Draft where
  /-- The innermost branch that is open. -/
  pieces : List Piece := []
  /-- The branches of the same group before it. -/
  branches : List (List Piece) := []
  /-- The same two of each group around it, the innermost first. -/
  outer : List (List Piece × List (List Piece)) := []

namespace Draft

def isGrouped (d : Draft) : Bool :=
  !d.outer.isEmpty

def push (d : Draft) (p : Piece) : Draft :=
  { d with pieces := p :: d.pieces }

def pushChar (d : Draft) (c : Char) : Draft :=
  (String.utf8EncodeChar c).foldl (fun d b => d.push (.byte b)) d

/-- The draft with a piece in place of the last one, unless that goes over components already. -/
def replaceLast (d : Draft) (p : Piece) : Draft :=
  match d.pieces with
  | .anyAbove :: _ | .anyBelow :: _ => d
  | _ :: rest => { d with pieces := p :: rest }
  | [] => d.push p

def openGroup (d : Draft) : Draft :=
  { outer := (d.pieces, d.branches) :: d.outer }

def nextBranch (d : Draft) : Draft :=
  if d.isGrouped then { d with pieces := [], branches := d.pieces.reverse :: d.branches }
  else d.pushChar ','

/-- Whether pieces stand for the empty text only. -/
def isBlank (pieces : List Piece) : Bool :=
  pieces.all fun
    | .choice [] => true
    | _ => false

def closeGroup? (d : Draft) : Option Draft :=
  match d.outer with
  | [] => none
  | (pieces, branches) :: outer =>
    let all := (d.pieces.reverse :: d.branches).reverse
    some { pieces := .choice (all.filter (!isBlank ·)) :: pieces, branches := branches, outer := outer }

end Draft

/-- Reads the rest of a pattern behind the character `before`. -/
def parseFrom (before : Option Char) (d : Draft) (t : Text) : Except PatternError Draft :=
  let stars := (d.push .anyRun).push .anyRun
  match t with
  | [] => .ok d
  | '?' :: t => parseFrom (some '?') (d.push .anyByte) t
  | '*' :: '*' :: t =>
    if d.pieces.isEmpty then
      match t with
      | [] => .ok (d.push .anyAbove)
      | '/' :: t => parseFrom (some '/') (d.push .anyAbove) t
      | t => parseFrom (some '*') stars t
    else if before = some '/' ∨ d.isGrouped ∧ (before = some ',' ∨ before = some '\x7b') then
      match t with
      | [] => .ok (d.replaceLast .anyBelow)
      | '/' :: t => parseFrom (some '/') (d.replaceLast .anyBetween) t
      | c :: t =>
        if d.isGrouped ∧ (c = ',' ∨ c = '\x7d') then
          parseFrom (some '*') (d.replaceLast .anyBelow) (c :: t)
        else parseFrom (some '*') stars (c :: t)
    else parseFrom (some '*') stars t
  | '*' :: t => parseFrom (some '*') (d.push .anyRun) t
  | '[' :: t =>
    match h : readClass t with
    | .error e => .error e
    | .ok (some (piece, rest)) =>
      have := length_lt_of_readClass h
      parseFrom (some ']') (d.push piece) rest
    | .ok none => parseFrom (some '[') (d.pushChar '[') t
  | '\x7b' :: t => parseFrom (some '\x7b') d.openGroup t
  | '\x7d' :: t =>
    match d.closeGroup? with
    | none => .error .unopenedGroup
    | some d => parseFrom (some '\x7d') d t
  | ',' :: t => parseFrom (some ',') d.nextBranch t
  | ['\\'] => .error .danglingEscape
  | '\\' :: c :: t => parseFrom (some c) (d.pushChar c) t
  | c :: t => parseFrom (some c) (d.pushChar c) t
termination_by t.length

def parse (t : Text) : Except PatternError (List Piece) := do
  let d ← parseFrom none {} t
  if d.isGrouped then throw .unclosedGroup else return d.pieces.reverse

end Ambient.Ignore
