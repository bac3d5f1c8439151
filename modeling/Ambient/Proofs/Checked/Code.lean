/-
Checked readers of code.

The offsets that code characters have are where these characters stand (`exists_of_mem_chars`), so
that every search for one ends between characters of the text it searched. The cuts made there are
good, and a checked reader of code gives what the reader without checks gives.
-/
import Ambient.Proofs.Checked.Text
import Ambient.Proofs.Code.Closing

namespace Ambient.Checked

open Code (CodeChar Carry Mark Nesting State chars exists_of_close? exists_of_mem_chars
  exists_of_mem_marks mem_of_findFrom?)
open Text (size isBoundary isWordChar takeBytes dropBytes)

/-! ## Readers -/

/-- The pieces of `t` from byte `start` on, between cuts `width` bytes wide. -/
def pieces (t : Text) (width : Nat) : Nat → List Nat → Checked (List Text)
  | start, [] => do return [← behind t start]
  | start, i :: cuts => do return (← slice t start i) :: (← pieces t width (i + width) cuts)

def split (sep : Char) (t : Text) : Checked (List Text) := do
  let found ← pieces t sep.utf8Size 0 (Code.separatorsFrom sep {} (chars t))
  return (found.map Text.trim).filter (!·.isEmpty)

def findFrom? (p : Nat → Char → Checked Bool) : Nesting → List CodeChar → Checked (Option Nat)
  | _, [] => pure none
  | n, (i, c) :: cs => do
    let found ← if n.atTop then p i c else pure false
    if found then pure (some i) else findFrom? p (n.step c) cs

/-- The offset of the first character outside all brackets that satisfies `p`, which may cut. -/
def find? (p : Nat → Char → Checked Bool) (t : Text) : Checked (Option Nat) :=
  findFrom? p {} (chars t)

def charBefore? (t : Text) (i : Nat) : Checked (Option Char) :=
  if i = 0 then pure none else charAt t (i - 1)

def isCompound (t : Text) (i : Nat) : Checked Bool := do
  let last ← charBefore? t i
  return (Code.charAfter? t (i + 1)).any (fun c => c == '>' || c == '=') ||
    last.any fun c => c == '=' || c == '!' || c == '<' || c == '>'

def assignment? (t : Text) : Checked (Option Nat) :=
  find? (fun i c => if c = '=' then do return !(← isCompound t i) else pure false) t

def closeAt? (t : Text) (start : Nat) : Checked (Option Nat) := do
  return (Code.close? (← behind t start)).map (start + ·)

def stripLine (k : Carry) (line : Text) : Checked Text :=
  match Code.lineComment? k line with
  | none => pure line
  | some cut => do
    return Text.trimEnd (← before line cut) ++ if line.getLast? = some '\n' then ['\n'] else []

def stripLines : Carry → List Text → Checked Text
  | _, [] => pure []
  | k, line :: rest => do return (← stripLine k line) ++ (← stripLines (k.after line) rest)

def stripComments (t : Text) : Checked Text :=
  stripLines .code (Text.fullLines t)

def leadingWord? (t : Text) : Checked (Option Text) :=
  let stop := size (t.takeWhile isWordChar)
  if 0 < stop then do return some (← before t stop) else pure none

/-! ## Where code stands -/

/-- A text can be cut before and behind each code character. -/
theorem isBoundary_of_mem_chars {t : Text} {i : Nat} {c : Char} (h : (i, c) ∈ chars t) :
    isBoundary t i = true ∧ isBoundary t (i + c.utf8Size) = true := by
  obtain ⟨u, v, rfl, rfl⟩ := exists_of_mem_chars h
  refine ⟨isBoundary_append u _, ?_⟩
  have hsize : size u + c.utf8Size = size (u ++ [c]) := by
    rw [Text.size_append, size, size, Nat.add_zero]
  rw [hsize, ← List.singleton_append, ← List.append_assoc]
  exact isBoundary_append (u ++ [c]) v

/-! ## Pieces -/

/-- Cuts of a text that starts at byte `start`, each where a separator stands. -/
inductive Cuts (sep : Char) : Text → Nat → List Nat → Prop where
  | nil {t : Text} {start : Nat} : Cuts sep t start []
  | cons {u t : Text} {start : Nat} {cuts : List Nat}
      (h : Cuts sep t (start + size u + sep.utf8Size) cuts) :
      Cuts sep (u ++ sep :: t) start ((start + size u) :: cuts)

theorem Cuts.cons_char {sep : Char} {t : Text} {start : Nat} {cuts : List Nat} (c : Char)
    (h : Cuts sep t (start + c.utf8Size) cuts) : Cuts sep (c :: t) start cuts := by
  cases h with
  | nil => exact .nil
  | @cons u t _ cuts h =>
    have hstart : start + c.utf8Size + size u = start + size (c :: u) := by
      rw [size, Nat.add_assoc]
    rw [hstart] at h ⊢
    exact .cons h

theorem cuts_separatorsFrom (sep : Char) (n : Nesting) (s : State) (offset : Nat)
    (look : Option Char) (t : Text) :
    Cuts sep t offset
      (Code.separatorsFrom sep n ((Code.marks s offset look t).filterMap Mark.codeChar?)) := by
  induction t generalizing n s offset with
  | nil => exact .nil
  | cons c t ih =>
    simp only [Code.marks, List.filterMap_cons, Mark.codeChar?]
    cases (s.step c (t.head?.or look)).1 with
    | lineComment => exact .cons_char c (ih _ _ _)
    | hidden => exact .cons_char c (ih _ _ _)
    | code =>
      simp only [Code.separatorsFrom]
      split
      · rename_i hsep
        rw [hsep.1]
        exact @Cuts.cons sep [] t offset _ (ih _ _ (offset + sep.utf8Size))
      · exact .cons_char c (ih _ _ _)

theorem pieces_eq {sep : Char} {v : Text} {start : Nat} {cuts : List Nat}
    (h : Cuts sep v start cuts) (u : Text) (hu : size u = start) :
    pieces (u ++ v) sep.utf8Size start cuts = pure (Code.piecesAt sep.utf8Size start v cuts) := by
  induction h generalizing u with
  | nil => rw [pieces, ← hu, behind_append, Code.piecesAt, pure_bind]
  | @cons w t start cuts _ ih =>
    have hrest := ih (u ++ w ++ [sep]) (by simp only [Text.size_append, hu, size, Nat.add_zero])
    rw [List.append_assoc, List.append_assoc, List.singleton_append] at hrest
    rw [pieces, hrest, ← hu, slice_append, Code.piecesAt, Nat.add_sub_cancel_left,
      Text.takeBytes_append, Nat.add_assoc, Nat.add_sub_cancel_left, Text.dropBytes_append_cons]
    rfl

theorem split_eq (sep : Char) (t : Text) : split sep t = pure (Code.split sep t) := by
  have hpieces := pieces_eq (cuts_separatorsFrom sep {} {} 0 none t) [] rfl
  rw [List.nil_append] at hpieces
  rw [split, chars, Code.charsFrom, Carry.state, hpieces, pure_bind, Code.split]
  rfl

/-! ## Searches -/

theorem findFrom?_eq {p : Nat → Char → Checked Bool} {q : Nat → Char → Bool} {cs : List CodeChar}
    (h : ∀ i c, (i, c) ∈ cs → p i c = pure (q i c)) (n : Nesting) :
    findFrom? p n cs = pure (Code.findFrom? q n cs) := by
  induction cs generalizing n with
  | nil => rfl
  | cons x cs ih =>
    obtain ⟨i, c⟩ := x
    have hrest := ih (fun j d hd => h j d (List.mem_cons_of_mem _ hd)) (n.step c)
    rw [findFrom?, Code.findFrom?, h i c List.mem_cons_self, hrest]
    cases n.atTop <;> cases q i c <;> rfl

theorem find?_eq {p : Nat → Char → Checked Bool} {q : Nat → Char → Bool} {t : Text}
    (h : ∀ i c, (i, c) ∈ chars t → p i c = pure (q i c)) : find? p t = pure (Code.find? q t) :=
  findFrom?_eq h {}

/-- Where a search for characters of one byte ends, the text can be cut on both sides. -/
theorem isBoundary_of_find? {q : Nat → Char → Bool} {t : Text} {i : Nat}
    (h : Code.find? q t = some i) (hq : ∀ i c, q i c = true → c.utf8Size = 1) :
    isBoundary t i = true ∧ isBoundary t (i + 1) = true := by
  obtain ⟨c, hc, hp⟩ := mem_of_findFrom? h
  have hboundary := isBoundary_of_mem_chars hc
  rw [hq i c hp] at hboundary
  exact hboundary

theorem charBefore?_append (t u : Text) : charBefore? (t ++ u) (size t) = pure t.getLast? := by
  rcases List.eq_nil_or_concat t with rfl | ⟨v, c, rfl⟩
  · rfl
  · rw [List.concat_eq_append]
    have hc := c.utf8Size_pos
    have hsize : size (v ++ [c]) = size v + c.utf8Size := by
      rw [Text.size_append, size, size, Nat.add_zero]
    rw [charBefore?, hsize, if_neg (by omega), List.append_assoc, List.singleton_append,
      charAt_append, List.getLast?_concat]

theorem isCompound_eq {t : Text} {i : Nat} {c : Char} (h : (i, c) ∈ chars t) :
    isCompound t i = pure (Code.isCompound t i) := by
  obtain ⟨u, v, rfl, rfl⟩ := exists_of_mem_chars h
  rw [isCompound, charBefore?_append, pure_bind, Code.isCompound, Code.charBefore?_append]

theorem assignment?_eq (t : Text) : assignment? t = pure (Code.assignment? t) := by
  refine find?_eq fun i c hc => ?_
  by_cases hequals : c = '='
  · rw [if_pos hequals, isCompound_eq hc, pure_bind, hequals]
    rfl
  · rw [if_neg hequals, beq_eq_false_iff_ne.2 hequals]
    rfl

theorem isBoundary_of_assignment? {t : Text} {i : Nat} (h : Code.assignment? t = some i) :
    isBoundary t i = true ∧ isBoundary t (i + 1) = true := by
  refine isBoundary_of_find? h fun i c hc => ?_
  rw [Bool.and_eq_true, beq_iff_eq] at hc
  rw [hc.1]
  rfl

/-! ## Brackets -/

theorem closeAt?_eq {t : Text} {start : Nat} (h : isBoundary t start = true) :
    closeAt? t start = pure (Code.closeAt? t start) := by
  rw [closeAt?, behind_eq h, pure_bind, Code.closeAt?]

theorem closeAt?_zero (t : Text) : closeAt? t 0 = pure (Code.close? t) := by
  have hbehind : behind t 0 = pure t := behind_append [] t
  rw [closeAt?, hbehind, pure_bind]
  cases Code.close? t with
  | none => rfl
  | some i => simp

theorem isBoundary_of_close? {t : Text} {i : Nat} (h : Code.close? t = some i) :
    isBoundary t i = true ∧ isBoundary t (i + 1) = true := by
  obtain ⟨opener, u, closer, v, rfl, hpair, rfl⟩ := exists_of_close? h
  obtain ⟨⟨-, -, hopen⟩, -, -, hclosed⟩ := Code.plain_of_closer? hpair
  have hbefore := isBoundary_append (opener :: u) (closer :: v)
  have hbehind := isBoundary_append (opener :: (u ++ [closer])) v
  simp only [size, Text.size_append, hopen, hclosed, List.cons_append, List.append_assoc,
    List.nil_append, Nat.add_zero] at hbefore hbehind
  rw [Nat.add_assoc]
  exact ⟨hbefore, hbehind⟩

/-- What stands between the brackets. -/
theorem slice_of_close? {t : Text} {i : Nat} (h : Code.close? t = some i) :
    slice t 1 i = pure (takeBytes t.tail (i - 1)) := by
  obtain ⟨opener, u, closer, v, rfl, hpair, rfl⟩ := exists_of_close? h
  obtain ⟨⟨-, -, hopen⟩, -⟩ := Code.plain_of_closer? hpair
  have hslice := slice_append [opener] u (closer :: v)
  rw [size, size, hopen, List.singleton_append] at hslice
  rw [List.tail_cons, Nat.add_sub_cancel_left, Text.takeBytes_append]
  exact hslice

/-! ## Comments and words -/

theorem stripLine_eq (k : Carry) (line : Text) :
    stripLine k line = pure (Code.stripLine k line) := by
  rw [stripLine, Code.stripLine]
  cases hcut : Code.lineComment? k line with
  | none => rfl
  | some cut =>
    obtain ⟨m, hm, rfl⟩ := Option.map_eq_some_iff.1 hcut
    obtain ⟨u, v, rfl, hoffset⟩ := exists_of_mem_marks (List.mem_of_find?_eq_some hm)
    have hboundary : isBoundary (u ++ m.char :: v) m.offset = true := by
      rw [hoffset, Nat.zero_add]
      exact isBoundary_append u _
    simp only [before_eq hboundary, pure_bind]

theorem stripLines_eq (k : Carry) (lines : List Text) :
    stripLines k lines = pure (Code.stripLines k lines) := by
  induction lines generalizing k with
  | nil => rfl
  | cons line rest ih => rw [stripLines, stripLine_eq, ih, pure_bind, pure_bind, Code.stripLines]

theorem stripComments_eq (t : Text) : stripComments t = pure (Code.stripComments t) :=
  stripLines_eq .code (Text.fullLines t)

theorem leadingWord?_eq (t : Text) : leadingWord? t = pure (Text.leadingWord? t) := by
  have hcut := before_append (t.takeWhile isWordChar) (t.dropWhile isWordChar)
  rw [List.takeWhile_append_dropWhile] at hcut
  rw [leadingWord?, Text.leadingWord?, hcut]
  cases t.takeWhile isWordChar with
  | nil => rfl
  | cons c word =>
    have hc := c.utf8Size_pos
    rw [size, if_pos (by omega)]
    rfl

theorem behind_leadingWord {t name : Text} (h : Text.leadingWord? t = some name) :
    behind t (size name) = pure (t.drop name.length) := by
  obtain ⟨rest, rfl⟩ := Text.prefix_of_leadingWord? h
  rw [behind_append, List.drop_left]

end Ambient.Checked
