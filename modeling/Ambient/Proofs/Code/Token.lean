/-
The tokens that texts are printed from: words, strings, numerals, and the blanks between them.

None of them opens a bracket, so they are balanced, and outside all brackets they show only characters
of words. All but the blanks are solid, so trimming stops at them.
-/
import Ambient.Proofs.Code.Balanced

namespace Ambient.Code

open Text (isBlank isWordChar isDigit Blank Solid Neat)

/-! ## Kinds of characters -/

/-- The code points of blanks, one by one. -/
def blankPoints : List Nat :=
  [0x9, 0xA, 0xB, 0xC, 0xD, 0x20, 0x85, 0xA0, 0x1680, 0x2000, 0x2001, 0x2002, 0x2003, 0x2004, 0x2005,
   0x2006, 0x2007, 0x2008, 0x2009, 0x200A, 0x2028, 0x2029, 0x202F, 0x205F, 0x3000]

theorem mem_blankPoints {c : Char} (h : isBlank c = true) : c.toNat ∈ blankPoints := by
  have hall : ∀ r ∈ Text.blankRanges, ∀ n ∈ List.range' r.1 (r.2 + 1 - r.1), n ∈ blankPoints := by
    decide
  obtain ⟨r, hr, hrange⟩ := List.any_eq_true.1 h
  rw [Bool.and_eq_true, decide_eq_true_eq, decide_eq_true_eq] at hrange
  exact hall r hr _ (List.mem_range'_1.2 ⟨hrange.1, by omega⟩)

/-- No blank is part of a word. -/
theorem not_isBlank_of_isWordChar {c : Char} (h : isWordChar c = true) : isBlank c = false := by
  rw [Bool.eq_false_iff]
  intro hblank
  have hnone : ∀ n ∈ blankPoints, isWordChar (Char.ofNat n) = false := by decide +kernel
  have hc := hnone _ (mem_blankPoints hblank)
  rw [Char.ofNat_toNat, h] at hc
  cases hc

theorem isOrdinary_of_ne {c : Char} (h : ∀ d ∈ signs, c ≠ d) : isOrdinary c = true := by
  rw [isOrdinary, Bool.not_eq_true', List.contains_eq_mem, decide_eq_false_iff_not]
  exact fun hc => h c hc rfl

theorem isOrdinary_of_isWordChar {c : Char} (h : isWordChar c = true) : isOrdinary c = true := by
  have hnone : ∀ d ∈ signs, isWordChar d = false := by decide
  refine isOrdinary_of_ne fun d hd => ?_
  rintro rfl
  rw [hnone c hd] at h
  cases h

theorem isOrdinary_of_isBlank {c : Char} (h : isBlank c = true) : isOrdinary c = true := by
  have hnone : ∀ d ∈ signs, isBlank d = false := by decide
  exact isOrdinary_of_ne fun d hd => State.ne_of_isBlank h (hnone d hd)

theorem toNat_lt_of_isDigit {c : Char} (h : c.isDigit = true) : c.toNat < 0x80 := by
  simp only [Char.isDigit, Bool.and_eq_true, decide_eq_true_eq] at h
  have hnine : c.val.toNat ≤ 57 := h.2
  exact Nat.lt_of_le_of_lt hnine (by decide)

theorem isDigit_of_isDigit {c : Char} (h : c.isDigit = true) : isDigit c = true := by
  simp [isDigit, toNat_lt_of_isDigit h, h]

theorem isWordChar_of_isDigit {c : Char} (h : c.isDigit = true) : isWordChar c = true := by
  simp [isWordChar, Text.isAlphanumeric, toNat_lt_of_isDigit h, Char.isAlphanum, h]

/-! ## Blanks -/

/-- Blanks between two tokens, if any. -/
structure Gap where
  text : Text
  blank : Blank text

theorem Gap.balanced (g : Gap) : Balanced g.text :=
  .of_forall fun c hc => isOrdinary_of_isBlank (g.blank c hc)

theorem Gap.lacks (g : Gap) {d : Char} (hd : isBlank d = false) : Lacks d g.text :=
  .of_forall fun c hc =>
    ⟨isOrdinary_of_isBlank (g.blank c hc), State.ne_of_isBlank (g.blank c hc) hd⟩

/-- No blanks at all. -/
def Gap.none : Gap :=
  ⟨[], .nil⟩

def Gap.space : Gap :=
  ⟨[' '], .space⟩

/-- The items of a list between blanks, with a comma and a space between them. -/
theorem split_intercalate {ts : List Text} (hb : ∀ t ∈ ts, Balanced t) (hs : ∀ t ∈ ts, Solid t)
    (hlacks : ∀ t ∈ ts, Lacks ',' t) (g g' : Gap) :
    split ',' (g.text ++ (List.intercalate ", " ts ++ g'.text)) = ts := by
  have hgap : ∀ g : Gap, Lacks ',' g.text := fun g => g.lacks (by decide)
  induction ts generalizing g with
  | nil =>
    have hblank : Blank (g.text ++ g'.text) := List.forall_mem_append.2 ⟨g.blank, g'.blank⟩
    exact split_of_blank hblank (.append g.balanced g'.balanced (hgap g) (hgap g'))
  | cons t ts ih =>
    obtain ⟨hbt, hbts⟩ := List.forall_mem_cons.1 hb
    obtain ⟨hst, hsts⟩ := List.forall_mem_cons.1 hs
    obtain ⟨hlt, hlts⟩ := List.forall_mem_cons.1 hlacks
    have hpadded : ∀ g' : Gap, Lacks ',' (g.text ++ (t ++ g'.text)) := fun g' =>
      .append g.balanced (hbt.append g'.balanced) (hgap g) (.append hbt g'.balanced hlt (hgap g'))
    cases ts with
    | nil =>
      rw [List.intercalate_singleton]
      exact split_of_solid g.blank hst g'.blank (hpadded g')
    | cons t' ts =>
      have hcut : g.text ++ (List.intercalate ", " (t :: t' :: ts) ++ g'.text) =
          g.text ++ (t ++ Gap.none.text) ++
            ',' :: (Gap.space.text ++ (List.intercalate ", " (t' :: ts) ++ g'.text)) := by
        rw [List.intercalate_cons_cons]
        simp [Gap.none, Gap.space]
      have hrest : Balanced (Gap.space.text ++ (List.intercalate ", " (t' :: ts) ++ g'.text)) :=
        Gap.space.balanced.append ((Balanced.intercalate (.of_forall (by decide)) hbts).append
          g'.balanced)
      rw [hcut, split_append_cons (g.balanced.append (hbt.append Gap.none.balanced))
        (hpadded .none) hrest, split_of_solid g.blank hst Gap.none.blank (hpadded .none),
        ih hbts hsts hlts .space]
      rfl

/-! ## Words -/

/-- An identifier. -/
structure Word where
  text : Text
  ne_nil : text ≠ []
  isWord : ∀ c ∈ text, isWordChar c = true

theorem ne_of_isWordChar {c d : Char} (hc : isWordChar c = true) (hd : isWordChar d = false) :
    c ≠ d := by
  rintro rfl
  rw [hc] at hd
  cases hd

namespace Word

variable (w : Word)

theorem not_isBlank {c : Char} (hc : c ∈ w.text) : isBlank c = false :=
  not_isBlank_of_isWordChar (w.isWord c hc)

theorem solid : Solid w.text :=
  .of_forall w.ne_nil fun _ => w.not_isBlank

theorem neat : Neat w.text :=
  .of_forall w.ne_nil fun _ => w.not_isBlank

theorem balanced : Balanced w.text :=
  .of_forall fun c hc => isOrdinary_of_isWordChar (w.isWord c hc)

theorem lacks {d : Char} (hd : isWordChar d = false) : Lacks d w.text :=
  .of_forall fun c hc => ⟨isOrdinary_of_isWordChar (w.isWord c hc), ne_of_isWordChar (w.isWord c hc) hd⟩

theorem head : ∃ c u, w.text = c :: u ∧ isWordChar c = true := by
  obtain ⟨c, u, hcu⟩ := List.exists_cons_of_ne_nil w.ne_nil
  exact ⟨c, u, hcu, w.isWord c (by simp [hcu])⟩

theorem getLast : ∃ u c, w.text = u ++ [c] ∧ isWordChar c = true := by
  obtain ⟨c, u, huc, -⟩ := w.solid.last
  exact ⟨u, c, huc, w.isWord c (by simp [huc])⟩

/-- A word is what a text starts with, up to a character that no word has. -/
theorem leadingWord? {u : Text} (hu : ∀ c, u.head? = some c → isWordChar c = false) :
    Text.leadingWord? (w.text ++ u) = some w.text := by
  have htake : (w.text ++ u).takeWhile isWordChar = w.text := by
    rw [List.takeWhile_append_of_pos w.isWord]
    cases u with
    | nil => simp
    | cons c u => simp [hu c rfl]
  rw [Text.leadingWord?, htake]
  obtain ⟨c, v, hcv, -⟩ := w.head
  rw [hcv]

end Word

/-! ## Strings -/

namespace Quoted

variable (q : Quoted)

theorem balanced : Balanced q.text := by
  simpa using Balanced.quoted q .nil

theorem lacks (d : Char) : Lacks d q.text := by
  simpa using Lacks.quoted q .nil (.nil : Lacks d [])

theorem not_isBlank_mark : isBlank q.mark = false :=
  State.not_isBlank_of_isQuote q.isQuote

theorem solid : Solid q.text :=
  (Solid.singleton q.not_isBlank_mark).append q.body (.singleton q.not_isBlank_mark)

theorem chars_eq_nil : chars q.text = [] := by
  have h := codeAt_quoted q .nil 0
  rw [List.append_nil] at h
  exact h

end Quoted

/-! ## Scalars -/

/-- A numeral without sign. -/
structure Digits where
  text : Text
  ne_nil : text ≠ []
  isDigits : ∀ c ∈ text, c.isDigit = true

def Digits.word (n : Digits) : Word :=
  ⟨n.text, n.ne_nil, fun c hc => isWordChar_of_isDigit (n.isDigits c hc)⟩

/-- The word for a truth value. -/
def truthWord (b : Bool) : Word where
  text := if b then "true" else "false"
  ne_nil := by cases b <;> decide
  isWord := by cases b <;> decide

/-- A literal that stands for itself: a truth value, an integer, or a string. -/
inductive Scalar where
  | truth (b : Bool)
  | integer (negative : Bool) (digits : Digits)
  | string (q : Quoted)

namespace Scalar

def text : Scalar → Text
  | truth b => (truthWord b).text
  | integer negative digits => (if negative then ['-'] else []) ++ digits.text
  | string q => q.text

theorem solid : (s : Scalar) → Solid s.text
  | truth b => (truthWord b).solid
  | integer true digits => (Solid.singleton (by decide)).append [] digits.word.solid
  | integer false digits => digits.word.solid
  | string q => q.solid

theorem balanced : (s : Scalar) → Balanced s.text
  | truth b => (truthWord b).balanced
  | integer true digits => .char (by decide) digits.word.balanced
  | integer false digits => digits.word.balanced
  | string q => q.balanced

theorem lacks {d : Char} (hd : isWordChar d = false) (hminus : d ≠ '-') : (s : Scalar) → Lacks d s.text
  | truth b => (truthWord b).lacks hd
  | integer true digits =>
    .char (by decide) (Ne.symm hminus) digits.word.balanced (digits.word.lacks hd)
  | integer false digits => digits.word.lacks hd
  | string q => q.lacks d

theorem newline_not_mem : (s : Scalar) → '\n' ∉ s.text
  | truth b => (truthWord b).neat.newline_not_mem
  | integer true digits => by
    have h : '\n' ∉ digits.text := digits.word.neat.newline_not_mem
    simpa [text] using h
  | integer false digits => digits.word.neat.newline_not_mem
  | string q => q.newline_not_mem

/-- No scalar starts as an object does. -/
theorem head (s : Scalar) : ∃ c u, s.text = c :: u ∧ c ≠ '{' := by
  have hword : ∀ w : Word, ∃ c u, w.text = c :: u ∧ c ≠ '{' := by
    intro w
    obtain ⟨c, u, hcu, hc⟩ := w.head
    exact ⟨c, u, hcu, ne_of_isWordChar hc (by decide)⟩
  cases s with
  | truth b => exact hword (truthWord b)
  | integer negative digits =>
    cases negative with
    | true => exact ⟨'-', digits.text, rfl, by decide⟩
    | false => exact hword digits.word
  | string q =>
    refine ⟨q.mark, q.body ++ [q.mark], rfl, ?_⟩
    rcases q.isMark with h | h <;> rw [h] <;> decide

end Scalar

end Ambient.Code
