/-
What is taken for a literal.

A literal is a truth value, a numeral, one string or one list (`LiteralType`). Each of them is taken
for what it is. Besides, a text is taken for a literal whose first and last characters are those of a
string, if no code stands between them, and one whose first and last characters are brackets, whatever
stands between them (`Overread`). Nothing else is (`literalType?_eq_some_iff`).
-/
import Ambient.Proofs.Code.Closing
import Ambient.Proofs.Code.Hidden
import Ambient.Proofs.Declaration.Numeral
import Ambient.Proofs.Declaration.ObjectLiteral

namespace Ambient.Declaration

open Code (IsQuote Quoted StringBody Row isStringBody)
open Text (startsWith endsWith size)

/-! ## Literals -/

/-- One list: the bracket that closes the first one is the last character. -/
def OneList (t : Text) : Prop :=
  startsWith t ['['] = true ∧ Code.close? t = some (size t - 1)

instance (t : Text) : Decidable (OneList t) :=
  inferInstanceAs (Decidable (_ ∧ _))

/-- The literals, each with its type. -/
inductive LiteralType (t : Text) : Text → Prop where
  | truth (h : t = ("true" : Text) ∨ t = ("false" : Text)) : LiteralType t t
  | number (h : t ∈ numeral) : LiteralType t t
  /-- A string ends at the first mark that no backslash stands before, on its line. -/
  | string (q : Quoted) (h : t = q.text) : LiteralType t t
  | list (h : OneList t) : LiteralType t "any[]"

/-- The texts that are taken for one string besides: the first and the last character are the same
mark, and nothing between them is code. -/
inductive Overstring (t : Text) : Prop where
  /-- A string that goes on in the next line, behind a backslash. -/
  | continued {mark : Char} {body : Text} (hmark : mark = '\'' ∨ mark = '"')
      (h : t = mark :: (body ++ [mark])) (hbody : StringBody mark body) (hfeed : '\n' ∈ body)
  /-- Strings, templates and comments in a row, or a string that does not end. -/
  | row {mark : Char} {inner : Text} (hmark : mark = '\'' ∨ mark = '"')
      (h : t = mark :: (inner ++ [mark])) (hrow : Row t) (hnot : ¬ StringBody mark inner)

/-- The texts that are taken for literals besides, each with the type they get. -/
inductive Overread (t : Text) : Text → Prop where
  | string (h : Overstring t) : Overread t t
  | list (hstarts : startsWith t ['['] = true) (hends : endsWith t [']'] = true)
      (hnot : ¬ OneList t) : Overread t "any[]"

/-! ## Strings -/

section Strings

variable {mark : Char} {t body : Text}

theorem isQuote_of_mark (h : mark = '\'' ∨ mark = '"') : IsQuote mark :=
  h.elim .inl fun h => .inr (.inl h)

/-- A string on one line, and one that may go on in the next. -/
theorem isStringBody_iff (hmark : mark = '\'' ∨ mark = '"') :
    isStringBody mark body = true ↔ StringBody mark body ∧ '\n' ∉ body := by
  have htemplate : mark ≠ '`' := by
    rcases hmark with rfl | rfl <;> decide
  constructor
  · intro h
    refine ⟨?_, Code.newline_not_mem_of_isStringBody h⟩
    fun_induction isStringBody mark body with
    | case1 => exact .nil
    | case2 c t ih =>
      simp only [Bool.and_eq_true] at h
      exact .escape (ih h.2)
    | case3 c t _ ih =>
      simp only [Bool.and_eq_true, bne_iff_ne] at h
      exact .char h.1.1.1 h.1.1.2 (fun hfeed => absurd hfeed h.1.2) (ih h.2)
  · rintro ⟨h, hfeed⟩
    induction h with
    | nil => rfl
    | @char c t hescape hc _ _ ih =>
      simp only [List.mem_cons, not_or] at hfeed
      simp [isStringBody, hescape, hc, Ne.symm hfeed.1, ih hfeed.2]
    | @escape c t _ ih =>
      simp only [List.mem_cons, not_or] at hfeed
      rw [isStringBody, ih hfeed.2.2]
      simpa using Ne.symm hfeed.2.1

theorem isString_iff_row : isString t = true ↔
    ∃ mark inner, (mark = '\'' ∨ mark = '"') ∧ t = mark :: (inner ++ [mark]) ∧ Row t := by
  cases t with
  | nil => exact ⟨nofun, fun ⟨_, _, _, heq, _⟩ => nomatch heq⟩
  | cons mark rest =>
    simp only [isString, Bool.and_eq_true, Bool.or_eq_true, beq_iff_eq, decide_eq_true_eq,
      List.isEmpty_iff]
    constructor
    · rintro ⟨⟨⟨hmark, hsize⟩, hlast⟩, hchars⟩
      have hrow := (Code.chars_eq_nil_iff (isQuote_of_mark hmark)).1 hchars
      obtain ⟨front, hfront⟩ := List.getLast?_eq_some_iff.1 hlast
      cases front with
      | nil =>
        cases hfront
        rcases hmark with rfl | rfl <;> exact absurd hsize (by decide)
      | cons c inner =>
        cases hfront
        exact ⟨mark, inner, hmark, rfl, hrow⟩
    · rintro ⟨mark, inner, hmark, heq, hrow⟩
      cases heq
      have hpos := mark.utf8Size_pos
      refine ⟨⟨⟨hmark, ?_⟩, List.getLast?_concat (l := mark :: inner)⟩,
        (Code.chars_eq_nil_iff (isQuote_of_mark hmark)).2 hrow⟩
      simp only [size, Text.size_append]
      omega

theorem row_of_stringBody (hmark : mark = '\'' ∨ mark = '"') (h : StringBody mark body) :
    Row (mark :: (body ++ [mark])) := by
  have hescape : mark ≠ '\\' := by
    rcases hmark with rfl | rfl <;> decide
  exact .string (isQuote_of_mark hmark) h hescape (.inl rfl) .nil

/-- **What is taken for a string** is one, or it is one of the texts that are read too far. -/
theorem isString_iff : isString t = true ↔ (∃ q : Quoted, t = q.text) ∨ Overstring t := by
  rw [isString_iff_row]
  constructor
  · rintro ⟨mark, inner, hmark, ht, hrow⟩
    by_cases hbody : StringBody mark inner
    · by_cases hfeed : '\n' ∈ inner
      · exact .inr (.continued hmark ht hbody hfeed)
      · exact .inl ⟨⟨mark, inner, hmark, (isStringBody_iff hmark).2 ⟨hbody, hfeed⟩⟩, ht⟩
    · exact .inr (.row hmark ht hrow hbody)
  · rintro (⟨q, rfl⟩ | h)
    · have hbody := ((isStringBody_iff q.isMark).1 q.isBody).1
      exact ⟨q.mark, q.body, q.isMark, rfl, row_of_stringBody q.isMark hbody⟩
    · cases h with
      | continued hmark ht hbody hfeed => exact ⟨_, _, hmark, ht, ht ▸ row_of_stringBody hmark hbody⟩
      | row hmark ht hrow hnot => exact ⟨_, _, hmark, ht, hrow⟩

/-- None of these texts is a string. -/
theorem Overstring.ne_text (h : Overstring t) (q : Quoted) : t ≠ q.text := by
  rintro rfl
  have hbody := (isStringBody_iff q.isMark).1 q.isBody
  cases h with
  | continued hmark ht _ hfeed =>
    obtain ⟨rfl, hinner⟩ := List.cons.inj ht
    exact hbody.2 (List.append_cancel_right hinner ▸ hfeed)
  | row hmark ht _ hnot =>
    obtain ⟨rfl, hinner⟩ := List.cons.inj ht
    exact hnot (List.append_cancel_right hinner ▸ hbody.1)

end Strings

/-! ## Lists -/

theorem OneList.endsWith {t : Text} (h : OneList t) : endsWith t [']'] = true := by
  obtain ⟨hstarts, hclose⟩ := h
  obtain ⟨opener, u, closer, v, rfl, hcloser, hi⟩ := Code.exists_of_close? hclose
  rw [startsWith, List.isPrefixOf_iff_prefix] at hstarts
  obtain ⟨rfl, -⟩ := List.cons_prefix_cons.1 hstarts
  obtain rfl : ']' = closer := Option.some.inj hcloser
  have hopen : '['.utf8Size = 1 := by decide
  have hclose : ']'.utf8Size = 1 := by decide
  simp only [size, Text.size_append, hopen, hclose] at hi
  obtain rfl : v = [] := Text.eq_nil_of_size (by omega)
  rw [Text.endsWith, List.isSuffixOf_iff_suffix]
  exact ⟨'[' :: u, by simp⟩

/-! ## The type of a literal -/

section Types

variable {expr t u v : Text}

theorem exists_of_startsWith_bracket (h : startsWith t ['['] = true) : ∃ rest, t = '[' :: rest := by
  rw [startsWith, List.isPrefixOf_iff_prefix] at h
  obtain ⟨rest, rfl⟩ := h
  exact ⟨rest, rfl⟩

/-- A text that starts with a mark or a bracket is no truth value and no numeral. -/
theorem not_word_of_head {c : Char} (hc : c = '\'' ∨ c = '"' ∨ c = '[') (rest : Text) :
    c :: rest ≠ ("true" : Text) ∧ c :: rest ≠ ("false" : Text) ∧ isNumeral (c :: rest) = false := by
  refine ⟨?_, ?_, ?_⟩
  · intro h
    obtain ⟨rfl, -⟩ := List.cons.inj h
    revert hc
    decide
  · intro h
    obtain ⟨rfl, -⟩ := List.cons.inj h
    revert hc
    decide
  · rcases hc with rfl | rfl | rfl <;>
      exact not_isNumeral_of_head (by decide) (by decide) (by decide)

theorem isString_of_bracket (h : startsWith t ['['] = true) : isString t = false := by
  obtain ⟨rest, rfl⟩ := exists_of_startsWith_bracket h
  rfl

theorem Overread.exists_head (h : Overread t u) :
    ∃ c rest, t = c :: rest ∧ (c = '\'' ∨ c = '"' ∨ c = '[') := by
  cases h with
  | string h =>
    cases h with
    | continued hmark ht | row hmark ht =>
      exact ⟨_, _, ht, hmark.elim .inl fun h => .inr (.inl h)⟩
  | list hstarts =>
    obtain ⟨rest, rfl⟩ := exists_of_startsWith_bracket hstarts
    exact ⟨'[', rest, rfl, .inr (.inr rfl)⟩

/-- None of the texts that are read too far is a literal. -/
theorem Overread.not_literalType (h : Overread t u) : ¬ LiteralType t v := by
  intro hliteral
  obtain ⟨c, rest, ht, hc⟩ := h.exists_head
  obtain ⟨htrue, hfalse, hnumeral⟩ := not_word_of_head hc rest
  rw [← ht] at htrue hfalse hnumeral
  cases hliteral with
  | truth hword => exact hword.elim htrue hfalse
  | number hnumber =>
    rw [isNumeral_iff.2 hnumber] at hnumeral
    cases hnumeral
  | string q hq =>
    cases h with
    | string h => exact h.ne_text q hq
    | list hstarts =>
      have hstring := isString_iff.2 (.inl ⟨q, hq⟩)
      rw [isString_of_bracket hstarts] at hstring
      cases hstring
  | list hlist =>
    cases h with
    | string h =>
      have hstring := isString_iff.2 (.inr h)
      rw [isString_of_bracket hlist.1] at hstring
      cases hstring
    | list _ _ hnot => exact hnot hlist

theorem literalType?_of_brackets (hstarts : startsWith (bare expr) ['['] = true)
    (hends : endsWith (bare expr) [']'] = true) : literalType? expr = some ("any[]" : Text) := by
  obtain ⟨rest, hrest⟩ := exists_of_startsWith_bracket hstarts
  obtain ⟨htrue, hfalse, hnumeral⟩ := not_word_of_head (.inr (.inr rfl)) rest
  rw [← hrest] at htrue hfalse hnumeral
  rw [literalType?]
  simp only [htrue, hfalse, hnumeral, isString_of_bracket hstarts, hstarts, hends,
    Bool.false_eq_true, or_false, if_false, and_self, if_true]

end Types

/-- **What is taken for a literal**, and with which type: the literals, and the texts that are read too
far, of which none is a literal. -/
theorem literalType?_eq_some_iff (expr t : Text) :
    (literalType? expr = some t ↔ LiteralType (bare expr) t ∨ Overread (bare expr) t) ∧
      (Overread (bare expr) t → ∀ u, ¬ LiteralType (bare expr) u) := by
  refine ⟨⟨fun h => ?_, fun h => ?_⟩, fun h u => h.not_literalType⟩
  · rw [literalType?] at h
    split at h
    · rename_i hself
      obtain rfl := Option.some.inj h
      rcases hself with htrue | hfalse | hnumeral | hstring
      · exact .inl (.truth (.inl htrue))
      · exact .inl (.truth (.inr hfalse))
      · exact .inl (.number (isNumeral_iff.1 hnumeral))
      · rcases isString_iff.1 hstring with ⟨q, hq⟩ | hover
        · exact .inl (.string q hq)
        · exact .inr (.string hover)
    · split at h
      · rename_i hbrackets
        obtain rfl := Option.some.inj h
        by_cases hlist : OneList (bare expr)
        · exact .inl (.list hlist)
        · exact .inr (.list hbrackets.1 hbrackets.2 hlist)
      · cases h
  · have hself : ∀ h : bare expr = ("true" : Text) ∨ bare expr = ("false" : Text) ∨
        isNumeral (bare expr) = true ∨ isString (bare expr) = true,
        literalType? expr = some (bare expr) := fun h => if_pos h
    rcases h with h | h
    · cases h with
      | truth hword => exact hself (hword.elim .inl fun h => .inr (.inl h))
      | number hnumber => exact hself (.inr (.inr (.inl (isNumeral_iff.2 hnumber))))
      | string q hq => exact hself (.inr (.inr (.inr (isString_iff.2 (.inl ⟨q, hq⟩)))))
      | list hlist => exact literalType?_of_brackets hlist.1 hlist.endsWith
    · cases h with
      | string hover => exact hself (.inr (.inr (.inr (isString_iff.2 (.inr hover)))))
      | list hstarts hends => exact literalType?_of_brackets hstarts hends

/-- An element of a list is taken for the list. -/
theorem literalType?_of_element :
    let expr : Text := "[1, 2][0]"
    literalType? expr = some ("any[]" : Text) ∧ ∀ u, ¬ LiteralType (bare expr) u := by
  intro expr
  have hover : Overread (bare expr) "any[]" := .list (by decide) (by decide) (by decide)
  have h := literalType?_eq_some_iff expr "any[]"
  exact ⟨h.1.2 (.inr hover), h.2 hover⟩

-- two strings side by side
example : literalType? "'a''b'" = some ("'a''b'" : Text) := by
  decide

end Ambient.Declaration
