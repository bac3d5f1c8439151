/-
Texts of which nothing is code.

Where no operand is due, a text is free of code exactly when it is a row of whole strings, templates
and comments, of which the last one may stay open (`code_eq_nil_iff`). What a string or a comment hides
is told by its text alone: a string ends at the first mark that no backslash takes with it, or at a
line feed (`stringRest`), and a comment at the first closing mark (`comment_hides`).
-/
import Ambient.Proofs.Code.Prefix
import Ambient.Proofs.Code.Regex

namespace Ambient.Code

open Text (size splitFirst? after?)

/-! ## Strings and templates -/

/-- What may stand between the marks of a string or a template. A backslash takes the next character
with it. Only a template goes over a line feed. -/
inductive StringBody (mark : Char) : Text → Prop where
  | nil : StringBody mark []
  | char {c : Char} {t : Text} (hescape : c ≠ '\\') (hmark : c ≠ mark)
      (hfeed : c = '\n' → mark = '`') (ht : StringBody mark t) : StringBody mark (c :: t)
  | escape {c : Char} {t : Text} (ht : StringBody mark t) : StringBody mark ('\\' :: c :: t)

/-- The characters that end a string or a template. -/
def EndsString (mark c : Char) : Prop :=
  c = mark ∨ (c = '\n' ∧ mark ≠ '`')

instance (mark c : Char) : Decidable (EndsString mark c) :=
  inferInstanceAs (Decidable (c = mark ∨ (c = '\n' ∧ mark ≠ '`')))

/-- What follows the mark of a string: a body and an ending, or a body that reaches the end of the
text, where a backslash may have nothing to take with it. -/
inductive StringRest (mark : Char) : Text → Prop where
  | ends {body u : Text} {c : Char} (hbody : StringBody mark body) (hescape : c ≠ '\\')
      (hends : EndsString mark c) : StringRest mark (body ++ c :: u)
  | stays {body : Text} (hbody : StringBody mark body) : StringRest mark body
  | escapes {body : Text} (hbody : StringBody mark body) : StringRest mark (body ++ ['\\'])

theorem StringRest.char {mark c : Char} {t : Text} (hescape : c ≠ '\\')
    (hc : ¬ EndsString mark c) (h : StringRest mark t) : StringRest mark (c :: t) := by
  have hchar : ∀ {body : Text}, StringBody mark body → StringBody mark (c :: body) := by
    intro body hbody
    refine .char hescape (fun h => hc (.inl h)) (fun hfeed => ?_) hbody
    exact Decidable.byContradiction fun hmark => hc (.inr ⟨hfeed, hmark⟩)
  cases h with
  | ends hbody hd hends => exact .ends (hchar hbody) hd hends
  | stays hbody => exact .stays (hchar hbody)
  | escapes hbody => exact .escapes (hchar hbody)

theorem StringRest.escape {mark : Char} (c : Char) {t : Text} (h : StringRest mark t) :
    StringRest mark ('\\' :: c :: t) := by
  cases h with
  | ends hbody hd hends => exact .ends (.escape hbody) hd hends
  | stays hbody => exact .stays (.escape hbody)
  | escapes hbody => exact .escapes (.escape hbody)

theorem stringRest (mark : Char) : (t : Text) → StringRest mark t
  | [] => .stays .nil
  | c :: t => by
    by_cases hescape : c = '\\'
    · subst hescape
      cases t with
      | nil => exact .escapes .nil
      | cons d t => exact .escape d (stringRest mark t)
    · by_cases hends : EndsString mark c
      · exact .ends .nil hescape hends
      · exact .char hescape hends (stringRest mark t)

section Strings

variable {mark : Char} {body : Text} {last : Option Char} {s : State}

theorem StringBody.hides (h : StringBody mark body) (last : Option Char) :
    Hides ⟨.quoted mark, last⟩ body ⟨.quoted mark, last⟩ := by
  induction h with
  | nil => exact .nil
  | char hescape hmark hfeed _ ih =>
    refine .cons (fun _ => ?_) ih
    have hends : ¬ EndsString mark _ := fun h => h.elim hmark fun h => h.2 (hfeed h.1)
    simp only [State.step, if_neg hescape]
    exact if_neg hends
  | @escape c t _ ih =>
    have hescape : Hides ⟨.escaped mark, last⟩ (c :: t) ⟨.quoted mark, last⟩ :=
      .cons (fun _ => rfl) ih
    exact .cons (fun _ => rfl) hescape

theorem quote_hides (hmark : IsQuote mark) (hs : s.mode = .code) :
    Hides s [mark] ⟨.quoted mark, some mark⟩ := by
  have hmark : mark = '\'' ∨ mark = '"' ∨ mark = '`' := hmark
  exact .cons (fun _ => by simp [State.step, hs, State.readCode, hmark]) .nil

theorem ending_hides {c : Char} (hescape : c ≠ '\\') (hends : EndsString mark c)
    (last : Option Char) : Hides ⟨.quoted mark, last⟩ [c] ⟨.code, last⟩ := by
  refine .cons (fun _ => ?_) .nil
  simp only [State.step, if_neg hescape]
  exact if_pos hends

/-- A string or template is hidden with its marks. -/
theorem string_hides {c : Char} (hmark : IsQuote mark) (hs : s.mode = .code)
    (hbody : StringBody mark body) (hescape : c ≠ '\\') (hends : EndsString mark c) :
    Hides s (mark :: (body ++ [c])) ⟨.code, some mark⟩ :=
  (quote_hides hmark hs).append ((hbody.hides _).append (ending_hides hescape hends _))

theorem openString_hides (hmark : IsQuote mark) (hs : s.mode = .code) (hbody : StringBody mark body) :
    Hides s (mark :: body) ⟨.quoted mark, some mark⟩ :=
  (quote_hides hmark hs).append (hbody.hides _)

theorem openEscape_hides (hmark : IsQuote mark) (hs : s.mode = .code) (hbody : StringBody mark body) :
    Hides s (mark :: (body ++ ['\\'])) ⟨.escaped mark, some mark⟩ :=
  (openString_hides hmark hs hbody).append (.cons (fun _ => rfl) .nil)

end Strings

/-! ## Comments -/

theorem not_closing_of_after? {c : Char} {t : Text} (h : after? (c :: t) "*/" = none) :
    ¬ (c = '*' ∧ t.head? = some '/') := by
  rintro ⟨rfl, hslash⟩
  obtain ⟨u, rfl⟩ := List.head?_eq_some_iff.1 hslash
  simp [after?] at h

/-- **A comment is hidden** up to its first closing mark. -/
theorem comment_hides {t body rest : Text} (h : splitFirst? "*/" t = some (body, rest))
    (last : Option Char) : Hides ⟨.comment, last⟩ (body ++ ['*', '/']) ⟨.code, last⟩ := by
  induction t generalizing body with
  | nil => cases h
  | cons c t ih =>
    rw [splitFirst?] at h
    cases hafter : after? (c :: t) "*/" with
    | some rest' =>
      rw [hafter] at h
      cases h
      have hslash : Hides ⟨.commentClosing, last⟩ ['/'] ⟨.code, last⟩ := .cons (fun _ => rfl) .nil
      exact .cons (fun _ => rfl) hslash
    | none =>
      rw [hafter] at h
      obtain ⟨⟨body', rest'⟩, hsplit, heq⟩ := Option.map_eq_some_iff.1 h
      cases heq
      have ht : t = body' ++ ['*', '/'] ++ rest := Text.eq_append_of_splitFirst? hsplit
      have hhead : t.head? = (body' ++ ['*', '/']).head? := by
        rw [ht, List.head?_append]
        cases body' <;> rfl
      refine .cons (fun look => ?_) (ih hsplit)
      have hnext : (body' ++ ['*', '/']).head?.or look = t.head? := by
        rw [hhead]
        cases body' <;> rfl
      simp only [List.append_eq, hnext, State.step, if_neg (not_closing_of_after? hafter)]

theorem commentMark_hides {s : State} (hs : s.mode = .code) :
    Hides s ['/', '*'] ⟨.comment, s.last⟩ := by
  have hstar : Hides ⟨.commentOpening, s.last⟩ ['*'] ⟨.comment, s.last⟩ := .cons (fun _ => rfl) .nil
  exact .cons (fun _ => by simp [State.step, hs, State.readCode]) hstar

theorem Hides.code_append {s s' : State} {t : Text} (h : Hides s t s') (offset : Nat) (u : Text) :
    s.code offset (t ++ u) = s'.code (offset + size t) u := by
  rw [State.code, marks_append, List.filterMap_append, h.filterMap_marks, h.after, List.nil_append]
  rfl

theorem Hides.code_eq_nil {s s' : State} {t : Text} (h : Hides s t s') (offset : Nat) :
    s.code offset t = [] :=
  h.filterMap_marks offset none

/-- A comment without its closing mark hides all that follows. -/
theorem code_openComment {t : Text} (h : splitFirst? "*/" t = none) (last : Option Char)
    (offset : Nat) : State.code ⟨.comment, last⟩ offset t = [] := by
  induction t generalizing offset with
  | nil => rfl
  | cons c t ih =>
    rw [splitFirst?] at h
    cases hafter : after? (c :: t) "*/" with
    | some rest =>
      rw [hafter] at h
      cases h
    | none =>
      rw [hafter] at h
      have hstep : State.step ⟨.comment, last⟩ c (t.head?.or none) = (.hidden, ⟨.comment, last⟩) := by
        simp only [Option.or_none, State.step, if_neg (not_closing_of_after? hafter)]
      have hrest := ih (Option.map_eq_none_iff.1 h) (offset + c.utf8Size)
      rw [State.code, marks, hstep]
      exact hrest

/-- A line comment hides the rest of its line and no more. -/
theorem code_lineComment_eq_nil_iff {t : Text} {last : Option Char} {offset : Nat} :
    State.code ⟨.lineComment, last⟩ offset t = [] ↔ '\n' ∉ t := by
  induction t generalizing offset with
  | nil => simp [State.code, marks]
  | cons c t ih =>
    by_cases hc : c = '\n'
    · simp [State.code, marks, State.step, hc, State.readCode_newline, Mark.codeChar?]
    · have hstep : State.step ⟨.lineComment, last⟩ c (t.head?.or none) =
          (.hidden, ⟨.lineComment, last⟩) := by
        simp only [State.step, if_neg hc]
      rw [List.mem_cons, not_or, ← @ih (offset + c.utf8Size), State.code, marks, hstep]
      exact ⟨fun h => ⟨Ne.symm hc, h⟩, fun h => h.2⟩

/-! ## Rows -/

/-- A row of whole strings, templates and comments. The last one may stay open. -/
inductive Row : Text → Prop where
  | nil : Row []
  | string {mark c : Char} {body t : Text} (hmark : IsQuote mark) (hbody : StringBody mark body)
      (hescape : c ≠ '\\') (hends : EndsString mark c) (ht : Row t) :
      Row (mark :: (body ++ c :: t))
  | comment {body t : Text} (hbody : splitFirst? "*/" (body ++ '*' :: '/' :: t) = some (body, t))
      (ht : Row t) : Row ('/' :: '*' :: (body ++ '*' :: '/' :: t))
  | openString {mark : Char} {body : Text} (hmark : IsQuote mark) (hbody : StringBody mark body) :
      Row (mark :: body)
  | openEscape {mark : Char} {body : Text} (hmark : IsQuote mark) (hbody : StringBody mark body) :
      Row (mark :: (body ++ ['\\']))
  | openComment {body : Text} (hbody : splitFirst? "*/" body = none) : Row ('/' :: '*' :: body)
  | lineComment {body : Text} (hfeed : '\n' ∉ body) : Row ('/' :: '/' :: body)

/-- States in code behind a string or a template, where a slash divides. -/
structure BehindString (s : State) : Prop where
  mode : s.mode = .code
  last : ∃ mark, IsQuote mark ∧ s.last = some mark

theorem BehindString.of_mark {mark : Char} (hmark : IsQuote mark) :
    BehindString ⟨.code, some mark⟩ :=
  ⟨rfl, mark, hmark, rfl⟩

theorem BehindString.code_last {s : State} (h : BehindString s) : (⟨.code, s.last⟩ : State) = s := by
  rw [← h.mode]

theorem BehindString.expectsOperand {s : State} (h : BehindString s) : s.expectsOperand = false := by
  obtain ⟨mark, hmark, hlast⟩ := h.last
  rw [State.expectsOperand, hlast]
  rcases hmark with rfl | rfl | rfl <;> decide

section Row

variable {s : State} {t : Text}

theorem code_slash_slash (hs : s.mode = .code) (offset : Nat) (t : Text) :
    s.code offset ('/' :: '/' :: t) = State.code ⟨.lineComment, s.last⟩ (offset + 2) t := by
  have hsize : '/'.utf8Size = 1 := by decide
  have hfirst : s.step '/' (some '/') = (.lineComment, ⟨.lineComment, s.last⟩) := by
    simp [State.step, hs, State.readCode]
  have hsecond : ∀ next, State.step ⟨.lineComment, s.last⟩ '/' next =
      (.hidden, ⟨.lineComment, s.last⟩) := fun _ => rfl
  rw [State.code, marks, List.head?_cons, Option.some_or, hfirst, marks, hsecond, hsize]
  rfl

theorem Row.code_eq_nil (h : Row t) (hs : BehindString s) (offset : Nat) : s.code offset t = [] := by
  induction h generalizing s offset with
  | nil => rfl
  | @string mark c body t hmark hbody hescape hends _ ih =>
    have hcut : mark :: (body ++ c :: t) = mark :: (body ++ [c]) ++ t := by simp
    rw [hcut, (string_hides hmark hs.mode hbody hescape hends).code_append]
    exact ih (.of_mark hmark) _
  | @comment body t hbody _ ih =>
    have hcut : '/' :: '*' :: (body ++ '*' :: '/' :: t) = ['/', '*'] ++ (body ++ ['*', '/'] ++ t) := by
      simp
    rw [hcut, (commentMark_hides hs.mode).code_append, (comment_hides hbody s.last).code_append,
      hs.code_last]
    exact ih hs _
  | openString hmark hbody => exact (openString_hides hmark hs.mode hbody).code_eq_nil offset
  | openEscape hmark hbody => exact (openEscape_hides hmark hs.mode hbody).code_eq_nil offset
  | @openComment body hbody =>
    show s.code offset (['/', '*'] ++ body) = []
    rw [(commentMark_hides hs.mode).code_append]
    exact code_openComment hbody s.last _
  | lineComment hfeed =>
    rw [code_slash_slash hs.mode]
    exact code_lineComment_eq_nil_iff.2 hfeed

/-- Where no operand is due, only a quote or the mark of a comment starts a text without code. -/
theorem head_of_code_eq_nil {c : Char} (hs : BehindString s) {offset : Nat}
    (h : s.code offset (c :: t) = []) :
    IsQuote c ∨ (c = '/' ∧ (t.head? = some '/' ∨ t.head? = some '*')) := by
  refine Decidable.byContradiction fun hnot => ?_
  rw [not_or] at hnot
  have hquote : ¬ (c = '\'' ∨ c = '"' ∨ c = '`') := hnot.1
  have hoperand := hs.expectsOperand
  have hrole : (s.step c (t.head?.or none)).1 = .code := by
    simp only [State.step, hs.mode, State.readCode, if_neg hquote, hoperand, Option.or_none]
    grind
  rw [State.code, marks, List.filterMap_cons, Mark.codeChar?, hrole] at h
  cases h

theorem row_of_code_eq_nil (hs : BehindString s) {offset : Nat} (h : s.code offset t = []) :
    Row t := by
  -- on the length, for a string or a comment is taken off at once
  induction hn : t.length using Nat.strongRecOn generalizing s t offset with
  | ind n ih =>
    subst hn
    cases t with
    | nil => exact .nil
    | cons c t =>
      rcases head_of_code_eq_nil hs h with hmark | ⟨rfl, hnext | hnext⟩
      · cases stringRest c t with
        | @ends body u d hbody hescape hends =>
          have hcut : c :: (body ++ d :: u) = c :: (body ++ [d]) ++ u := by simp
          rw [hcut, (string_hides hmark hs.mode hbody hescape hends).code_append] at h
          refine .string hmark hbody hescape hends (ih u.length ?_ (.of_mark hmark) h rfl)
          simp only [List.length_cons, List.length_append]
          omega
        | stays hbody => exact .openString hmark hbody
        | escapes hbody => exact .openEscape hmark hbody
      · obtain ⟨u, rfl⟩ := List.head?_eq_some_iff.1 hnext
        rw [code_slash_slash hs.mode] at h
        exact .lineComment (code_lineComment_eq_nil_iff.1 h)
      · obtain ⟨u, rfl⟩ := List.head?_eq_some_iff.1 hnext
        cases hsplit : splitFirst? "*/" u with
        | none => exact .openComment hsplit
        | some parts =>
          obtain ⟨body, rest⟩ := parts
          have hu : u = body ++ '*' :: '/' :: rest := by
            rw [Text.eq_append_of_splitFirst? hsplit]
            simp
          subst hu
          have hcut : '/' :: '*' :: (body ++ '*' :: '/' :: rest) =
              ['/', '*'] ++ (body ++ ['*', '/'] ++ rest) := by simp
          rw [hcut, (commentMark_hides hs.mode).code_append,
            (comment_hides hsplit s.last).code_append, hs.code_last] at h
          refine .comment hsplit (ih rest.length ?_ hs h rfl)
          simp only [List.length_cons, List.length_append]
          omega

/-- **Nothing of a text is code**, where no operand is due, exactly when it is a row of strings,
templates and comments. -/
theorem code_eq_nil_iff (hs : BehindString s) {offset : Nat} : s.code offset t = [] ↔ Row t :=
  ⟨row_of_code_eq_nil hs, fun h => h.code_eq_nil hs offset⟩

/-- A text that starts with a quote is read alike at its start and behind a string. -/
theorem chars_eq_nil_iff {mark : Char} (hmark : IsQuote mark) :
    chars (mark :: t) = [] ↔ Row (mark :: t) := by
  have hstep : ∀ next, State.step {} mark next = State.step ⟨.code, some mark⟩ mark next := by
    intro next
    have hmark : mark = '\'' ∨ mark = '"' ∨ mark = '`' := hmark
    simp [State.step, State.readCode, hmark]
  have hcode : chars (mark :: t) = State.code ⟨.code, some mark⟩ 0 (mark :: t) := by
    rw [chars_eq_code, State.code, State.code, marks, marks, hstep]
  rw [hcode]
  exact code_eq_nil_iff (.of_mark hmark)

end Row

end Ambient.Code
