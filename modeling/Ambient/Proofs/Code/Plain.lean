/-
Plain texts: whole strings, and code in which no slash stands.

Which characters of a plain text are code depends neither on what stands before it nor on what
follows (`Plain.code_eq`), so the code of two plain texts in a row is the code of the first and then
that of the second (`codeAt_append`). A plain text has no comments to strip
(`stripComments_of_plain`), nor has a line that ends with a string (`stripComments_string`), nor a
text in which, behind a plain start, no two slashes stand in a row
(`stripComments_append_of_no_slashes`).
-/
import Ambient.Code.Chars
import Ambient.Proofs.Code.Offsets
import Ambient.Proofs.Text.Lines
import Ambient.Proofs.Text.Spacing

namespace Ambient.Code

open Text (isBlank size fullLines)

instance : DecidablePred IsQuote :=
  fun c => inferInstanceAs (Decidable (c = '\'' ∨ c = '"' ∨ c = '`'))

/-! ## Strings -/

/-- Whether a text can stand between the marks of a string: a backslash takes the next character with
it, and otherwise neither the mark nor a line feed stands in it. -/
def isStringBody (mark : Char) : Text → Bool
  | [] => true
  | '\\' :: c :: t => c != '\n' && isStringBody mark t
  | c :: t => c != '\\' && c != mark && c != '\n' && isStringBody mark t

/-- A string in single or double quotes, on one line. -/
structure Quoted where
  mark : Char
  body : Text
  isMark : mark = '\'' ∨ mark = '"'
  isBody : isStringBody mark body = true

def Quoted.text (q : Quoted) : Text :=
  q.mark :: (q.body ++ [q.mark])

theorem newline_not_mem_of_isStringBody {mark : Char} {body : Text}
    (h : isStringBody mark body = true) : '\n' ∉ body := by
  fun_induction isStringBody mark body with
  | case1 => simp
  | case2 c t ih =>
    simp only [Bool.and_eq_true, bne_iff_ne] at h
    simp [h.1.symm, ih h.2]
  | case3 c t _ ih =>
    simp only [Bool.and_eq_true, bne_iff_ne] at h
    simp [h.1.2.symm, ih h.2]

theorem Quoted.newline_not_mem (q : Quoted) : '\n' ∉ q.text := by
  have hbody := newline_not_mem_of_isStringBody q.isBody
  have hmark : q.mark ≠ '\n' := by
    rcases q.isMark with h | h <;> rw [h] <;> decide
  simp [text, hbody, hmark.symm]

/-- The marks of a text of which nothing is code. -/
def hiddenMarks (offset : Nat) : Text → List Mark
  | [] => []
  | c :: t => ⟨offset, c, .hidden⟩ :: hiddenMarks (offset + c.utf8Size) t

theorem role_of_mem_hiddenMarks {offset : Nat} {t : Text} {m : Mark}
    (h : m ∈ hiddenMarks offset t) : m.role = .hidden := by
  induction t generalizing offset with
  | nil => cases h
  | cons c t ih =>
    rcases List.mem_cons.1 h with rfl | h
    · rfl
    · exact ih h

theorem filterMap_hiddenMarks (offset : Nat) (t : Text) :
    (hiddenMarks offset t).filterMap Mark.codeChar? = [] := by
  refine List.filterMap_eq_nil_iff.2 fun m hm => ?_
  simp [Mark.codeChar?, role_of_mem_hiddenMarks hm]

theorem marks_stringBody {mark : Char} {body : Text} (hmark : mark = '\'' ∨ mark = '"')
    (h : isStringBody mark body = true) (last : Option Char) (offset : Nat) (look : Option Char) :
    marks ⟨.quoted mark, last⟩ offset look (body ++ [mark]) = hiddenMarks offset (body ++ [mark]) ∧
      State.after ⟨.quoted mark, last⟩ look (body ++ [mark]) = ⟨.code, last⟩ := by
  have hescape : mark ≠ '\\' := by
    rcases hmark with h | h <;> rw [h] <;> decide
  fun_induction isStringBody mark body generalizing offset with
  | case1 => simp [marks, State.after, State.step, hiddenMarks, hescape]
  | case2 c t ih =>
    simp only [Bool.and_eq_true, bne_iff_ne] at h
    simp [marks, State.after, State.step, hiddenMarks, ih h.2, (ih h.2 0).2]
  | case3 c t _ ih =>
    simp only [Bool.and_eq_true, bne_iff_ne] at h
    obtain ⟨⟨⟨hc, hcmark⟩, hfeed⟩, ht⟩ := h
    simp [marks, State.after, State.step, hiddenMarks, hc, hcmark, hfeed, ih ht, (ih ht 0).2]

theorem Quoted.isQuote (q : Quoted) : IsQuote q.mark :=
  q.isMark.imp_right .inl

theorem Quoted.marks (q : Quoted) {s : State} (hs : s.mode = .code) (offset : Nat)
    (look : Option Char) :
    Code.marks s offset look q.text = hiddenMarks offset q.text ∧
      s.after look q.text = ⟨.code, some q.mark⟩ := by
  have hopen : ∀ next, s.step q.mark next = (.hidden, ⟨.quoted q.mark, some q.mark⟩) := by
    intro next
    have hquote : q.mark = '\'' ∨ q.mark = '"' ∨ q.mark = '`' := q.isQuote
    simp [State.step, hs, State.readCode, hquote]
  have hbody := marks_stringBody q.isMark q.isBody (some q.mark) (offset + q.mark.utf8Size) look
  simp only [text, Code.marks, State.after, hopen, hbody, hiddenMarks, and_self]

/-! ## Plain texts -/

/-- Code without slashes, with whole strings in it. -/
inductive Plain : Text → Prop where
  | nil : Plain []
  | char {c : Char} {t : Text} (hquote : ¬ IsQuote c) (hslash : c ≠ '/') (ht : Plain t) :
      Plain (c :: t)
  | quoted (q : Quoted) {t : Text} (ht : Plain t) : Plain (q.text ++ t)

/-- The code characters of a text that starts at byte `offset`. -/
def codeAt (offset : Nat) (t : Text) : List CodeChar :=
  (marks {} offset none t).filterMap Mark.codeChar?

theorem chars_eq_codeAt (t : Text) : chars t = codeAt 0 t :=
  rfl

theorem State.step_plain {s : State} {c : Char} (hs : s.mode = .code) (hquote : ¬ IsQuote c)
    (hslash : c ≠ '/') (next : Option Char) :
    s.step c next = (.code, ⟨.code, if isBlank c then s.last else some c⟩) := by
  have hquote : ¬ (c = '\'' ∨ c = '"' ∨ c = '`') := hquote
  simp [step, hs, readCode, hquote, hslash]

namespace Plain

variable {t u : Text}

theorem append (ht : Plain t) (hu : Plain u) : Plain (t ++ u) := by
  induction ht with
  | nil => exact hu
  | char hquote hslash _ ih => exact .char hquote hslash ih
  | quoted q _ ih =>
    rw [List.append_assoc]
    exact .quoted q ih

theorem mode_after (h : Plain t) {s : State} (hs : s.mode = .code) (look : Option Char) :
    (s.after look t).mode = .code := by
  induction h generalizing s with
  | nil => exact hs
  | char hquote hslash _ ih =>
    rw [State.after, State.step_plain hs hquote hslash]
    exact ih rfl
  | quoted q _ ih =>
    rw [State.after_append, (q.marks hs 0 _).2]
    exact ih rfl

theorem role_ne_lineComment (h : Plain t) {s : State} (hs : s.mode = .code) {offset : Nat}
    {look : Option Char} {m : Mark} (hm : m ∈ marks s offset look t) : m.role ≠ .lineComment := by
  induction h generalizing s offset with
  | nil => cases hm
  | char hquote hslash _ ih =>
    rw [marks, State.step_plain hs hquote hslash] at hm
    rcases List.mem_cons.1 hm with rfl | hm
    · simp
    · exact ih rfl hm
  | quoted q _ ih =>
    rw [marks_append, (q.marks hs _ _).1, (q.marks hs 0 _).2] at hm
    rcases List.mem_append.1 hm with hm | hm
    · simp [role_of_mem_hiddenMarks hm]
    · exact ih rfl hm

/-- The code of a plain text depends neither on what stands before it nor on what follows. -/
theorem code_eq (h : Plain t) {s s' : State} (hs : s.mode = .code) (hs' : s'.mode = .code)
    (offset : Nat) (look look' : Option Char) :
    (marks s offset look t).filterMap Mark.codeChar? =
      (marks s' offset look' t).filterMap Mark.codeChar? := by
  induction h generalizing s s' offset with
  | nil => rfl
  | @char c t hquote hslash _ ih =>
    simp only [marks, State.step_plain hs hquote hslash, State.step_plain hs' hquote hslash,
      List.filterMap_cons, Mark.codeChar?]
    exact congrArg (List.cons (offset, c)) (ih rfl rfl _)
  | quoted q _ ih =>
    simp only [marks_append, List.filterMap_append, q.marks hs, q.marks hs', filterMap_hiddenMarks]
    rw [(q.marks hs 0 _).2, (q.marks hs' 0 _).2]
    exact ih rfl rfl _

theorem filterMap_marks (h : Plain t) {s : State} (hs : s.mode = .code) (offset : Nat)
    (look : Option Char) : (marks s offset look t).filterMap Mark.codeChar? = codeAt offset t :=
  h.code_eq hs rfl offset look none

end Plain

theorem codeAt_cons {c : Char} {t : Text} (hquote : ¬ IsQuote c) (hslash : c ≠ '/') (ht : Plain t)
    (offset : Nat) : codeAt offset (c :: t) = (offset, c) :: codeAt (offset + c.utf8Size) t := by
  rw [codeAt, marks, State.step_plain rfl hquote hslash]
  exact congrArg (List.cons (offset, c)) (ht.filterMap_marks rfl _ _)

theorem codeAt_quoted (q : Quoted) {t : Text} (ht : Plain t) (offset : Nat) :
    codeAt offset (q.text ++ t) = codeAt (offset + size q.text) t := by
  rw [codeAt, marks_append, List.filterMap_append, (q.marks rfl _ _).1, (q.marks rfl 0 _).2,
    filterMap_hiddenMarks, List.nil_append]
  exact ht.filterMap_marks rfl _ _

theorem codeAt_append {t u : Text} (ht : Plain t) (hu : Plain u) (offset : Nat) :
    codeAt offset (t ++ u) = codeAt offset t ++ codeAt (offset + size t) u := by
  rw [codeAt, marks_append, List.filterMap_append, ht.filterMap_marks rfl,
    hu.filterMap_marks (ht.mode_after rfl _)]

/-- A plain text and a character of code, with anything behind them. -/
theorem exists_codeAt_append_cons {t : Text} (ht : Plain t) {c : Char} (hquote : ¬ IsQuote c)
    (hslash : c ≠ '/') (u : Text) (offset : Nat) :
    ∃ rest, codeAt offset (t ++ c :: u) = codeAt offset t ++ (offset + size t, c) :: rest := by
  rw [codeAt, marks_append, List.filterMap_append, ht.filterMap_marks rfl, marks,
    State.step_plain (ht.mode_after rfl _) hquote hslash]
  exact ⟨_, rfl⟩

/-! ## Comments -/

theorem fullLines_append {u : Text} (hne : u ≠ []) (hfeed : '\n' ∉ u) (t : Text) :
    fullLines (u ++ t) = (u ++ (fullLines t).headD []) :: (fullLines t).tail := by
  induction u with
  | nil => exact absurd rfl hne
  | cons c u ih =>
    have hc : c ≠ '\n' := fun h => hfeed (by simp [h])
    have hu : '\n' ∉ u := fun h => hfeed (List.mem_cons_of_mem c h)
    cases u with
    | nil =>
      simp only [List.cons_append, List.nil_append, fullLines, hc, if_false]
      cases fullLines t <;> rfl
    | cons d u =>
      rw [List.cons_append, fullLines, if_neg hc, ih (List.cons_ne_nil d u) hu]
      rfl

theorem plain_of_mem_fullLines {t line : Text} (ht : Plain t) (h : line ∈ fullLines t) :
    Plain line := by
  -- A line is what a character or a string adds to the first line of the rest, or a later line.
  have hadd : ∀ {u t : Text}, u ≠ [] → '\n' ∉ u → Plain u → (∀ l ∈ fullLines t, Plain l) →
      ∀ l ∈ fullLines (u ++ t), Plain l := by
    intro u t hne hfeed hu ht l hl
    rw [fullLines_append hne hfeed] at hl
    rcases List.mem_cons.1 hl with rfl | hl
    · refine hu.append ?_
      cases hlines : fullLines t with
      | nil => exact .nil
      | cons first rest => exact ht first (by simp [hlines])
    · exact ht l (List.mem_of_mem_tail hl)
  induction ht generalizing line with
  | nil => cases h
  | @char c t hquote hslash ht ih =>
    by_cases hc : c = '\n'
    · rw [fullLines, if_pos hc] at h
      rcases List.mem_cons.1 h with rfl | h
      · exact .char hquote hslash .nil
      · exact ih h
    · have hfeed : '\n' ∉ [c] := by simpa using Ne.symm hc
      exact hadd (List.cons_ne_nil c []) hfeed (.char hquote hslash .nil) (fun _ => ih) line h
  | quoted q ht ih =>
    have hq : Plain q.text := by simpa using Plain.quoted q .nil
    exact hadd (List.cons_ne_nil _ _) q.newline_not_mem hq (fun _ => ih) line h

theorem stripLine_of_forall {k : Carry} {line : Text}
    (h : ∀ m ∈ marks k.state 0 none line, m.role ≠ .lineComment) : stripLine k line = line := by
  have hnone : lineComment? k line = none := by
    rw [lineComment?, Option.map_eq_none_iff, List.find?_eq_none]
    simpa using h
  rw [stripLine, hnone]

theorem stripLines_of_plain {ls : List Text} (h : ∀ line ∈ ls, Plain line) :
    stripLines .code ls = ls.flatten := by
  induction ls with
  | nil => rfl
  | cons line rest ih =>
    obtain ⟨hline, hrest⟩ := List.forall_mem_cons.1 h
    have hcarry : Carry.code.after line = .code := by
      rw [Carry.after, hline.mode_after rfl]
      rfl
    rw [stripLines, stripLine_of_forall fun m => hline.role_ne_lineComment rfl, hcarry, ih hrest]
    rfl

/-- A plain text has no comments. -/
theorem stripComments_of_plain {t : Text} (h : Plain t) : stripComments t = t := by
  rw [stripComments, stripLines_of_plain fun line => plain_of_mem_fullLines h, Text.flatten_fullLines]

theorem State.eq_slash_of_role {s : State} {c : Char} {next : Option Char}
    (h : (s.step c next).1 = .lineComment) : c = '/' ∧ next = some '/' := by
  have hread : (s.readCode c next).1 = .lineComment → c = '/' ∧ next = some '/' := by
    grind [readCode]
  -- each mode hides the character or reads it as code
  grind [step]

/-- A line comment starts with two slashes. -/
theorem infix_of_role_eq_lineComment {s : State} {offset : Nat} {t : Text} {m : Mark}
    (hm : m ∈ marks s offset none t) (hrole : m.role = .lineComment) : ['/', '/'] <:+: t := by
  induction t generalizing s offset with
  | nil => cases hm
  | cons c t ih =>
    rcases List.mem_cons.1 hm with rfl | hm
    · obtain ⟨rfl, hnext⟩ := State.eq_slash_of_role hrole
      rw [Option.or_none] at hnext
      obtain ⟨u, rfl⟩ := List.head?_eq_some_iff.1 hnext
      exact ⟨[], u, rfl⟩
    · exact (ih hm).trans (List.suffix_cons c t).isInfix

theorem stripLines_of_no_slashes {ls : List Text} (h : ∀ line ∈ ls, ¬ ['/', '/'] <:+: line) (k : Carry) :
    stripLines k ls = ls.flatten := by
  induction ls generalizing k with
  | nil => rfl
  | cons line rest ih =>
    obtain ⟨hline, hrest⟩ := List.forall_mem_cons.1 h
    have hstrip : stripLine k line = line :=
      stripLine_of_forall fun m hm hrole => hline (infix_of_role_eq_lineComment hm hrole)
    rw [stripLines, hstrip, ih hrest, List.flatten_cons]

theorem infix_of_mem_fullLines {t line : Text} (h : line ∈ fullLines t) : line <:+: t := by
  have hflat := List.infix_of_mem_flatten h
  rwa [Text.flatten_fullLines] at hflat

/-- Two slashes in a row do not stand across another character. -/
theorem no_slashes_append_cons {t u : Text} {c : Char} (hc : c ≠ '/') (ht : ¬ ['/', '/'] <:+: t)
    (hu : ¬ ['/', '/'] <:+: u) : ¬ ['/', '/'] <:+: t ++ c :: u := by
  induction t with
  | nil =>
    rw [List.nil_append, List.infix_cons_iff, not_or]
    exact ⟨fun h => hc (List.cons_prefix_cons.1 h).1.symm, hu⟩
  | cons d t ih =>
    rw [List.infix_cons_iff, not_or] at ht
    rw [List.cons_append, List.infix_cons_iff, not_or]
    refine ⟨fun h => ?_, ih ht.2⟩
    obtain ⟨rfl, hnext⟩ := List.cons_prefix_cons.1 h
    cases t with
    | nil => exact hc (List.cons_prefix_cons.1 hnext).1.symm
    | cons e t =>
      obtain ⟨rfl, -⟩ := List.cons_prefix_cons.1 hnext
      exact ht.1 ⟨t, rfl⟩

theorem no_slashes_of_not_mem {t : Text} (h : '/' ∉ t) : ¬ ['/', '/'] <:+: t :=
  fun hslashes => h (hslashes.subset List.mem_cons_self)

theorem no_slashes_intercalate {ts : List Text} (h : ∀ t ∈ ts, ¬ ['/', '/'] <:+: t) :
    ¬ ['/', '/'] <:+: List.intercalate (", " : Text) ts := by
  induction ts with
  | nil => exact no_slashes_of_not_mem List.not_mem_nil
  | cons t ts ih =>
    obtain ⟨ht, hts⟩ := List.forall_mem_cons.1 h
    cases ts with
    | nil => simpa using ht
    | cons u us =>
      have hspace : ¬ ['/', '/'] <:+: [' '] ++ List.intercalate (", " : Text) (u :: us) :=
        no_slashes_append_cons (t := []) (by decide) (no_slashes_of_not_mem List.not_mem_nil) (ih hts)
      rw [List.intercalate_cons_cons, List.append_assoc]
      exact no_slashes_append_cons (by decide) ht hspace

/-- A text has no comments if none starts on a part of its first line and two slashes in a row do not
stand behind that. -/
theorem stripComments_append_of_roles {t u : Text} (hne : t ≠ []) (hfeed : '\n' ∉ t)
    (ht : ∀ {look m}, m ∈ marks {} 0 look t → m.role ≠ .lineComment) (hu : ¬ ['/', '/'] <:+: u) :
    stripComments (t ++ u) = t ++ u := by
  have hlines : ∀ line ∈ fullLines u, ¬ ['/', '/'] <:+: line :=
    fun line hline hslashes => hu (hslashes.trans (infix_of_mem_fullLines hline))
  have hfirst : stripLine .code (t ++ (fullLines u).headD []) = t ++ (fullLines u).headD [] := by
    refine stripLine_of_forall fun m hm hrole => ?_
    rw [marks_append] at hm
    rcases List.mem_append.1 hm with hm | hm
    · exact ht hm hrole
    · have hslashes := infix_of_role_eq_lineComment hm hrole
      cases hhead : fullLines u with
      | nil => simp [hhead] at hslashes
      | cons line rest => exact hlines line (by simp [hhead]) (by simpa [hhead] using hslashes)
  have hrest := stripLines_of_no_slashes (fun line hline => hlines line (List.mem_of_mem_tail hline))
    (Carry.code.after (t ++ (fullLines u).headD []))
  rw [stripComments, fullLines_append hne hfeed, stripLines, hfirst, hrest, List.append_assoc]
  congr 1
  calc (fullLines u).headD [] ++ (fullLines u).tail.flatten = (fullLines u).flatten := by
        cases fullLines u <;> rfl
    _ = u := Text.flatten_fullLines u

/-- Behind a plain start of its first line, a text without two slashes in a row has no comments. -/
theorem stripComments_append_of_no_slashes {t u : Text} (ht : Plain t) (hne : t ≠ [])
    (hfeed : '\n' ∉ t) (hu : ¬ ['/', '/'] <:+: u) : stripComments (t ++ u) = t ++ u :=
  stripComments_append_of_roles hne hfeed (ht.role_ne_lineComment rfl) hu

/-- Up to the mark that opened it, all of a line is hidden in a string, even if a backslash before the
last mark keeps the string open. -/
theorem role_of_mem_marks_string {mark : Char} {body : Text} (hmark : mark ∉ body)
    (hfeed : '\n' ∉ body) {s : State} (hs : s.mode = .quoted mark ∨ s.mode = .escaped mark)
    {offset : Nat} {look : Option Char} {m : Mark}
    (hm : m ∈ marks s offset look (body ++ [mark])) : m.role = .hidden := by
  induction body generalizing s offset with
  | nil =>
    rw [List.nil_append, marks, marks, List.mem_singleton] at hm
    rw [hm]
    rcases hs with hs | hs <;> simp only [State.step, hs]
    split <;> simp
  | cons c body ih =>
    simp only [List.mem_cons, not_or] at hmark hfeed
    have hstep : ∀ next, (s.step c next).1 = .hidden ∧
        ((s.step c next).2.mode = .quoted mark ∨ (s.step c next).2.mode = .escaped mark) := by
      intro next
      rcases hs with hs | hs
      · by_cases hc : c = '\\'
        · simp [State.step, hs, hc]
        · simp [State.step, hs, hc, Ne.symm hmark.1, Ne.symm hfeed.1]
      · simp [State.step, hs]
    rw [List.cons_append, marks] at hm
    rcases List.mem_cons.1 hm with rfl | hm
    · exact (hstep _).1
    · exact ih hmark.2 hfeed.2 (hstep _).2 hm

/-- No comment starts in a string, whatever stands in it. -/
theorem role_ne_lineComment_string {t body : Text} {mark : Char} (ht : Plain t)
    (hquote : IsQuote mark) (hmark : mark ∉ body) (hfeed : '\n' ∉ body) {look : Option Char} {m : Mark}
    (hm : m ∈ marks {} 0 look (t ++ mark :: (body ++ [mark]))) : m.role ≠ .lineComment := by
  have hopen : ∀ s : State, s.mode = .code → ∀ next,
      s.step mark next = (.hidden, ⟨.quoted mark, some mark⟩) := by
    intro s hs next
    have hquote : mark = '\'' ∨ mark = '"' ∨ mark = '`' := hquote
    simp [State.step, hs, State.readCode, hquote]
  rw [marks_append] at hm
  rcases List.mem_append.1 hm with hm | hm
  · exact ht.role_ne_lineComment rfl hm
  · rw [marks, hopen _ (ht.mode_after rfl _)] at hm
    rcases List.mem_cons.1 hm with rfl | hm
    · simp
    · simp [role_of_mem_marks_string hmark hfeed (.inl rfl) hm]

/-- A line that ends with a string, whatever stands in the string, has no comments. -/
theorem stripComments_string {t body : Text} {mark : Char} (ht : Plain t) (hquote : IsQuote mark)
    (hmark : mark ∉ body) (hfeed : '\n' ∉ t ++ mark :: (body ++ [mark])) :
    stripComments (t ++ mark :: (body ++ [mark])) = t ++ mark :: (body ++ [mark]) := by
  have hbody : '\n' ∉ body := fun h => hfeed (by simp [h])
  have hstrip := stripComments_append_of_roles (by simp) hfeed
    (role_ne_lineComment_string ht hquote hmark hbody) (no_slashes_of_not_mem List.not_mem_nil)
  simpa using hstrip

end Ambient.Code
