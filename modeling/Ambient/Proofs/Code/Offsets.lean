/-
Which offsets of a text are code.

The marks of a text are those of its first part and then those of the second, read on from the
state behind the first (`marks_append`). So one character is code exactly when the state before it
reads it as code (`mem_chars_append`). At the start of a line that state is in one of three modes: in
code, in a string or a template, or in a comment (`LineStart`), and blanks keep it there.
-/
import Ambient.Code.Chars

namespace Ambient.Code

open Text (isBlank size)

/-! ## Texts in two parts -/

theorem head?_append_or (t u : Text) (look : Option Char) :
    (t ++ u).head?.or look = t.head?.or (u.head?.or look) := by
  cases t <;> rfl

theorem State.after_append (s : State) (look : Option Char) (t u : Text) :
    s.after look (t ++ u) = (s.after (u.head?.or look) t).after look u := by
  induction t generalizing s with
  | nil => rfl
  | cons c t ih =>
    simp only [List.cons_append, after, head?_append_or, ih]

theorem marks_append (s : State) (offset : Nat) (look : Option Char) (t u : Text) :
    marks s offset look (t ++ u) =
      marks s offset (u.head?.or look) t ++
        marks (s.after (u.head?.or look) t) (offset + size t) look u := by
  induction t generalizing s offset with
  | nil => rfl
  | cons c t ih =>
    simp only [List.cons_append, marks, State.after, head?_append_or, ih, size, Nat.add_assoc]

theorem offset_mem_marks {s : State} {offset : Nat} {look : Option Char} {t : Text} {m : Mark}
    (h : m ∈ marks s offset look t) : offset ≤ m.offset ∧ m.offset < offset + size t := by
  induction t generalizing s offset with
  | nil => simp [marks] at h
  | cons c t ih =>
    have hpos : 0 < c.utf8Size := c.utf8Size_pos
    simp only [marks, List.mem_cons] at h
    rcases h with rfl | h
    · simp only [size]
      omega
    · obtain ⟨hge, hlt⟩ := ih h
      simp only [size]
      omega

theorem Mark.codeChar?_eq_some {m : Mark} {offset : Nat} {c : Char}
    (h : m.codeChar? = some (offset, c)) : m.offset = offset ∧ m.char = c ∧ m.role = .code := by
  unfold codeChar? at h
  split at h
  · rename_i hrole
    cases h
    exact ⟨rfl, rfl, hrole⟩
  · cases h

/-- **A character is code** exactly when it is read as code by the state that the text before it
leaves. -/
theorem mem_chars_append (t : Text) (c : Char) (u : Text) :
    (size t, c) ∈ chars (t ++ c :: u) ↔
      (((State.after {} (some c) t).step c u.head?).1 = .code) := by
  simp only [chars, charsFrom, Carry.state, marks_append, marks, List.mem_filterMap, List.mem_append,
    List.mem_cons, List.head?_cons, Option.or_none, Nat.zero_add]
  constructor
  · rintro ⟨m, hm, hcode⟩
    obtain ⟨hoffset, hchar, hrole⟩ := Mark.codeChar?_eq_some hcode
    rcases hm with hm | rfl | hm
    · have := (offset_mem_marks hm).2
      omega
    · exact hrole
    · have := (offset_mem_marks hm).1
      have := c.utf8Size_pos
      omega
  · intro hrole
    exact ⟨_, .inr (.inl rfl), by simp [Mark.codeChar?, hrole]⟩

/-! ## Quotes -/

/-- The characters that open a string or a template. -/
def IsQuote (c : Char) : Prop :=
  c = '\'' ∨ c = '"' ∨ c = '`'

/-- Modes in which the open string or template, if there is one, was opened by a quote. -/
def Mode.Quoted : Mode → Prop
  | .quoted mark | .escaped mark => IsQuote mark
  | _ => True

namespace State

variable {s : State} {c : Char} {next look : Option Char}

theorem quoted_readCode : (s.readCode c next).2.mode.Quoted := by
  unfold readCode
  split
  · rename_i hquote
    exact hquote
  · split
    · trivial
    · split
      · trivial
      · split <;> trivial

theorem quoted_step (h : s.mode.Quoted) : (s.step c next).2.mode.Quoted := by
  cases hmode : s.mode with
  | code =>
    simp only [step, hmode]
    exact quoted_readCode
  | quoted mark =>
    rw [hmode] at h
    simp only [step, hmode]
    split
    · exact h
    · split
      · trivial
      · rw [hmode]
        exact h
  | escaped mark =>
    rw [hmode] at h
    simp only [step, hmode]
    exact h
  | comment =>
    simp only [step, hmode]
    split
    · trivial
    · rw [hmode]
      trivial
  | commentOpening => simp only [step, hmode]; trivial
  | commentClosing => simp only [step, hmode]; trivial
  | lineComment =>
    simp only [step, hmode]
    split
    · exact quoted_readCode
    · rw [hmode]
      trivial
  | regex inClass =>
    simp only [step, hmode]
    split
    · exact quoted_readCode
    · repeat' split
      all_goals simp [Mode.Quoted, hmode]
  | regexEscape inClass =>
    simp only [step, hmode]
    split
    · exact quoted_readCode
    · trivial

theorem quoted_after {t : Text} (h : s.mode.Quoted) : (s.after look t).mode.Quoted := by
  induction t generalizing s with
  | nil => exact h
  | cons c t ih => exact ih (quoted_step h)

end State

/-! ## Starts of lines -/

/-- The states that a line starts in. -/
inductive LineStart (s : State) : Prop where
  | code (h : s.mode = .code)
  | quoted (mark : Char) (hmark : IsQuote mark) (h : s.mode = .quoted mark)
  | comment (h : s.mode = .comment)

theorem LineStart.congr {s s' : State} (h : LineStart s) (hmode : s'.mode = s.mode) :
    LineStart s' := by
  cases h with
  | code h => exact .code (hmode.trans h)
  | quoted mark hmark h => exact .quoted mark hmark (hmode.trans h)
  | comment h => exact .comment (hmode.trans h)

namespace State

variable {s : State} {c : Char} {next look : Option Char}

theorem readCode_newline (s : State) (next : Option Char) :
    s.readCode '\n' next = (.code, ⟨.code, s.last⟩) := by
  simp [readCode, show isBlank '\n' = true by decide]

/-- What follows a line feed plays no role in how it is read. -/
theorem step_newline (s : State) (next : Option Char) : s.step '\n' next = s.step '\n' none := by
  cases hmode : s.mode <;> simp [step, hmode, readCode_newline]

theorem lineStart_step_newline (h : s.mode.Quoted) : LineStart (s.step '\n' next).2 := by
  cases hmode : s.mode with
  | quoted mark =>
    rw [hmode] at h
    simp only [step, hmode]
    split
    · exact absurd ‹_› (by decide)
    · split
      · exact .code rfl
      · exact .quoted mark h hmode
  | escaped mark =>
    rw [hmode] at h
    simp only [step, hmode]
    exact .quoted mark h rfl
  | comment =>
    refine .comment ?_
    simp [step, hmode]
  | commentOpening =>
    refine .comment ?_
    simp [step, hmode]
  | code | commentClosing | lineComment | regex | regexEscape =>
    refine .code ?_
    simp [step, hmode, readCode_newline]

/-- A text that is empty or ends in a line feed leaves the start of a line, whatever follows it. -/
theorem lineStart_after {t : Text} (ht : t = [] ∨ ∃ u, t = u ++ ['\n']) (look : Option Char) :
    LineStart (State.after {} look t) ∧ State.after {} look t = State.after {} none t := by
  rcases ht with rfl | ⟨u, rfl⟩
  · exact ⟨.code rfl, rfl⟩
  · simp only [after_append, List.head?_cons, Option.some_or, after, List.head?_nil, Option.none_or,
      step_newline]
    exact ⟨lineStart_step_newline (quoted_after trivial), trivial⟩

theorem ne_of_isBlank {d : Char} (h : isBlank c = true) (hd : isBlank d = false) : c ≠ d := by
  rintro rfl
  rw [h] at hd
  cases hd

theorem not_isBlank_of_isQuote {mark : Char} (h : IsQuote mark) : isBlank mark = false := by
  rcases h with rfl | rfl | rfl <;> decide

theorem readCode_blank (h : isBlank c = true) (s : State) (next : Option Char) :
    s.readCode c next = (.code, ⟨.code, s.last⟩) := by
  have hquote : ¬ (c = '\'' ∨ c = '"' ∨ c = '`') := fun hmark => by
    rw [not_isBlank_of_isQuote hmark] at h
    cases h
  have hslash : c ≠ '/' := ne_of_isBlank h (by decide)
  simp [readCode, hquote, hslash, h]

theorem mode_step_blank (h : LineStart s) (hblank : isBlank c = true) (hc : c ≠ '\n') :
    (s.step c next).2.mode = s.mode := by
  have hne := fun d hd => ne_of_isBlank (d := d) hblank hd
  cases h with
  | code h =>
    simp [step, h, readCode, hne '\'' (by decide), hne '"' (by decide), hne '`' (by decide),
      hne '/' (by decide)]
  | quoted mark hmark h =>
    simp [step, h, hne '\\' (by decide), hne mark (not_isBlank_of_isQuote hmark), hc]
  | comment h => simp [step, h, hne '*' (by decide)]

theorem mode_after_blanks {t : Text} (h : LineStart s)
    (ht : ∀ c ∈ t, isBlank c = true ∧ c ≠ '\n') : (s.after look t).mode = s.mode := by
  induction t generalizing s with
  | nil => rfl
  | cons c t ih =>
    obtain ⟨⟨hblank, hc⟩, ht⟩ := List.forall_mem_cons.1 ht
    have hmode : (s.step c (t.head?.or look)).2.mode = s.mode := mode_step_blank h hblank hc
    rw [after, ih (h.congr hmode) ht, hmode]

/-- Where a line starts, a character that opens nothing is code in code alone. -/
theorem role_step (h : LineStart s) (hquote : ¬ IsQuote c) (hslash : c ≠ '/') :
    (s.step c next).1 = .code ↔ s.mode = .code := by
  cases h with
  | code h =>
    have hquote : ¬ (c = '\'' ∨ c = '"' ∨ c = '`') := hquote
    simp [step, h, readCode, hquote, hslash]
  | quoted mark hmark h =>
    simp only [step, h, reduceCtorEq, iff_false]
    repeat' split
    all_goals simp
  | comment h =>
    simp only [step, h, reduceCtorEq, iff_false]
    split <;> simp

end State

/-- **The first character of a line** behind its blanks is code exactly when the line starts in
code, for a character that opens no string, comment or regular expression. -/
theorem mem_chars_lineStart {t blanks u : Text} {c : Char}
    (ht : t = [] ∨ ∃ u, t = u ++ ['\n']) (hblanks : ∀ c ∈ blanks, isBlank c = true ∧ c ≠ '\n')
    (hquote : ¬ IsQuote c) (hslash : c ≠ '/') :
    (size t + size blanks, c) ∈ chars (t ++ (blanks ++ c :: u)) ↔
      (State.after {} none t).mode = .code := by
  rw [← Text.size_append, ← List.append_assoc, mem_chars_append, State.after_append]
  obtain ⟨hstart, hlook⟩ := State.lineStart_after ht (blanks.head?.or (some c))
  have hmode : ((State.after {} (blanks.head?.or (some c)) t).after (some c) blanks).mode =
      (State.after {} none t).mode := by
    rw [State.mode_after_blanks hstart hblanks, hlook]
  rw [State.role_step (hstart.congr ?_) hquote hslash, hmode]
  rw [hmode, hlook]

end Ambient.Code
