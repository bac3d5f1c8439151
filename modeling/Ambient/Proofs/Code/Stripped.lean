/-
Texts and what is left of them without their line comments.

Two slashes that are read in code cut a line off, and nothing else does (`stripLine_cases`). Blanks
are read in every mode without a change to what a line carries on (`carry_after_blank`), so the
blanks that go with a comment change nothing for the lines behind. A text is stripped line by line
(`lined_stripLines`): it keeps its line feeds, its lines read as before, and stripping it again
changes nothing (`stripComments_lines`).
-/
import Ambient.Proofs.Code.Hidden
import Ambient.Proofs.Code.Layout
import Ambient.Proofs.Code.Lines

namespace Ambient.Code

open Text (Blank Lined exists_trimEnd_append fullLines isBlank lined_splitOn size trimEnd)

/-- What a line leaves without its comment, if it starts in `k`: all of it where no two slashes are
read in code, or else what stands before them, without the blanks at its end. -/
inductive StrippedLine (k : Carry) : Text → Text → Prop where
  | kept {line : Text}
      (hcode : ∀ u v, line = u ++ '/' :: '/' :: v → (k.state.after (some '/') u).mode ≠ .code) :
      StrippedLine k line line
  | cut {u : Text} (v : Text) (hcode : (k.state.after (some '/') u).mode = .code) :
      StrippedLine k (u ++ '/' :: '/' :: v) (trimEnd u)

/-- Lines and what each of them leaves, where a line starts in what the whole lines before it carry
on. -/
inductive StrippedLines : Carry → List Text → List Text → Prop where
  | nil (k : Carry) : StrippedLines k [] []
  | cons {k : Carry} {line left : Text} {rest lefts : List Text} (hline : StrippedLine k line left)
      (hrest : StrippedLines (k.after line) rest lefts) :
      StrippedLines k (line :: rest) (left :: lefts)

/-- Each line without its comment. -/
def stripEach (k : Carry) : List Text → List Text
  | [] => []
  | line :: rest => stripLine k line :: stripEach (k.after line) rest

/-! ## Blanks -/

/-- A blank opens and closes nothing that a line carries on. -/
theorem carry_step_blank {c : Char} (hc : isBlank c = true) (s : State) (next : Option Char) :
    (s.step c next).2.mode.carry = s.mode.carry := by
  have hne : ∀ {d : Char}, isBlank d = false → c ≠ d := State.ne_of_isBlank hc
  have hread : (s.readCode c next).2.mode = .code := by rw [State.readCode_blank hc]
  have hescape : c ≠ '\\' := hne (by decide)
  cases hmode : s.mode with
  | code => simp only [State.step, hmode, hread]
  | escaped | commentOpening | commentClosing => simp only [State.step, hmode, Mode.carry]
  | comment =>
    have hstar : c ≠ '*' := hne (by decide)
    simp [State.step, hmode, hstar]
  | quoted mark =>
    by_cases hmark : mark = '`'
    · have htick : c ≠ '`' := hne (by decide)
      simp [State.step, hmode, hescape, hmark, htick]
    · simp only [State.step, hmode, if_neg hescape]
      split
      · simp only [Mode.carry, if_neg hmark]
      · rw [hmode]
  | lineComment =>
    simp only [State.step, hmode]
    split
    · rw [hread]
      rfl
    · rw [hmode]
  | regexEscape =>
    simp only [State.step, hmode]
    split
    · rw [hread]
      rfl
    · rfl
  | regex inClass =>
    simp only [State.step, hmode, if_neg hescape]
    split
    · rw [hread]
      rfl
    · repeat' split
      all_goals first | rfl | rw [hmode]

theorem carry_after_blank {g : Text} (hg : Blank g) (s : State) (look : Option Char) :
    (s.after look g).mode.carry = s.mode.carry := by
  induction g generalizing s with
  | nil => rfl
  | cons c g ih =>
    obtain ⟨hc, hg⟩ := List.forall_mem_cons.1 hg
    rw [State.after, ih hg, carry_step_blank hc]

theorem weight_of_isBlank {c : Char} (hc : isBlank c = true) : weight c = 0 := by
  have hne : ∀ d ∈ ['{', '(', '[', '}', ')', ']'], c ≠ d := by
    have hnone : ∀ d ∈ ['{', '(', '[', '}', ')', ']'], isBlank d = false := by decide
    exact fun d hd => State.ne_of_isBlank hc (hnone d hd)
  simp only [List.forall_mem_cons] at hne
  simp [weight, hne]

theorem totalWeight_blank {g : Text} (hg : Blank g) (s : State) (offset : Nat) (look : Option Char) :
    totalWeight ((marks s offset look g).filterMap Mark.codeChar?) = 0 := by
  induction g generalizing s offset with
  | nil => rfl
  | cons c g ih =>
    obtain ⟨hc, hg⟩ := List.forall_mem_cons.1 hg
    rw [marks, List.filterMap_cons]
    cases hrole : (s.step c (g.head?.or look)).1 with
    | code => simp [Mark.codeChar?, totalWeight, weight_of_isBlank hc, ih hg]
    | lineComment | hidden => simp [Mark.codeChar?, ih hg]

/-- A text that ends in code reads without the blanks at its end as it does with them. -/
theorem exists_marks_trimEnd {s : State} {u : Text} (hcode : (s.after (some '/') u).mode = .code) :
    ∃ g, Blank g ∧ (s.after none (trimEnd u)).mode.carry = .code ∧
      marks s 0 (some '/') u = marks s 0 none (trimEnd u) ++
        marks (s.after none (trimEnd u)) (size (trimEnd u)) (some '/') g := by
  obtain ⟨g, hg, hu⟩ := exists_trimEnd_append u
  have hlook : (∀ c, g.head?.or (some '/') = some c → isCommentSign c = false) ∨
      (s.after (g.head?.or (some '/')) (trimEnd u)).mode = .code := by
    cases g with
    | nil =>
      rw [List.append_nil] at hu
      exact .inr (by rwa [← hu])
    | cons c g =>
      refine .inl fun d hd => ?_
      cases hd
      exact not_isCommentSign_of_isBlank (hg c List.mem_cons_self)
  obtain ⟨hmarks, hafter⟩ := marks_of_look hlook 0
  refine ⟨g, hg, ?_, ?_⟩
  · calc (s.after none (trimEnd u)).mode.carry
        = ((s.after none (trimEnd u)).after (some '/') g).mode.carry :=
          (carry_after_blank hg _ _).symm
      _ = (s.after (some '/') (trimEnd u ++ g)).mode.carry := by rw [State.after_append, hafter]
      _ = Mode.code.carry := by rw [← hu, hcode]
  · calc marks s 0 (some '/') u
        = marks s 0 (some '/') (trimEnd u ++ g) := congrArg _ hu
      _ = _ := by rw [marks_append, hmarks, hafter, Nat.zero_add]

/-! ## Lines -/

section

variable {k : Carry} {line u v : Text}

theorem exists_slashes_of_role {m : Mark} (hm : m ∈ marks k.state 0 none line)
    (hrole : m.role = .lineComment) :
    ∃ u v, line = u ++ '/' :: '/' :: v ∧ (k.state.after (some '/') u).mode = .code := by
  obtain ⟨u, v, hline, -, hstep⟩ := exists_state_of_mem_marks hm
  rw [hrole, Option.or_none] at hstep
  obtain ⟨hchar, hnext⟩ := State.eq_slash_of_role hstep.symm
  obtain ⟨v, rfl⟩ := List.head?_eq_some_iff.1 hnext
  rw [hchar] at hline hstep
  refine ⟨u, v, hline, Decidable.byContradiction fun hmode => ?_⟩
  rw [State.role_eq_hidden hmode (by decide)] at hstep
  cases hstep

/-- **What is cut off a line**: nothing, or two slashes that are read in code and all behind them. -/
theorem stripLine_cases (hfeed : '\n' ∉ line) (k : Carry) :
    (stripLine k line = line ∧ (∀ m ∈ marks k.state 0 none line, m.role ≠ .lineComment) ∧
      ∀ u v, line = u ++ '/' :: '/' :: v → (k.state.after (some '/') u).mode ≠ .code) ∨
    ∃ u v, line = u ++ '/' :: '/' :: v ∧ (k.state.after (some '/') u).mode = .code ∧
      (∀ m ∈ marks k.state 0 (some '/') u, m.role ≠ .lineComment) ∧ stripLine k line = trimEnd u := by
  by_cases hcut : ∃ u v, line = u ++ '/' :: '/' :: v ∧ (k.state.after (some '/') u).mode = .code
  · obtain ⟨u, v, rfl, hcode⟩ := hcut
    have hroles : ∀ m ∈ marks k.state 0 (some '/') u, m.role ≠ .lineComment := fun m =>
      role_ne_lineComment_of_mode (fun h => hfeed (List.mem_append_left _ h)) (by simp [hcode])
    have hlast : (u ++ '/' :: '/' :: v).getLast? ≠ some '\n' :=
      fun h => hfeed (List.mem_of_getLast? h)
    refine .inr ⟨u, v, rfl, hcode, hroles, ?_⟩
    rw [stripLine_cut hcode hroles, if_neg hlast, List.append_nil]
  · have hroles : ∀ m ∈ marks k.state 0 none line, m.role ≠ .lineComment :=
      fun m hm hrole => hcut (exists_slashes_of_role hm hrole)
    exact .inl ⟨stripLine_of_forall hroles, hroles, fun u v hline hcode => hcut ⟨u, v, hline, hcode⟩⟩

theorem strippedLine_stripLine (hfeed : '\n' ∉ line) (k : Carry) :
    StrippedLine k line (stripLine k line) := by
  rcases stripLine_cases hfeed k with ⟨hstrip, -, hcode⟩ | ⟨u, v, rfl, hcode, -, hstrip⟩
  · rw [hstrip]
    exact .kept hcode
  · rw [hstrip]
    exact .cut v hcode

theorem newline_not_mem_stripLine (hfeed : '\n' ∉ line) (k : Carry) : '\n' ∉ stripLine k line := by
  rcases stripLine_cases hfeed k with ⟨hstrip, -, -⟩ | ⟨u, v, rfl, -, -, hstrip⟩
  · rwa [hstrip]
  · obtain ⟨g, -, hu⟩ := exists_trimEnd_append u
    rw [hstrip]
    intro hmem
    refine hfeed (List.mem_append_left _ ?_)
    rw [hu]
    exact List.mem_append_left g hmem

/-- A line feed stays behind its line. -/
theorem stripLine_newline (hfeed : '\n' ∉ line) (k : Carry) :
    stripLine k (line ++ ['\n']) = stripLine k line ++ ['\n'] := by
  rcases stripLine_cases hfeed k with ⟨hstrip, hroles, -⟩ | ⟨u, v, rfl, hcode, hroles, hstrip⟩
  · rw [hstrip]
    refine stripLine_of_forall fun m hm hrole => ?_
    rw [marks_append_of_apart (.of_head rfl line [])] at hm
    rcases List.mem_append.1 hm with hm | hm
    · exact hroles m hm hrole
    · rw [marks, marks, List.mem_singleton] at hm
      rw [hm] at hrole
      exact absurd (State.eq_slash_of_role hrole).1 (by decide)
  · have hline : u ++ '/' :: '/' :: v ++ ['\n'] = u ++ '/' :: '/' :: (v ++ ['\n']) := by simp
    have hlast : (u ++ '/' :: '/' :: (v ++ ['\n'])).getLast? = some '\n' := by
      rw [← hline, List.getLast?_concat]
    rw [hline, stripLine_cut hcode hroles, if_pos hlast, hstrip]

theorem Carry.after_newline (k : Carry) (line : Text) : k.after (line ++ ['\n']) = k.after line := by
  rw [Carry.after, State.after_append_of_apart (.of_head rfl line []), State.after, State.after,
    carry_step_blank (by decide)]
  rfl

theorem carry_after_slashes (hcode : (k.state.after (some '/') u).mode = .code) (hv : '\n' ∉ v) :
    k.after (u ++ '/' :: '/' :: v) = .code := by
  rw [Carry.after, State.after_append]
  exact congrArg Mode.carry (mode_after_slashes hcode hv none)

/-- A line comment shows no code. -/
theorem charsFrom_slashes (hcode : (k.state.after (some '/') u).mode = .code) (hv : '\n' ∉ v) :
    charsFrom k (u ++ '/' :: '/' :: v) = (marks k.state 0 (some '/') u).filterMap Mark.codeChar? := by
  have hnone : (k.state.after (some '/') u).code (0 + size u) ('/' :: '/' :: v) = [] := by
    rw [code_slash_slash hcode]
    exact code_lineComment_eq_nil_iff.2 hv
  rw [charsFrom, marks_append, List.filterMap_append]
  exact (congrArg _ hnone).trans (List.append_nil _)

/-- **A line without its comment** reads as the line: its brackets nest as deep, it carries the same
on, and it has no comment any more. -/
theorem stripLine_spec (hfeed : '\n' ∉ line) (k : Carry) :
    bracketDelta k (stripLine k line) = bracketDelta k line ∧
      k.after (stripLine k line) = k.after line ∧
      stripLine k (stripLine k line) = stripLine k line := by
  rcases stripLine_cases hfeed k with ⟨hstrip, -, -⟩ | ⟨u, v, rfl, hcode, hroles, hstrip⟩
  · simp only [hstrip, and_self]
  · have hv : '\n' ∉ v := fun h => hfeed (by simp [h])
    obtain ⟨g, hg, hcarry, hmarks⟩ := exists_marks_trimEnd hcode
    rw [hstrip]
    refine ⟨?_, ?_, ?_⟩
    · rw [bracketDelta, bracketDelta, charsFrom_slashes hcode hv, hmarks, List.filterMap_append,
        totalWeight_append, totalWeight_blank hg, Int.add_zero]
      rfl
    · rw [carry_after_slashes hcode hv]
      exact hcarry
    · refine stripLine_of_forall fun m hm => hroles m ?_
      rw [hmarks]
      exact List.mem_append_left _ hm

end

/-! ## Texts -/

/-- Stripping a text strips each of its lines. -/
theorem lined_stripLines {t : Text} {ls : List Text} (h : Lined t ls) (k : Carry) :
    Lined (stripLines k (fullLines t)) (stripEach k ls) := by
  induction h generalizing k with
  | last hfeed =>
    rw [stripLines_line hfeed]
    exact .last (newline_not_mem_stripLine hfeed k)
  | @cons line t rest hfeed _ ih =>
    rw [fullLines_append_newline hfeed, stripLines, stripLine_newline hfeed, k.after_newline,
      List.append_assoc]
    exact .cons (newline_not_mem_stripLine hfeed k) (ih (k.after line))

theorem strippedLines_stripEach {t : Text} {ls : List Text} (h : Lined t ls) (k : Carry) :
    StrippedLines k ls (stripEach k ls) := by
  induction h generalizing k with
  | last hfeed => exact .cons (strippedLine_stripLine hfeed k) (.nil _)
  | cons hfeed _ ih => exact .cons (strippedLine_stripLine hfeed k) (ih _)

theorem readings_stripEach {t : Text} {ls : List Text} (h : Lined t ls) (k : Carry) :
    readings k (stripEach k ls) = readings k ls := by
  induction h generalizing k with
  | last hfeed =>
    obtain ⟨hdelta, hcarry, -⟩ := stripLine_spec hfeed k
    simp only [stripEach, readings, hdelta, hcarry]
  | cons hfeed _ ih =>
    obtain ⟨hdelta, hcarry, -⟩ := stripLine_spec hfeed k
    rw [stripEach, readings, readings, hdelta, hcarry, ih]

theorem stripEach_stripEach {t : Text} {ls : List Text} (h : Lined t ls) (k : Carry) :
    stripEach k (stripEach k ls) = stripEach k ls := by
  induction h generalizing k with
  | last hfeed =>
    obtain ⟨-, -, hstrip⟩ := stripLine_spec hfeed k
    simp only [stripEach, hstrip]
  | cons hfeed _ ih =>
    obtain ⟨-, hcarry, hstrip⟩ := stripLine_spec hfeed k
    rw [stripEach, stripEach, hstrip, hcarry, ih]

theorem length_stripEach (k : Carry) (ls : List Text) : (stripEach k ls).length = ls.length := by
  induction ls generalizing k with
  | nil => rfl
  | cons line rest ih => rw [stripEach, List.length_cons, List.length_cons, ih]

/-- **Texts without their line comments**: stripping keeps every line feed, leaves of each line all of
it or what stands before two slashes read in code, changes nothing where it is done again, and keeps
how deep the brackets of each line nest and what each line carries on. -/
theorem stripComments_lines (t : Text) :
    (stripComments t).count '\n' = t.count '\n' ∧
      StrippedLines .code (t.splitOn '\n') ((stripComments t).splitOn '\n') ∧
      stripComments (stripComments t) = stripComments t ∧
      readings .code ((stripComments t).splitOn '\n') = readings .code (t.splitOn '\n') := by
  have hlines : Lined t (t.splitOn '\n') := lined_splitOn t
  have hstrip : Lined (stripComments t) (stripEach .code (t.splitOn '\n')) :=
    lined_stripLines hlines .code
  have hagain : Lined (stripComments (stripComments t)) (stripEach .code (t.splitOn '\n')) := by
    have h := lined_stripLines hstrip .code
    rwa [stripEach_stripEach hlines] at h
  refine ⟨?_, ?_, hagain.unique hstrip, ?_⟩
  · have hlength := hstrip.length_eq
    rw [length_stripEach, hlines.length_eq] at hlength
    omega
  · rw [hstrip.splitOn_eq]
    exact strippedLines_stripEach hlines .code
  · rw [hstrip.splitOn_eq]
    exact readings_stripEach hlines .code

/-- A regular expression and a template keep their slashes, and the blanks before a comment go. -/
example : stripComments "a = /[/]/; // b\n`// $c\n//` // d\n" = "a = /[/]/;\n`// $c\n//`\n".toList := by
  decide

end Ambient.Code
