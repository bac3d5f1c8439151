/-
Lines read one by one, and the text they make up read at once.

A line starts in the mode that the line feed before it leaves, unless a backslash takes that line feed
into a string (`mode_step_newline`). What a reader of single lines does not know is the last sign of
the line before, and that counts only for a slash that comes before all signs of its own line
(`marks_of_unseen`). Where neither happens, both readers see the same code, so brackets nest alike and
the same is carried on (`readings_splitOn`).
-/
import Ambient.Proofs.Code.Items
import Ambient.Proofs.Text.Lines

namespace Ambient.Code

open Text (Lined isBlank lined_splitOn size)

/-! ## Line by line -/

/-- What lines give when they are read one by one: for each, how much deeper the brackets nest behind
it than before it, and what the next line starts in. -/
def readings (k : Carry) : List Text → List (Int × Carry)
  | [] => []
  | line :: rest => (bracketDelta k line, k.after line) :: readings (k.after line) rest

/-- How much deeper the brackets nest behind all lines than before them. -/
def totalDelta : List (Int × Carry) → Int
  | [] => 0
  | r :: rs => r.1 + totalDelta rs

/-- The code of lines that are read one by one, where it stands in a text that starts at byte `offset`
and has a line feed between each two lines. -/
def linesCode (k : Carry) (offset : Nat) : List Text → List CodeChar
  | [] => []
  | line :: rest =>
    (charsFrom k line).map (fun x => (offset + x.1, x.2)) ++
      linesCode (k.after line) (offset + size line + 1) rest

/-- Whether a slash opens a comment when `next` follows it. -/
def opensComment (next : Option Char) : Bool :=
  next == some '/' || next == some '*'

/-- The first character that is read in code, blanks and the slashes of comments apart. It is code
itself, or it opens a string or a regular expression. -/
def State.firstSign? (s : State) : Text → Option Char
  | [] => none
  | c :: t =>
    if s.mode = .code ∧ isBlank c = false ∧ ¬ (c = '/' ∧ opensComment t.head?) then some c
    else (s.step c t.head?).2.firstSign? t

/-- The line ends in a string with a backslash, which takes the line feed behind it into the string. -/
def EscapesFeed (k : Carry) (line : Text) : Prop :=
  (k.state.after none line).mode = .escaped '\'' ∨ (k.state.after none line).mode = .escaped '"'

instance (k : Carry) (line : Text) : Decidable (EscapesFeed k line) :=
  inferInstanceAs (Decidable (_ ∨ _))

/-- Lines of which none but the last escapes its line feed, and none but the first has a slash that
opens no comment for its first sign. -/
inductive Steady : Carry → List Text → Prop where
  | last (k : Carry) (line : Text) : Steady k [line]
  | cons {k : Carry} {line next : Text} {rest : List Text} (hfeed : ¬ EscapesFeed k line)
      (hslash : (k.after line).state.firstSign? next ≠ some '/')
      (hrest : Steady (k.after line) (next :: rest)) : Steady k (line :: next :: rest)

/-! ## Two readers of one line -/

section

variable {s s' : State} {c : Char} {next : Option Char} {t : Text}

/-- A sign other than a slash is read alike, and then both readers know the last sign. -/
theorem step_eq_of_sign (hs : s.mode = .code) (hs' : s'.mode = .code) (hblank : isBlank c = false)
    (hslash : c ≠ '/') : s.step c next = s'.step c next := by
  simp [State.step, State.readCode, hs, hs', hblank, hslash]

theorem readCode_of_no_sign (hlast : s'.last = none)
    (hsign : isBlank c = true ∨ (c = '/' ∧ opensComment next = true)) :
    (s.readCode c next).1 = (s'.readCode c next).1 ∧
      (s.readCode c next).2.mode = (s'.readCode c next).2.mode ∧
      (s'.readCode c next).2.last = none := by
  rcases hsign with hblank | ⟨rfl, hopens⟩
  · simp only [State.readCode_blank hblank, hlast, and_self]
  · have hnext : next = some '/' ∨ next = some '*' := by simpa [opensComment] using hopens
    rcases hnext with rfl | rfl <;> simp [State.readCode, hlast]

/-- What is no sign of code is read alike, and does not become the last sign. -/
theorem step_of_no_sign (hmode : s.mode = s'.mode) (hlast : s'.last = none)
    (hsign : s'.mode = .code → isBlank c = true ∨ (c = '/' ∧ opensComment next = true)) :
    (s.step c next).1 = (s'.step c next).1 ∧
      (s.step c next).2.mode = (s'.step c next).2.mode ∧ (s'.step c next).2.last = none := by
  have hfeed : c = '\n' → (s.readCode c next).1 = (s'.readCode c next).1 ∧
      (s.readCode c next).2.mode = (s'.readCode c next).2.mode ∧
      (s'.readCode c next).2.last = none := by
    rintro rfl
    exact readCode_of_no_sign hlast (.inl (by decide))
  unfold State.step
  rw [hmode]
  cases hmode' : s'.mode with
  | code => exact readCode_of_no_sign hlast (hsign hmode')
  | escaped | commentOpening | commentClosing => exact ⟨rfl, rfl, hlast⟩
  | quoted mark =>
    dsimp only
    split
    · exact ⟨rfl, rfl, hlast⟩
    · split
      · exact ⟨rfl, rfl, hlast⟩
      · exact ⟨rfl, hmode, hlast⟩
  | comment =>
    dsimp only
    split
    · exact ⟨rfl, rfl, hlast⟩
    · exact ⟨rfl, hmode, hlast⟩
  | lineComment =>
    dsimp only
    split
    · rename_i hc
      exact hfeed hc
    · exact ⟨rfl, hmode, hlast⟩
  | regex inClass =>
    dsimp only
    split
    · rename_i hc
      exact hfeed hc
    · repeat' split
      all_goals first | exact ⟨rfl, rfl, hlast⟩ | exact ⟨rfl, hmode, hlast⟩
  | regexEscape inClass =>
    dsimp only
    split
    · rename_i hc
      exact hfeed hc
    · exact ⟨rfl, rfl, hlast⟩

/-- **A reader that does not know what came before** reads as one that does, unless the first sign is a
slash. -/
theorem marks_of_unseen (hmode : s.mode = s'.mode) (hlast : s'.last = none)
    (hslash : s'.firstSign? t ≠ some '/') (offset : Nat) :
    marks s offset none t = marks s' offset none t ∧
      (s.after none t).mode = (s'.after none t).mode := by
  induction t generalizing s s' offset with
  | nil => exact ⟨rfl, hmode⟩
  | cons c t ih =>
    rw [State.firstSign?] at hslash
    simp only [marks, State.after, Option.or_none]
    split at hslash
    · rename_i hsign
      have hc : c ≠ '/' := fun h => hslash (congrArg some h)
      rw [step_eq_of_sign (hmode.trans hsign.1) hsign.1 hsign.2.1 hc]
      exact ⟨rfl, rfl⟩
    · rename_i hsign
      have hsign : s'.mode = .code → isBlank c = true ∨ (c = '/' ∧ opensComment t.head? = true) := by
        intro hcode
        by_cases hblank : isBlank c = true
        · exact .inl hblank
        · refine .inr (Decidable.byContradiction fun hopens => hsign ⟨hcode, ?_, hopens⟩)
          simpa using hblank
      obtain ⟨hrole, hmode', hlast'⟩ := step_of_no_sign hmode hlast hsign
      obtain ⟨hmarks, hafter⟩ := ih hmode' hlast' hslash (offset + c.utf8Size)
      rw [hrole, hmarks]
      exact ⟨rfl, hafter⟩

/-- Behind a line feed, the next line starts as its own reader starts it. -/
theorem mode_step_newline (hquoted : s.mode.Quoted)
    (hescape : ¬ (s.mode = .escaped '\'' ∨ s.mode = .escaped '"')) :
    (s.step '\n' next).2.mode = s.mode.carry.state.mode := by
  cases hmode : s.mode with
  | quoted mark =>
    by_cases hmark : mark = '`'
    · simp [State.step, hmode, Mode.carry, Carry.state, hmark]
    · simp [State.step, hmode, Mode.carry, Carry.state, hmark]
  | escaped mark =>
    rw [hmode] at hquoted hescape
    have hmark : mark = '`' := by
      rcases hquoted with rfl | rfl | rfl
      · exact absurd (.inl rfl) hescape
      · exact absurd (.inr rfl) hescape
      · rfl
    simp [State.step, hmode, Mode.carry, Carry.state, hmark]
  | code | comment | commentOpening | commentClosing | lineComment | regex | regexEscape =>
    simp [State.step, hmode, State.readCode_newline, Mode.carry, Carry.state]

end

/-! ## The whole text -/

theorem Carry.last_state (k : Carry) : k.state.last = none := by
  cases k <;> rfl

theorem Carry.quoted_state (k : Carry) : k.state.mode.Quoted := by
  cases k with
  | template => exact .inr (.inr rfl)
  | code | comment => trivial

theorem totalWeight_shift (d : Nat) (cs : List CodeChar) :
    totalWeight (cs.map fun x => (d + x.1, x.2)) = totalWeight cs := by
  induction cs with
  | nil => rfl
  | cons x cs ih => rw [List.map_cons, totalWeight, totalWeight, ih]

/-- A line feed is no bracket. -/
theorem totalWeight_filter (cs : List CodeChar) :
    totalWeight (cs.filter fun x => x.2 != '\n') = totalWeight cs := by
  induction cs with
  | nil => rfl
  | cons x cs ih =>
    by_cases hx : x.2 = '\n'
    · have hweight : weight '\n' = 0 := rfl
      simp [totalWeight, hx, hweight, ih]
    · simp [totalWeight, hx, ih]

theorem totalWeight_linesCode (k : Carry) (offset : Nat) (ls : List Text) :
    totalWeight (linesCode k offset ls) = totalDelta (readings k ls) := by
  induction ls generalizing k offset with
  | nil => rfl
  | cons line rest ih =>
    rw [linesCode, totalWeight_append, totalWeight_shift, ih, readings, totalDelta, bracketDelta]

theorem filter_code_line {line : Text} (hfeed : '\n' ∉ line) (s : State) (offset : Nat) :
    (s.code offset line).filter (fun x => x.2 != '\n') = s.code offset line := by
  rw [List.filter_eq_self]
  rintro ⟨i, c⟩ hx
  obtain ⟨u, v, rfl, -⟩ := exists_of_mem_code hx
  have hc : c ≠ '\n' := fun h => hfeed (by simp [h])
  simpa using hc

theorem filter_code_newline (s : State) (offset : Nat) (t : Text) :
    (s.code offset ('\n' :: t)).filter (fun x => x.2 != '\n') =
      ((s.step '\n' none).2.code (offset + 1) t).filter fun x => x.2 != '\n' := by
  have hsize : '\n'.utf8Size = 1 := by decide
  rw [State.code, marks, State.step_newline, hsize, List.filterMap_cons]
  cases hrole : (s.step '\n' none).1 <;> rfl

/-- A line in a text, and the same line read by itself. -/
theorem code_line {k : Carry} {s : State} {line : Text} (hmode : s.mode = k.state.mode)
    (hfirst : s = k.state ∨ k.state.firstSign? line ≠ some '/') (offset : Nat) :
    s.code offset line = (charsFrom k line).map (fun x => (offset + x.1, x.2)) ∧
      (s.after none line).mode = (k.state.after none line).mode := by
  have hshift := k.state.code_shift offset 0 line
  rcases hfirst with rfl | hslash
  · exact ⟨hshift, rfl⟩
  · obtain ⟨hmarks, hafter⟩ := marks_of_unseen hmode k.last_state hslash offset
    rw [State.code, hmarks]
    exact ⟨hshift, hafter⟩

/-- Read at once or line by line, the same characters of a text are code, and the same is carried
on. -/
theorem Steady.code_eq {k : Carry} {t : Text} {ls : List Text} (h : Steady k ls) (hlines : Lined t ls)
    {s : State} (hmode : s.mode = k.state.mode)
    (hfirst : s = k.state ∨ ∀ line, ls.head? = some line → k.state.firstSign? line ≠ some '/')
    (offset : Nat) :
    (s.code offset t).filter (fun x => x.2 != '\n') = linesCode k offset ls ∧
      (s.after none t).mode.carry = ls.foldl Carry.after k := by
  induction hlines generalizing k s offset with
  | @last line hfeed =>
    obtain ⟨hcode, hafter⟩ := code_line hmode (hfirst.imp_right fun h => h line rfl) offset
    rw [filter_code_line hfeed, hcode, hafter, linesCode, linesCode, List.append_nil]
    exact ⟨rfl, rfl⟩
  | @cons line t rest hfeed ht ih =>
    obtain ⟨hcode, hafter⟩ := code_line hmode (hfirst.imp_right fun h => h line rfl) offset
    have hapart : Apart line ('\n' :: t) := .of_head rfl line t
    cases h with
    | last => cases ht
    | @cons _ _ next rest hescape hslash hrest =>
      -- the line feed leaves the mode that the reader of the next line starts in
      have hquoted : (s.after none line).mode.Quoted := by
        rw [hafter]
        exact State.quoted_after k.quoted_state
      have hnext : ((s.after none line).step '\n' none).2.mode = (k.after line).state.mode := by
        rw [mode_step_newline hquoted (by rwa [hafter]), hafter]
        rfl
      have hunseen : ∀ l, (next :: rest).head? = some l →
          (k.after line).state.firstSign? l ≠ some '/' := by
        intro l hl
        cases hl
        exact hslash
      obtain ⟨hcodes, hcarry⟩ := ih hrest hnext (.inr hunseen) (offset + size line + 1)
      constructor
      · rw [State.code_append hapart, List.filter_append, filter_code_line hfeed, hcode,
          filter_code_newline, hcodes]
        rfl
      · rw [State.after_append_of_apart hapart, State.after, State.step_newline, hcarry]
        rfl

/-- **Lines and their text**: where no line feed is escaped in a string and no line starts with a slash
that is no comment, lines that are read one by one nest their brackets as the text does that they make
up, carry the same on, and show the same code. -/
theorem readings_splitOn (k : Carry) (t : Text) (h : Steady k (t.splitOn '\n')) :
    totalDelta (readings k (t.splitOn '\n')) = bracketDelta k t ∧
      (t.splitOn '\n').foldl Carry.after k = k.after t ∧
      linesCode k 0 (t.splitOn '\n') = (charsFrom k t).filter fun x => x.2 != '\n' := by
  obtain ⟨hcode, hcarry⟩ := h.code_eq (lined_splitOn t) rfl (.inl rfl) 0
  refine ⟨?_, hcarry.symm, hcode.symm⟩
  calc totalDelta (readings k (t.splitOn '\n'))
      = totalWeight (linesCode k 0 (t.splitOn '\n')) := (totalWeight_linesCode k 0 _).symm
    _ = totalWeight ((charsFrom k t).filter fun x => x.2 != '\n') := congrArg totalWeight hcode.symm
    _ = bracketDelta k t := totalWeight_filter _

/-- A template over two lines, a comment and a regular expression, with a bracket in each of them. -/
theorem readings_splitOn_hidden_brackets :
    let t : Text := "f(`\x7b\n\x7d` + a / 2, [\n/* ) */ '\x7d', /[(]/\n// \x7b"
    Steady .code (t.splitOn '\n') ∧
      totalDelta (readings .code (t.splitOn '\n')) = 2 ∧ bracketDelta .code t = 2 ∧
      (t.splitOn '\n').foldl Carry.after .code = Carry.code.after t ∧
      linesCode .code 0 (t.splitOn '\n') = (charsFrom .code t).filter fun x => x.2 != '\n' := by
  intro t
  have hlines : t.splitOn '\n' = ["f(`\x7b".toList, "\x7d` + a / 2, [".toList,
      "/* ) */ '\x7d', /[(]/".toList, "// \x7b".toList] := by decide
  have hsteady : Steady .code (t.splitOn '\n') := by
    rw [hlines]
    exact .cons (by decide) (by decide) (.cons (by decide) (by decide)
      (.cons (by decide) (by decide) (.last _ _)))
  obtain ⟨hsum, hcarry, hcode⟩ := readings_splitOn .code t hsteady
  have hdelta : bracketDelta .code t = 2 := by decide
  exact ⟨hsteady, hsum.trans hdelta, hdelta, hcarry, hcode⟩

/-- A slash before all signs of its line divides in the text, but not on its line. -/
example : totalDelta (readings .code ["a".toList, "/ \x7b".toList]) = 0 ∧
    bracketDelta .code "a\n/ \x7b" = 1 := by
  decide

/-- The line feed behind a backslash ends the string of its line, but not the one in the text. -/
example : totalDelta (readings .code ["'\\".toList, "\x7b'".toList]) = 1 ∧
    bracketDelta .code "'\\\n\x7b'" = 0 := by
  decide

end Ambient.Code
