/-
Regular expressions where an operand is due.

A regular expression is hidden from its first slash to its last (`Regex.hides`), whatever brackets,
quotes and slashes stand in it. Behind it the reader is not where it is behind a numeral, for the
last character before is another one, but it reads on alike (`Alike`): neither is followed by an
operand. So a text with a regular expression nests and carries as the text with a numeral in its
place (`totalWeight_regex`, `mode_after_regex`).
-/
import Ambient.Proofs.Code.Plain

namespace Ambient.Code

open Text (Blank isBlank size trimEnd)

/-! ## Hidden texts -/

/-- Read from `s` on, all of a text is hidden, and `s'` is the state behind it, whatever follows. -/
structure Hides (s : State) (t : Text) (s' : State) : Prop where
  role : ∀ {offset : Nat} {look : Option Char} {m : Mark},
    m ∈ marks s offset look t → m.role = .hidden
  after : ∀ look : Option Char, s.after look t = s'

namespace Hides

variable {s s₁ s' : State} {c : Char} {t u : Text}

theorem nil : Hides s [] s where
  role h := by cases h
  after _ := rfl

theorem cons (hstep : ∀ look, s.step c (t.head?.or look) = (.hidden, s₁)) (ht : Hides s₁ t s') :
    Hides s (c :: t) s' where
  role {offset look m} h := by
    rw [marks, hstep] at h
    rcases List.mem_cons.1 h with rfl | h
    · rfl
    · exact ht.role h
  after look := by
    rw [State.after, hstep]
    exact ht.after look

theorem append (ht : Hides s t s₁) (hu : Hides s₁ u s') : Hides s (t ++ u) s' where
  role {offset look m} h := by
    rw [marks_append, ht.after] at h
    rcases List.mem_append.1 h with h | h
    · exact ht.role h
    · exact hu.role h
  after look := by
    rw [State.after_append, ht.after]
    exact hu.after look

theorem filterMap_marks (h : Hides s t s') (offset : Nat) (look : Option Char) :
    (marks s offset look t).filterMap Mark.codeChar? = [] := by
  refine List.filterMap_eq_nil_iff.2 fun m hm => ?_
  simp [Mark.codeChar?, h.role hm]

end Hides

/-! ## Regular expressions -/

/-- What may stand between the brackets of a character class. -/
inductive ClassBody : Text → Prop where
  | nil : ClassBody []
  | char {c : Char} {t : Text} (hc : c ∉ [']', '\\', '\n']) (ht : ClassBody t) : ClassBody (c :: t)
  | escape {c : Char} {t : Text} (hc : c ≠ '\n') (ht : ClassBody t) : ClassBody ('\\' :: c :: t)

/-- What may stand between the slashes of a regular expression. A slash in it is escaped or in a
class. -/
inductive RegexBody : Text → Prop where
  | nil : RegexBody []
  | char {c : Char} {t : Text} (hc : c ∉ ['/', '[', '\\', '\n']) (ht : RegexBody t) :
      RegexBody (c :: t)
  | escape {c : Char} {t : Text} (hc : c ≠ '\n') (ht : RegexBody t) : RegexBody ('\\' :: c :: t)
  | charClass {inner t : Text} (hinner : ClassBody inner) (ht : RegexBody t) :
      RegexBody ('[' :: (inner ++ ']' :: t))

/-- A regular expression. Without a body, or with a star in front, it would open a comment. -/
structure Regex where
  body : Text
  isBody : RegexBody body
  ne_nil : body ≠ []
  not_star : body.head? ≠ some '*'

def Regex.text (r : Regex) : Text :=
  '/' :: (r.body ++ ['/'])

theorem ClassBody.newline_not_mem {inner : Text} (h : ClassBody inner) : '\n' ∉ inner := by
  induction h with
  | nil => simp
  | char hc _ ih =>
    simp only [List.mem_cons, List.not_mem_nil, or_false, not_or] at hc
    simp [ih, Ne.symm hc.2.2]
  | escape hc _ ih => simp [ih, Ne.symm hc]

theorem RegexBody.newline_not_mem {body : Text} (h : RegexBody body) : '\n' ∉ body := by
  induction h with
  | nil => simp
  | char hc _ ih =>
    simp only [List.mem_cons, List.not_mem_nil, or_false, not_or] at hc
    simp [ih, Ne.symm hc.2.2.2]
  | escape hc _ ih => simp [ih, Ne.symm hc]
  | charClass hinner _ ih => simp [ih, hinner.newline_not_mem]

theorem Regex.newline_not_mem (r : Regex) : '\n' ∉ r.text := by
  simp [text, r.isBody.newline_not_mem]

theorem ClassBody.hides {inner : Text} (h : ClassBody inner) (last : Option Char) :
    Hides ⟨.regex true, last⟩ (inner ++ [']']) ⟨.regex false, last⟩ := by
  induction h with
  | nil => exact .cons (fun _ => by simp [State.step]) .nil
  | char hc _ ih =>
    simp only [List.mem_cons, List.not_mem_nil, or_false, not_or] at hc
    exact .cons (fun _ => by simp [State.step, hc]) ih
  | @escape c t hc _ ih =>
    have hescape : Hides ⟨.regexEscape true, last⟩ (c :: (t ++ [']'])) ⟨.regex false, last⟩ :=
      .cons (fun _ => by simp [State.step, hc]) ih
    exact .cons (fun _ => by simp [State.step]) hescape

theorem RegexBody.hides {body : Text} (h : RegexBody body) (last : Option Char) :
    Hides ⟨.regex false, last⟩ (body ++ ['/']) ⟨.code, last⟩ := by
  induction h with
  | nil => exact .cons (fun _ => by simp [State.step]) .nil
  | char hc _ ih =>
    simp only [List.mem_cons, List.not_mem_nil, or_false, not_or] at hc
    exact .cons (fun _ => by simp [State.step, hc]) ih
  | @escape c t hc _ ih =>
    have hescape : Hides ⟨.regexEscape false, last⟩ (c :: (t ++ ['/'])) ⟨.code, last⟩ :=
      .cons (fun _ => by simp [State.step, hc]) ih
    exact .cons (fun _ => by simp [State.step]) hescape
  | @charClass inner t hinner _ ih =>
    have hclass : Hides ⟨.regex true, last⟩ (inner ++ ']' :: (t ++ ['/'])) ⟨.code, last⟩ := by
      simpa using (hinner.hides last).append ih
    rw [List.cons_append, List.append_assoc]
    exact .cons (fun _ => by simp [State.step]) hclass

/-- No comment opens where a regular expression does. -/
theorem Regex.exists_body (r : Regex) : ∃ c t, r.body = c :: t ∧ c ≠ '/' ∧ c ≠ '*' := by
  obtain ⟨c, t, hbody⟩ := List.exists_cons_of_ne_nil r.ne_nil
  refine ⟨c, t, hbody, ?_, fun h => r.not_star (by simp [hbody, h])⟩
  have hisBody := r.isBody
  rw [hbody] at hisBody
  cases hisBody with
  | char hc _ => exact fun h => hc (by simp [h])
  | escape => decide
  | charClass => decide

/-- A regular expression is hidden where a slash opens one. -/
theorem Regex.hides (r : Regex) {s : State} (hs : s.mode = .code)
    (hoperand : s.expectsOperand = true) : Hides s r.text ⟨.code, some '/'⟩ := by
  obtain ⟨c, t, hbody, hslash, hstar⟩ := r.exists_body
  refine .cons (fun look => ?_) (r.isBody.hides (some '/'))
  simp [hbody, State.step, hs, State.readCode, hslash, hstar, hoperand]

/-! ## States that read alike -/

/-- Two states that differ at most in the last character, where both or neither wait for an
operand. -/
structure Alike (s s' : State) : Prop where
  mode : s.mode = s'.mode
  operand : s.expectsOperand = s'.expectsOperand

namespace Alike

variable {s s' : State} {c : Char} {next look : Option Char} {t : Text}

theorem readCode (h : Alike s s') (c : Char) (next : Option Char) :
    (s.readCode c next).1 = (s'.readCode c next).1 ∧
      Alike (s.readCode c next).2 (s'.readCode c next).2 := by
  unfold State.readCode
  split
  · exact ⟨rfl, rfl, rfl⟩
  · split
    · exact ⟨rfl, rfl, h.operand⟩
    · split
      · exact ⟨rfl, rfl, h.operand⟩
      · rw [h.operand]
        split
        · exact ⟨rfl, rfl, rfl⟩
        · refine ⟨rfl, rfl, ?_⟩
          by_cases hblank : isBlank c = true
          · simpa [State.expectsOperand, hblank] using h.operand
          · simp [State.expectsOperand, hblank]

theorem step (h : Alike s s') (c : Char) (next : Option Char) :
    (s.step c next).1 = (s'.step c next).1 ∧ Alike (s.step c next).2 (s'.step c next).2 := by
  have hread := h.readCode c next
  have hmode := h.mode
  have hkeep : ∀ mode, Alike ⟨mode, s.last⟩ ⟨mode, s'.last⟩ := fun mode => ⟨rfl, h.operand⟩
  unfold State.step
  rw [← hmode]
  cases s.mode with
  | code => exact hread
  | quoted mark =>
    dsimp only
    split
    · exact ⟨rfl, hkeep _⟩
    · split
      · exact ⟨rfl, hkeep _⟩
      · exact ⟨rfl, h⟩
  | escaped mark => exact ⟨rfl, hkeep _⟩
  | comment =>
    dsimp only
    split
    · exact ⟨rfl, hkeep _⟩
    · exact ⟨rfl, h⟩
  | commentOpening => exact ⟨rfl, hkeep _⟩
  | commentClosing => exact ⟨rfl, hkeep _⟩
  | lineComment =>
    dsimp only
    split
    · exact hread
    · exact ⟨rfl, h⟩
  | regex inClass =>
    dsimp only
    split
    · exact hread
    · repeat' split
      all_goals first | exact ⟨rfl, hkeep _⟩ | exact ⟨rfl, h⟩
  | regexEscape inClass =>
    dsimp only
    split
    · exact hread
    · exact ⟨rfl, hkeep _⟩

theorem after (h : Alike s s') (look : Option Char) (t : Text) :
    Alike (s.after look t) (s'.after look t) := by
  induction t generalizing s s' with
  | nil => exact h
  | cons c t ih => exact ih (h.step c _).2

/-- The same characters are code. Only their offsets depend on where the text starts. -/
theorem totalWeight_marks (h : Alike s s') (offset offset' : Nat) (look : Option Char) (t : Text) :
    totalWeight ((marks s offset look t).filterMap Mark.codeChar?) =
      totalWeight ((marks s' offset' look t).filterMap Mark.codeChar?) := by
  induction t generalizing s s' offset offset' with
  | nil => rfl
  | cons c t ih =>
    obtain ⟨hrole, halike⟩ := h.step c (t.head?.or look)
    have hrest := ih halike (offset + c.utf8Size) (offset' + c.utf8Size)
    simp only [marks, List.filterMap_cons, Mark.codeChar?, ← hrole]
    cases (s.step c (t.head?.or look)).1 with
    | code => exact congrArg (weight c + ·) hrest
    | lineComment => exact hrest
    | hidden => exact hrest

end Alike

theorem totalWeight_append (cs ds : List CodeChar) :
    totalWeight (cs ++ ds) = totalWeight cs + totalWeight ds := by
  induction cs with
  | nil => simp [totalWeight]
  | cons x cs ih =>
    simp only [List.cons_append, totalWeight, ih]
    omega

/-! ## Lines up to their comment -/

/-- A text up to its first line comment. -/
def beforeComment (s : State) (look : Option Char) : Text → Text
  | [] => []
  | c :: t =>
    let r := s.step c (t.head?.or look)
    if r.1 = .lineComment then [] else c :: beforeComment r.2 look t

theorem Alike.beforeComment_eq {s s' : State} (h : Alike s s') (look : Option Char) (t : Text) :
    beforeComment s look t = beforeComment s' look t := by
  induction t generalizing s s' with
  | nil => rfl
  | cons c t ih =>
    obtain ⟨hrole, halike⟩ := h.step c (t.head?.or look)
    simp only [beforeComment, hrole, ih halike]

theorem beforeComment_append {s : State} {offset : Nat} {look : Option Char} {t u : Text}
    (h : ∀ m ∈ marks s offset (u.head?.or look) t, m.role ≠ .lineComment) :
    beforeComment s look (t ++ u) = t ++ beforeComment (s.after (u.head?.or look) t) look u := by
  induction t generalizing s offset with
  | nil => rfl
  | cons c t ih =>
    rw [marks, ← head?_append_or] at h
    obtain ⟨hrole, hrest⟩ := List.forall_mem_cons.1 h
    simp only [List.cons_append, beforeComment, State.after, ← head?_append_or, if_neg hrole]
    exact congrArg (c :: ·) (ih hrest)

/-- The line comment of a text is what `beforeComment` leaves out. -/
theorem takeBytes_lineComment {s : State} {offset : Nat} {look : Option Char} {t : Text} :
    match (marks s offset look t).find? (·.role == .lineComment) with
    | none => beforeComment s look t = t
    | some m => Text.takeBytes t (m.offset - offset) = beforeComment s look t := by
  induction t generalizing s offset with
  | nil => rfl
  | cons c t ih =>
    have hrest := @ih (s.step c (t.head?.or look)).2 (offset + c.utf8Size)
    simp only [marks, List.find?_cons, beforeComment]
    by_cases hrole : (s.step c (t.head?.or look)).1 = .lineComment
    · simp [hrole, Text.takeBytes_zero]
    · have hbeq : ((s.step c (t.head?.or look)).1 == Role.lineComment) = false := by
        simpa using hrole
      simp only [hbeq, if_neg hrole]
      cases hfind : (marks (s.step c (t.head?.or look)).2 (offset + c.utf8Size) look t).find?
          (·.role == .lineComment) with
      | none =>
        rw [hfind] at hrest
        exact congrArg (c :: ·) hrest
      | some m =>
        rw [hfind] at hrest
        have hoffset := (offset_mem_marks (List.mem_of_find?_eq_some hfind)).1
        simp only [Text.takeBytes]
        rw [if_pos (by omega), Nat.sub_sub]
        exact congrArg (c :: ·) hrest

theorem trimEnd_stripLine {k : Carry} {line : Text} (hfeed : '\n' ∉ line) :
    trimEnd (stripLine k line) = trimEnd (beforeComment k.state none line) := by
  have hlast : line.getLast? ≠ some '\n' := fun h => hfeed (List.mem_of_getLast? h)
  have hcut := @takeBytes_lineComment k.state 0 none line
  rw [stripLine, lineComment?]
  cases hfind : (marks k.state 0 none line).find? (·.role == .lineComment) with
  | none =>
    rw [hfind] at hcut
    rw [Option.map_none, hcut]
  | some m =>
    simp only [hfind, Nat.sub_zero] at hcut
    simp only [Option.map_some, if_neg hlast, List.append_nil, hcut, Text.trimEnd_trimEnd]

theorem stripLines_line {line : Text} (hfeed : '\n' ∉ line) (k : Carry) :
    stripLines k (Text.fullLines line) = stripLine k line := by
  cases line with
  | nil => rfl
  | cons c line =>
    have hlines := fullLines_append (List.cons_ne_nil c line) hfeed []
    simp only [Text.fullLines, List.append_nil, List.headD_nil, List.tail_nil] at hlines
    rw [Text.fullLines, hlines, stripLines, stripLines, List.append_nil]

theorem stripComments_line {line : Text} (hfeed : '\n' ∉ line) :
    stripComments line = stripLine .code line :=
  stripLines_line hfeed .code

theorem State.role_eq_hidden {s : State} {c : Char} (hs : s.mode ≠ .code) (hc : c ≠ '\n')
    (next : Option Char) : (s.step c next).1 = .hidden := by
  cases hmode : s.mode with
  | code => exact absurd hmode hs
  | escaped | commentOpening | commentClosing => simp [step, hmode]
  | lineComment | regexEscape => simp [step, hmode, hc]
  | quoted mark =>
    simp only [step, hmode]
    repeat' split
    all_goals rfl
  | comment =>
    simp only [step, hmode]
    split <;> rfl
  | regex inClass =>
    simp only [step, hmode, if_neg hc]
    repeat' split
    all_goals rfl

theorem State.mode_of_role_eq_lineComment {s : State} {c : Char} {next : Option Char}
    (hc : c ≠ '\n') (h : (s.step c next).1 = .lineComment) :
    (s.step c next).2.mode = .lineComment := by
  by_cases hs : s.mode = .code
  · simp only [step, hs, readCode] at h ⊢
    repeat' split at h
    all_goals simp_all
  · rw [role_eq_hidden hs hc] at h
    cases h

theorem mode_after_lineComment {s : State} (hs : s.mode = .lineComment) {t : Text}
    (hfeed : '\n' ∉ t) (look : Option Char) : (s.after look t).mode = .lineComment := by
  induction t generalizing s with
  | nil => exact hs
  | cons c t ih =>
    simp only [List.mem_cons, not_or] at hfeed
    refine ih ?_ hfeed.2
    simp [State.step, hs, Ne.symm hfeed.1]

/-- A line that ends in code has no comment. -/
theorem role_ne_lineComment_of_mode {s : State} {offset : Nat} {look : Option Char} {t : Text}
    (hfeed : '\n' ∉ t) (hmode : (s.after look t).mode ≠ .lineComment) {m : Mark}
    (hm : m ∈ marks s offset look t) : m.role ≠ .lineComment := by
  induction t generalizing s offset with
  | nil => cases hm
  | cons c t ih =>
    simp only [List.mem_cons, not_or] at hfeed
    rw [marks] at hm
    rcases List.mem_cons.1 hm with rfl | hm
    · intro hrole
      have hnext := State.mode_of_role_eq_lineComment (Ne.symm hfeed.1) hrole
      exact hmode (mode_after_lineComment hnext hfeed.2 look)
    · exact ih hfeed.2 hmode hm

/-! ## What stands before an operand -/

/-- The last character of a text that is no blank is `c`, and `c` is code. -/
def EndsInCode (t : Text) (c : Char) : Prop :=
  ∃ u g, t = u ++ c :: g ∧ Blank g ∧ isBlank c = false ∧ (size u, c) ∈ chars t

theorem plain_of_blank {g : Text} (hg : Blank g) : Plain g := by
  induction g with
  | nil => exact .nil
  | cons c g ih =>
    obtain ⟨hc, hg⟩ := List.forall_mem_cons.1 hg
    have hquote : ¬ IsQuote c := fun h => by simp [State.not_isBlank_of_isQuote h] at hc
    exact .char hquote (State.ne_of_isBlank hc (by decide)) (ih hg)

theorem State.after_blank {s : State} (hs : s.mode = .code) {g : Text} (hg : Blank g)
    (look : Option Char) : s.after look g = s := by
  induction g with
  | nil => rfl
  | cons c g ih =>
    obtain ⟨hc, hg⟩ := List.forall_mem_cons.1 hg
    have hquote : ¬ IsQuote c := fun h => by simp [not_isBlank_of_isQuote h] at hc
    have hstate : (⟨.code, s.last⟩ : State) = s := by rw [← hs]
    rw [after, step_plain hs hquote (ne_of_isBlank hc (by decide)), if_pos hc, hstate]
    exact ih hg

namespace EndsInCode

variable {t : Text} {c : Char}

theorem exists_split (h : EndsInCode t c) :
    ∃ u g, t = u ++ c :: g ∧ Blank g ∧ isBlank c = false ∧ ¬ IsQuote c ∧
      (State.after {} (some c) u).mode = .code := by
  obtain ⟨u, g, rfl, hg, hblank, hmem⟩ := h
  rw [mem_chars_append] at hmem
  have hmode : (State.after {} (some c) u).mode = .code := by
    refine Decidable.byContradiction fun hmode => ?_
    have hfeed : c ≠ '\n' := (State.ne_of_isBlank (by decide) hblank).symm
    rw [State.role_eq_hidden hmode hfeed] at hmem
    cases hmem
  refine ⟨u, g, rfl, hg, hblank, fun hquote => ?_, hmode⟩
  have hmark : c = '\'' ∨ c = '"' ∨ c = '`' := hquote
  simp [State.step, hmode, State.readCode, hmark] at hmem

/-- Whether the next slash opens a regular expression is decided by the last code character. -/
theorem after_eq (h : EndsInCode t c) (hslash : c ≠ '/') (look : Option Char) :
    State.after {} look t = ⟨.code, some c⟩ := by
  obtain ⟨u, g, rfl, hg, hblank, hquote, hmode⟩ := h.exists_split
  rw [State.after_append, List.head?_cons, Option.some_or, State.after,
    State.step_plain hmode hquote hslash, hblank]
  exact State.after_blank rfl hg look

/-- What follows does not change what is code. -/
theorem filterMap_marks (h : EndsInCode t c) (hslash : c ≠ '/') (look : Option Char) :
    (marks {} 0 look t).filterMap Mark.codeChar? = chars t := by
  obtain ⟨u, g, rfl, hg, -, hquote, hmode⟩ := h.exists_split
  have hplain : Plain (c :: g) := .char hquote hslash (plain_of_blank hg)
  rw [chars, charsFrom, marks_append, marks_append, List.filterMap_append, List.filterMap_append]
  exact congrArg (_ ++ ·) (hplain.code_eq hmode hmode _ look none)

theorem bracketDelta_append (h : EndsInCode t c) (hslash : c ≠ '/') (u : Text) :
    bracketDelta .code (t ++ u) =
      totalWeight (chars t) +
        totalWeight ((marks ⟨.code, some c⟩ (size t) none u).filterMap Mark.codeChar?) := by
  rw [bracketDelta, charsFrom, Carry.state, marks_append, List.filterMap_append, totalWeight_append,
    h.filterMap_marks hslash, h.after_eq hslash, Nat.zero_add]

theorem carry_append (h : EndsInCode t c) (hslash : c ≠ '/') (u : Text) :
    Carry.code.after (t ++ u) = (State.after ⟨.code, some c⟩ none u).mode.carry := by
  rw [Carry.after, Carry.state, State.after_append, h.after_eq hslash]

/-- The comment of a line that goes on behind code is in what follows. -/
theorem trimEnd_stripComments_append (h : EndsInCode t c) (hslash : c ≠ '/') {u : Text}
    (hfeed : '\n' ∉ t ++ u) :
    trimEnd (stripComments (t ++ u)) = trimEnd (t ++ beforeComment ⟨.code, some c⟩ none u) := by
  have hrole : ∀ m ∈ marks {} 0 (u.head?.or none) t, m.role ≠ .lineComment := by
    intro m hm
    refine role_ne_lineComment_of_mode (fun hmem => hfeed (List.mem_append_left u hmem)) ?_ hm
    rw [h.after_eq hslash]
    simp
  rw [stripComments_line hfeed, trimEnd_stripLine hfeed, Carry.state, beforeComment_append hrole,
    h.after_eq hslash]

end EndsInCode

/-! ## A regular expression in the place of a numeral -/

theorem not_slash_of_mem_regexLeaders : ∀ c ∈ regexLeaders, c ≠ '/' := by
  decide

theorem step_zero (c : Char) (next : Option Char) :
    State.step ⟨.code, some c⟩ '0' next = (.code, ⟨.code, some '0'⟩) := by
  have hquote : ¬ IsQuote '0' := by decide
  rw [State.step_plain rfl hquote (by decide)]
  rfl

/-- Behind a regular expression the reader goes on as behind a numeral: no operand is due. -/
theorem alike_slash_zero : Alike ⟨.code, some '/'⟩ ⟨.code, some '0'⟩ :=
  ⟨rfl, rfl⟩

section

variable {c : Char} (hc : c ∈ regexLeaders) (r : Regex) (u : Text)

include hc

theorem Regex.hides_of_leader : Hides ⟨.code, some c⟩ r.text ⟨.code, some '/'⟩ :=
  r.hides rfl (List.elem_eq_true_of_mem hc)

theorem totalWeight_regex (offset : Nat) :
    totalWeight ((marks ⟨.code, some c⟩ offset none (r.text ++ u)).filterMap Mark.codeChar?) =
      totalWeight ((marks ⟨.code, some c⟩ offset none ('0' :: u)).filterMap Mark.codeChar?) := by
  have hhides := r.hides_of_leader hc
  have hzero : weight '0' = 0 := rfl
  rw [marks_append, List.filterMap_append, hhides.filterMap_marks, hhides.after, List.nil_append,
    marks, step_zero]
  simp only [List.filterMap_cons, Mark.codeChar?, totalWeight, hzero, Int.zero_add]
  exact alike_slash_zero.totalWeight_marks _ _ none u

theorem mode_after_regex :
    (State.after ⟨.code, some c⟩ none (r.text ++ u)).mode =
      (State.after ⟨.code, some c⟩ none ('0' :: u)).mode := by
  rw [State.after_append, (r.hides_of_leader hc).after, State.after, step_zero]
  exact (alike_slash_zero.after none u).mode

theorem beforeComment_regex :
    beforeComment ⟨.code, some c⟩ none (r.text ++ u) =
      r.text ++ beforeComment ⟨.code, some '/'⟩ none u := by
  have hhides := r.hides_of_leader hc
  have hrole : ∀ m ∈ marks ⟨.code, some c⟩ 0 (u.head?.or none) r.text, m.role ≠ .lineComment := by
    intro m hm
    simp [hhides.role hm]
  rw [beforeComment_append hrole, hhides.after]

end

theorem beforeComment_zero (c : Char) (u : Text) :
    beforeComment ⟨.code, some c⟩ none ('0' :: u) =
      '0' :: beforeComment ⟨.code, some '0'⟩ none u := by
  rw [beforeComment, step_zero]
  rfl

end Ambient.Code
