/-
Lines with a regular expression in them, as the scanner takes them.

Where a slash opens a regular expression, the line nests, carries and goes on as the line with a
numeral in its place (`goesOn_regex`). A block that takes one line in place of the other ends at the
same line, so that all that follows it is found (`SameAfterFirst.extend`).
-/
import Ambient.Proofs.Code.Regex
import Ambient.Proofs.Source.Spans

namespace Ambient.Source

open Code (Carry State Regex EndsInCode regexLeaders bracketDelta chars)
open Text (trimEnd endsWith size)

/-! ## Blocks that end together -/

/-- Two blocks that the next lines close alike. -/
structure OpenBlock.Alike (b b' : OpenBlock) : Prop where
  depth : b.depth = b'.depth
  carry : b.carry = b'.carry

theorem OpenBlock.Alike.push {b b' : OpenBlock} (h : b.Alike b') (line : Text) :
    (b.push line).Alike (b'.push line) where
  depth := by simp only [OpenBlock.push, h.depth, h.carry]
  carry := by simp only [OpenBlock.push, h.carry]

theorem OpenBlock.Alike.goesOn_eq {b b' : OpenBlock} (h : b.Alike b') {line line' : Text}
    {next : Option Text} (hcontinues : continues line next = continues line' next) :
    b.goesOn line next = b'.goesOn line' next := by
  rw [OpenBlock.goesOn, OpenBlock.goesOn, h.depth, h.carry, hcontinues]

/-- Two scans whose items are the same after the first ones. -/
def SameAfterFirst (items items' : List Item) : Prop :=
  ∃ first first' following, items = first :: following ∧ items' = first' :: following

namespace SameAfterFirst

variable {s : Scanner} {b b' : OpenBlock} {line line' : Text} {rest : List Text}

theorem extend_of_block (hgoes : (b.push line).goesOn line rest.head? =
      (b'.push line').goesOn line' rest.head?)
    (hblock : SameAfterFirst (Scanner.items { s with phase := .block (b.push line) } rest)
      (Scanner.items { s with phase := .block (b'.push line') } rest)) :
    SameAfterFirst
      ((s.extend b line rest.head?).2.toList ++ (s.extend b line rest.head?).1.items rest)
      ((s.extend b' line' rest.head?).2.toList ++ (s.extend b' line' rest.head?).1.items rest) := by
  simp only [Scanner.extend, ← hgoes]
  split
  · exact hblock
  · exact ⟨_, _, _, rfl, rfl⟩

theorem block (h : b.Alike b') (rest : List Text) :
    SameAfterFirst (Scanner.items { s with phase := .block b } rest)
      (Scanner.items { s with phase := .block b' } rest) := by
  induction rest generalizing b b' with
  | nil => exact ⟨_, _, [], rfl, rfl⟩
  | cons line rest ih => exact extend_of_block ((h.push line).goesOn_eq rfl) (ih (h.push line))

theorem extend (h : (b.push line).Alike (b'.push line'))
    (hcontinues : continues line rest.head? = continues line' rest.head?) :
    SameAfterFirst
      ((s.extend b line rest.head?).2.toList ++ (s.extend b line rest.head?).1.items rest)
      ((s.extend b' line' rest.head?).2.toList ++ (s.extend b' line' rest.head?).1.items rest) :=
  extend_of_block (h.goesOn_eq hcontinues) (block h rest)

end SameAfterFirst

/-- All lines of a scan that could open a block start it from the same depth. -/
theorem Scanner.alike_of_taking {s : Scanner} {line line' : Text} {b b' : OpenBlock}
    (h : s.taking? line = some b) (h' : s.taking? line' = some b') : b.Alike b' := by
  cases hphase : s.phase with
  | block b₀ =>
    simp only [taking?, hphase, Option.some.injEq] at h h'
    rw [← h, ← h']
    exact ⟨rfl, rfl⟩
  | comment doc => simp [taking?, hphase] at h
  | idle =>
    simp only [taking?, hphase] at h h'
    split at h
    · cases h
    · split at h'
      · cases h'
      · obtain ⟨_, -, rfl⟩ := Option.map_eq_some_iff.1 h
        obtain ⟨_, -, rfl⟩ := Option.map_eq_some_iff.1 h'
        exact ⟨rfl, rfl⟩

/-! ## A regular expression in the place of a numeral -/

section

variable {p : Text} {c : Char} (hp : EndsInCode p c) (hc : c ∈ regexLeaders) (r : Regex) (u : Text)

include hp hc

theorem bracketDelta_regex :
    bracketDelta .code (p ++ (r.text ++ u)) = bracketDelta .code (p ++ '0' :: u) := by
  have hslash := Code.not_slash_of_mem_regexLeaders c hc
  rw [hp.bracketDelta_append hslash, hp.bracketDelta_append hslash, Code.totalWeight_regex hc]

theorem carry_regex :
    Carry.code.after (p ++ (r.text ++ u)) = Carry.code.after (p ++ '0' :: u) := by
  have hslash := Code.not_slash_of_mem_regexLeaders c hc
  rw [hp.carry_append hslash, hp.carry_append hslash, Code.mode_after_regex hc]

/-- The code of both lines ends in the same tokens: neither operand is part of one. -/
theorem endsWith_regex (hnewline : '\n' ∉ p) (hnewline' : '\n' ∉ u) {token : Text}
    (hslash : '/' ∉ token) (hzero : '0' ∉ token) :
    endsWith (trimEnd (Code.stripComments (p ++ (r.text ++ u)))) token =
      endsWith (trimEnd (Code.stripComments (p ++ '0' :: u))) token := by
  have hc' := Code.not_slash_of_mem_regexLeaders c hc
  have hregex : '\n' ∉ p ++ (r.text ++ u) := by
    simp [hnewline, hnewline', r.newline_not_mem]
  have hnumeral : '\n' ∉ p ++ '0' :: u := by
    simp [hnewline, hnewline']
  have htext : ∀ v, p ++ (r.text ++ v) = (p ++ '/' :: r.body) ++ '/' :: v := by
    simp [Regex.text]
  rw [hp.trimEnd_stripComments_append hc' hregex, hp.trimEnd_stripComments_append hc' hnumeral,
    Code.beforeComment_regex hc, Code.beforeComment_zero, htext,
    Text.trimEnd_append_cons (by decide), Text.trimEnd_append_cons (by decide),
    Text.endsWith_append_cons hslash, Text.endsWith_append_cons hzero,
    Code.alike_slash_zero.beforeComment_eq]

theorem continues_regex (hnewline : '\n' ∉ p) (hnewline' : '\n' ∉ u) (next : Option Text) :
    continues (p ++ (r.text ++ u)) next = continues (p ++ '0' :: u) next := by
  have hends : ∀ token ∈ [",", "=", "|", "&", "=>", ":"],
      endsWith (trimEnd (Code.stripComments (p ++ (r.text ++ u)))) token =
        endsWith (trimEnd (Code.stripComments (p ++ '0' :: u))) token := by
    intro token htoken
    have hsigns : '/' ∉ token.toList ∧ '0' ∉ token.toList := by
      revert token
      decide
    exact endsWith_regex hp hc r u hnewline hnewline' hsigns.1 hsigns.2
  cases next with
  | none => rfl
  | some next =>
    simp only [continues, List.any_cons, List.any_nil]
    rw [hends "," (by decide), hends "=" (by decide), hends "|" (by decide), hends "&" (by decide),
      hends "=>" (by decide), hends ":" (by decide)]

end

/-- A slash behind a sign that no operand follows divides, and is code. -/
theorem slash_mem_chars {p : Text} {c : Char} (hp : EndsInCode p c) (hslash : c ≠ '/')
    (hc : c ∉ regexLeaders) (r : Regex) (u : Text) :
    (size p, '/') ∈ chars (p ++ (r.text ++ u)) := by
  obtain ⟨d, t, hbody, hd, hd'⟩ := r.exists_body
  have hoperand : State.expectsOperand ⟨.code, some c⟩ = false := by
    simpa [State.expectsOperand] using hc
  refine (Code.mem_chars_append p '/' ((r.body ++ ['/']) ++ u)).2 ?_
  rw [hp.after_eq hslash]
  simp [hbody, State.step, State.readCode, hd, hd', hoperand]

/-- Behind a sign that an operand follows, a regular expression counts as a numeral does: for the
brackets, for what the next line starts in, and for where a block ends that takes the line as code.
Behind `>`, where the slash may belong to a closing tag, the slash is code. -/
theorem regex_counts_as_numeral {p : Text} {c : Char} (hp : EndsInCode p c) (r : Regex) (u : Text) :
    (c ∈ regexLeaders →
      bracketDelta .code (p ++ (r.text ++ u)) = bracketDelta .code (p ++ '0' :: u) ∧
      Carry.code.after (p ++ (r.text ++ u)) = Carry.code.after (p ++ '0' :: u) ∧
      ('\n' ∉ p → '\n' ∉ u → ∀ (s : Scanner) (b b' : OpenBlock) (rest : List Text),
        s.taking? (p ++ (r.text ++ u)) = some b → s.taking? (p ++ '0' :: u) = some b' →
        b.carry = .code →
        SameAfterFirst (s.items ((p ++ (r.text ++ u)) :: rest))
          (s.items ((p ++ '0' :: u) :: rest)))) ∧
    (c = '>' → (size p, '/') ∈ chars (p ++ (r.text ++ u))) := by
  refine ⟨fun hc => ?_, fun hc => slash_mem_chars hp (by simp [hc]) (by simp [hc, regexLeaders]) r u⟩
  have hdelta := bracketDelta_regex hp hc r u
  have hcarry := carry_regex hp hc r u
  refine ⟨hdelta, hcarry, fun hnewline hnewline' s b b' rest hb hb' hcode => ?_⟩
  have halike := Scanner.alike_of_taking hb hb'
  have hcode' : b'.carry = .code := halike.carry.symm.trans hcode
  have hpush : (b.push (p ++ (r.text ++ u))).Alike (b'.push (p ++ '0' :: u)) := by
    constructor
    · simp only [OpenBlock.push, hcode, hcode', halike.depth, hdelta]
    · simp only [OpenBlock.push, hcode, hcode', hcarry]
  rw [Scanner.items, Scanner.items, Scanner.step_of_taking hb, Scanner.step_of_taking hb']
  exact .extend hpush (continues_regex hp hc r u hnewline hnewline' rest.head?)

/-- A brace, and a slash in a class. -/
def braceRegex : Regex where
  body := "\\\x7b[/(]"
  isBody := .escape (by decide) (.charClass (.char (by decide) (.char (by decide) .nil)) .nil)
  ne_nil := by decide
  not_star := by decide

theorem regex_counts_as_numeral_brace :
    EndsInCode "export const re = " '=' ∧
      bracketDelta .code ("export const re = " ++ (braceRegex.text ++ ".test(s)" : Text)) =
        bracketDelta .code ("export const re = " ++ '0' :: (".test(s)" : Text)) ∧
      SameAfterFirst
        (Scanner.items {} [("export const re = " ++ (braceRegex.text ++ ".test(s)" : Text)),
          "export const next = 1"])
        (Scanner.items {} [("export const re = " ++ '0' :: (".test(s)" : Text)),
          "export const next = 1"]) := by
  have hp : EndsInCode "export const re = " '=' :=
    ⟨"export const re ", " ", rfl, .space, by decide, by decide⟩
  obtain ⟨hdelta, -, hitems⟩ := (regex_counts_as_numeral hp braceRegex ".test(s)").1 (by decide)
  refine ⟨hp, hdelta, hitems (by decide) (by decide) {} ⟨.declaration, [], 0, .code⟩
    ⟨.declaration, [], 0, .code⟩ _ ?_ ?_ rfl⟩
  · decide
  · decide

/-- Behind an arrow the slash divides, and the brace is left open. -/
theorem brace_counts_behind_arrow :
    Code.RegexBody ['\x7b'] ∧ EndsInCode "f = x => " '>' ∧
      bracketDelta .code "f = x => /\x7b/" = bracketDelta .code "f = x => 0" + 1 :=
  ⟨.char (by decide) .nil, ⟨"f = x =", " ", rfl, .space, by decide, by decide⟩, by decide⟩

end Ambient.Source
