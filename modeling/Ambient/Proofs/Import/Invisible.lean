/-
What stands in strings and block comments is not seen.

A string or a comment that is opened in code is hidden from its first mark to its last one, and what
follows it is read from a state that its contents play no part in (`Enclosure.hides`). Two texts that
differ only in such contents therefore show the same code, the later part of it moved by the
difference in size, nest their brackets alike and name the same types (`enclosed_invisible`).
-/
import Ambient.Proofs.Code.Hidden
import Ambient.Proofs.Code.Lines
import Ambient.Proofs.Import.TypeNames

namespace Ambient.Code

open Text (size)

/-- What hides its contents: a string or template with its mark, or a block comment. -/
inductive Enclosure where
  | string (mark : Char) (hmark : IsQuote mark)
  | comment

namespace Enclosure

/-- The character at both ends. -/
def mark : Enclosure → Char
  | .string mark _ => mark
  | .comment => '/'

/-- What stands between the two marks when the contents are `s`. -/
def inner : Enclosure → Text → Text
  | .string _ _, s => s
  | .comment, s => '*' :: (s ++ ['*'])

def text (e : Enclosure) (s : Text) : Text :=
  e.mark :: (e.inner s ++ [e.mark])

/-- Contents that do not end the enclosure. -/
def Holds : Enclosure → Text → Prop
  | .string mark _, s => mark ∉ s ∧ '\\' ∉ s ∧ ('\n' ∈ s → mark = '`')
  | .comment, s => ¬ ['*', '/'] <:+: s

/-- The state behind an enclosure that is opened in a state. -/
def behind : Enclosure → State → State
  | .string mark _, _ => ⟨.code, some mark⟩
  | .comment, st => ⟨.code, st.last⟩

/-- The state that an enclosure behind `p` is opened in. -/
def opened (e : Enclosure) (p : Text) : State :=
  State.after {} (some e.mark) p

/-- The code of a text before an enclosure. -/
def codeBefore (e : Enclosure) (p : Text) : List CodeChar :=
  (marks {} 0 (some e.mark) p).filterMap Mark.codeChar?

/-- The code of a text behind an enclosure that itself stands behind `p`. -/
def codeBehind (e : Enclosure) (p r : Text) : List CodeChar :=
  (e.behind (e.opened p)).code 0 r

end Enclosure

/-! ## Hidden contents -/

theorem stringBody_of_not_mem {mark : Char} {s : Text} (hmark : mark ∉ s) (hescape : '\\' ∉ s)
    (hfeed : '\n' ∈ s → mark = '`') : StringBody mark s := by
  induction s with
  | nil => exact .nil
  | cons c s ih =>
    rw [List.mem_cons, not_or] at hmark hescape
    have hc : c = '\n' → mark = '`' := fun h => hfeed (by rw [h]; exact List.mem_cons_self)
    exact .char (Ne.symm hescape.1) (Ne.symm hmark.1) hc
      (ih hmark.2 hescape.2 fun h => hfeed (List.mem_cons_of_mem c h))

/-- A comment goes on to the closing mark behind its contents. -/
theorem contents_hides {s : Text} (h : ¬ ['*', '/'] <:+: s) (last : Option Char) :
    Hides ⟨.comment, last⟩ (s ++ ['*', '/']) ⟨.code, last⟩ := by
  induction s with
  | nil =>
    have hslash : Hides ⟨.commentClosing, last⟩ ['/'] ⟨.code, last⟩ := .cons (fun _ => rfl) .nil
    exact .cons (fun _ => rfl) hslash
  | cons c s ih =>
    refine .cons (fun look => ?_) (ih fun hs => h (hs.trans (List.suffix_cons c s).isInfix))
    have hnext : ¬ (c = '*' ∧ (s ++ ['*', '/']).head?.or look = some '/') := by
      rintro ⟨rfl, hslash⟩
      cases s with
      | nil => cases hslash
      | cons d s =>
        cases hslash
        exact h ⟨[], s, rfl⟩
    simp only [State.step]
    exact if_neg hnext

namespace Enclosure

variable {e : Enclosure} {p s : Text}

/-- **An enclosure is hidden with its contents**, which play no part in the state behind it. -/
theorem hides (hs : e.Holds s) {st : State} (hst : st.mode = .code) :
    Hides st (e.text s) (e.behind st) := by
  cases e with
  | string mark hmark =>
    obtain ⟨hnot, hescape, hfeed⟩ := hs
    have hne : mark ≠ '\\' := by
      rcases hmark with rfl | rfl | rfl <;> decide
    exact string_hides hmark hst (stringBody_of_not_mem hnot hescape hfeed) hne (.inl rfl)
  | comment =>
    have hinner := (commentMark_hides hst).append (contents_hides hs st.last)
    simpa [text, inner, mark, behind] using hinner

theorem size_text (e : Enclosure) (s : Text) : size (e.text s) = size (e.text []) + size s := by
  cases e <;> simp [text, inner, mark, size, Text.size_append] <;> omega

theorem size_text_pos (e : Enclosure) (s : Text) : 0 < size (e.text s) := by
  have hpos := e.mark.utf8Size_pos
  rw [text, size]
  omega

/-- The code of a text with an enclosure. -/
theorem chars_eq (hs : e.Holds s) (hcode : (e.opened p).mode = .code) (r : Text) :
    chars (p ++ (e.text s ++ r)) = e.codeBefore p ++
      (e.codeBehind p r).map fun x => (size p + size (e.text s) + x.1, x.2) := by
  have hbehind := (hides hs hcode).code_append (0 + size p) r
  rw [Nat.zero_add] at hbehind
  rw [chars_eq_code, State.code, marks_append, List.filterMap_append, codeBehind, ← State.code_shift,
    Nat.add_zero, ← hbehind, Nat.zero_add]
  rfl

theorem carry_after_eq (hs : e.Holds s) (hcode : (e.opened p).mode = .code) (r : Text) :
    Carry.code.after (p ++ (e.text s ++ r)) = ((e.behind (e.opened p)).after none r).mode.carry := by
  have hstate : State.after {} none (p ++ (e.text s ++ r)) =
      (e.opened p).after none (e.text s ++ r) := State.after_append _ _ _ _
  rw [Carry.after, Carry.state, hstate, State.after_append, (hides hs hcode).after]

theorem bracketDelta_eq (hs : e.Holds s) (hcode : (e.opened p).mode = .code) (r : Text) :
    bracketDelta .code (p ++ (e.text s ++ r)) =
      totalWeight (e.codeBefore p) + totalWeight (e.codeBehind p r) := by
  have hchars : charsFrom .code (p ++ (e.text s ++ r)) = _ := chars_eq hs hcode r
  rw [bracketDelta, hchars, totalWeight_append, totalWeight_shift]

end Enclosure

end Ambient.Code

namespace Ambient.Import

open Code (Carry Enclosure bracketDelta chars)
open Text (size)

/-! ## Names around an enclosure -/

/-- No word reaches over an enclosure, and its marks tell whether the words next to it are qualified. -/
theorem typeNames_enclosed {e : Enclosure} {p s : Text} (hs : e.Holds s)
    (hcode : (e.opened p).mode = .code) (r : Text) :
    typeNames (p ++ (e.text s ++ r)) =
      ((tokens (e.codeBefore p)).filter (Token.namesTypeIn none (some e.mark) p)).map Token.text ++
        namesFrom (e.behind (e.opened p)) (some e.mark) none r := by
  have hgap : ∀ x ∈ e.codeBefore p, ∀ y ∈ (e.codeBehind p r).map
      fun x => (size p + size (e.text s) + x.1, x.2), x.1 + x.2.utf8Size < y.1 := by
    intro x hx y hy
    have hend : x.1 + x.2.utf8Size ≤ size p := stop_le_of_mem_code hx
    have hpos := e.size_text_pos s
    obtain ⟨z, -, rfl⟩ := List.mem_map.1 hy
    dsimp only
    omega
  -- the same text with its parts up to the last mark and behind it
  have hparts : p ++ e.mark :: (e.inner s ++ [e.mark] ++ r) =
      p ++ e.mark :: e.inner s ++ e.mark :: r := by
    simp
  have hsize : size p + size (e.text s) = size (p ++ e.mark :: e.inner s) + e.mark.utf8Size := by
    simp only [Enclosure.text, Text.size_append, size]
    omega
  rw [typeNames_eq_namesFrom, namesFrom, ← Code.chars_eq_code, Enclosure.chars_eq hs hcode,
    tokens_append hgap, tokens_shift, hsize]
  exact names_append hparts

/-- **Contents are invisible**: two texts that differ only in what a string or a comment encloses show
the same code, which is moved behind the enclosure by the difference in size, and nothing of the
enclosure is code. Their brackets nest as deep, they carry the same on and they name the same types. -/
theorem enclosed_invisible (e : Enclosure) {p s₁ s₂ : Text} (r : Text)
    (hcode : (e.opened p).mode = .code) (h₁ : e.Holds s₁) (h₂ : e.Holds s₂) :
    let t₁ := p ++ (e.text s₁ ++ r)
    let t₂ := p ++ (e.text s₂ ++ r)
    (∀ x ∈ chars t₁, x.1 < size p ∨ size p + size (e.text s₁) ≤ x.1) ∧
      chars t₂ = (chars t₁).map
        (fun x => (if x.1 < size p then x.1 else x.1 - size s₁ + size s₂, x.2)) ∧
      bracketDelta .code t₂ = bracketDelta .code t₁ ∧
      Carry.code.after t₂ = Carry.code.after t₁ ∧
      typeNames t₂ = typeNames t₁ := by
  intro t₁ t₂
  have hbefore : ∀ x ∈ e.codeBefore p, x.1 < size p := by
    intro x hx
    have hend : x.1 + x.2.utf8Size ≤ size p := stop_le_of_mem_code hx
    have hpos := x.2.utf8Size_pos
    omega
  have hchars := Enclosure.chars_eq h₁ hcode r
  refine ⟨fun x hx => ?_, ?_, ?_, ?_, ?_⟩
  · rw [hchars] at hx
    rcases List.mem_append.1 hx with hx | hx
    · exact .inl (hbefore x hx)
    · obtain ⟨y, -, rfl⟩ := List.mem_map.1 hx
      exact .inr (Nat.le_add_right _ _)
  · have hsize₁ := e.size_text s₁
    have hsize₂ := e.size_text s₂
    rw [hchars, Enclosure.chars_eq h₂ hcode r, List.map_append, List.map_map]
    congr 1
    · calc e.codeBefore p = (e.codeBefore p).map id := (List.map_id _).symm
        _ = _ := List.map_congr_left fun x hx => by rw [if_pos (hbefore x hx), id]
    · refine List.map_congr_left fun x _ => ?_
      have hle : ¬ size p + size (e.text s₁) + x.1 < size p := by omega
      simp only [Function.comp_apply, if_neg hle, Prod.mk.injEq, and_true]
      omega
  · rw [Enclosure.bracketDelta_eq h₁ hcode, Enclosure.bracketDelta_eq h₂ hcode]
  · rw [Enclosure.carry_after_eq h₁ hcode, Enclosure.carry_after_eq h₂ hcode]
  · rw [typeNames_enclosed h₁ hcode, typeNames_enclosed h₂ hcode]

/-- Brackets, marks and names in a string and in a comment, with a dot behind them. -/
theorem enclosed_invisible_names :
    let p : Text := "f(a.B, c"
    let r : Text := ".D / 2, E.f)"
    let string : Enclosure := .string '"' (.inr (.inl rfl))
    string.Holds "N.x) ' /*" ∧ Enclosure.comment.Holds "/ N.x) \" *" ∧
      typeNames (p ++ (string.text [] ++ r)) = ["a".toList, "B".toList, "D".toList, "E".toList] ∧
      typeNames (p ++ (string.text "N.x) ' /*" ++ r)) =
        ["a".toList, "B".toList, "D".toList, "E".toList] ∧
      bracketDelta .code (p ++ (Enclosure.comment.text "/ N.x) \" *" ++ r)) =
        bracketDelta .code (p ++ (Enclosure.comment.text [] ++ r)) := by
  intro p r string
  have hempty : string.Holds [] := ⟨by decide, by decide, by decide⟩
  have hstring : string.Holds "N.x) ' /*" := ⟨by decide, by decide, by decide⟩
  have hnone : Enclosure.comment.Holds [] := by simp [Enclosure.Holds]
  have hcomment : Enclosure.comment.Holds "/ N.x) \" *" := by
    simp [Enclosure.Holds, List.infix_cons_iff]
  have hnames : typeNames (p ++ (string.text [] ++ r)) =
      ["a".toList, "B".toList, "D".toList, "E".toList] := by
    decide
  obtain ⟨-, -, -, -, hsame⟩ := enclosed_invisible string r
    (show (string.opened p).mode = .code by decide) hempty hstring
  obtain ⟨-, -, hdelta, -, -⟩ := enclosed_invisible .comment r
    (show (Enclosure.comment.opened p).mode = .code by decide) hnone hcomment
  exact ⟨hstring, hcomment, hnames, hsame.trans hnames, hdelta⟩

end Ambient.Import
