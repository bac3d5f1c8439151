/-
Texts laid out with blanks and line comments.

Between two tokens stand blanks and comments that end with their line (`Spacing`). Once comments are
stripped and blanks collapsed, one space is left of such a gap, however it is laid out
(`Lays.spacing`). That a part of a text is reduced so does not depend on the parts around it, so a
text is reduced part by part (`Lays.append`), and what is left of it, if neat, is its collapsed form
(`Reduces.collapse_stripComments`).
-/
import Ambient.Proofs.Code.Regex
import Ambient.Proofs.Code.Token

namespace Ambient.Code

open Text (Blank Neat collapse fullLines isBlank size trimEnd words)

/-! ## Comments at line ends -/

section

variable {p body : Text}

theorem fullLines_append_newline (hfeed : '\n' ∉ p) (t : Text) :
    fullLines (p ++ '\n' :: t) = (p ++ ['\n']) :: fullLines t := by
  have hlines : fullLines ('\n' :: t) = ['\n'] :: fullLines t := by rw [fullLines, if_pos rfl]
  cases p with
  | nil => exact hlines
  | cons c p =>
    rw [fullLines_append (List.cons_ne_nil c p) hfeed, hlines]
    rfl

theorem mode_after_newline {s : State} (hs : s.mode = .code ∨ s.mode = .lineComment)
    (look : Option Char) : (s.after look ['\n']).mode = .code := by
  rcases hs with hs | hs <;> simp [State.after, State.step, State.readCode, hs]

/-- Two slashes that are read in code cut the line off. -/
theorem stripLine_cut {k : Carry} (hcode : (k.state.after (some '/') p).mode = .code)
    (hrole : ∀ m ∈ marks k.state 0 (some '/') p, m.role ≠ .lineComment) (body : Text) :
    stripLine k (p ++ '/' :: '/' :: body) = trimEnd p ++
      if (p ++ '/' :: '/' :: body).getLast? = some '\n' then ['\n'] else [] := by
  have hstep : (k.state.after (some '/') p).step '/' (some '/') =
      (.lineComment, ⟨.lineComment, (k.state.after (some '/') p).last⟩) := by
    simp [State.step, hcode, State.readCode]
  have hnone : (marks k.state 0 (some '/') p).find? (·.role == .lineComment) = none := by
    rw [List.find?_eq_none]
    simpa using hrole
  have hcut : lineComment? k (p ++ '/' :: '/' :: body) = some (size p) := by
    rw [lineComment?, marks_append, List.find?_append, List.head?_cons, Option.some_or, hnone,
      Option.none_or, marks, List.head?_cons, Option.some_or, hstep]
    simp
  rw [stripLine, hcut]
  simp only [Text.takeBytes_append]

theorem stripLine_comment (hp : Plain p) (body : Text) :
    stripLine .code (p ++ '/' :: '/' :: body) = trimEnd p ++
      if (p ++ '/' :: '/' :: body).getLast? = some '\n' then ['\n'] else [] :=
  stripLine_cut (hp.mode_after rfl _) (fun _ => hp.role_ne_lineComment rfl) body

theorem mode_after_slashes {s : State} (hs : s.mode = .code) (hbody : '\n' ∉ body)
    (look : Option Char) : (s.after look ('/' :: '/' :: body)).mode = .lineComment := by
  have hcomment : (s.step '/' (some '/')).2.mode = .lineComment := by
    simp [State.step, State.readCode, hs]
  have hfeed : '\n' ∉ '/' :: body := by simp [hbody]
  exact mode_after_lineComment hcomment hfeed look

theorem carry_after_comment (hp : Plain p) (hbody : '\n' ∉ body) :
    Carry.code.after (p ++ '/' :: '/' :: (body ++ ['\n'])) = .code := by
  have hcode : (State.after {} (some '/') p).mode = .code := hp.mode_after rfl _
  have hcomment := mode_after_newline (.inr (mode_after_slashes hcode hbody (some '\n'))) none
  rw [Carry.after, Carry.state, State.after_append, ← List.cons_append, ← List.cons_append,
    State.after_append]
  exact congrArg Mode.carry hcomment

theorem stripComments_newline (hp : Plain p) (hfeed : '\n' ∉ p) (t : Text) :
    stripComments (p ++ '\n' :: t) = p ++ '\n' :: stripComments t := by
  have hline : Plain (p ++ ['\n']) := hp.append (.char (by decide) (by decide) .nil)
  have hcarry : Carry.code.after (p ++ ['\n']) = .code := by
    rw [Carry.after, hline.mode_after rfl]
    rfl
  rw [stripComments, fullLines_append_newline hfeed, stripLines,
    stripLine_of_forall fun m => hline.role_ne_lineComment rfl, hcarry, List.append_assoc]
  rfl

/-- A comment goes with the blanks before it. -/
theorem stripComments_comment (hp : Plain p) (hfeed : '\n' ∉ p) (hbody : '\n' ∉ body) (t : Text) :
    stripComments (p ++ '/' :: '/' :: (body ++ '\n' :: t)) = trimEnd p ++ '\n' :: stripComments t := by
  have hline : '\n' ∉ p ++ '/' :: '/' :: body := by simp [hfeed, hbody]
  have hlines := fullLines_append_newline hline t
  have hlast : (p ++ '/' :: '/' :: (body ++ ['\n'])).getLast? = some '\n' := by
    rw [← List.cons_append, ← List.cons_append, ← List.append_assoc, List.getLast?_concat]
  simp only [List.append_assoc, List.cons_append] at hlines
  rw [stripComments, hlines, stripLines, carry_after_comment hp hbody, stripLine_comment hp, if_pos hlast,
    List.append_assoc]
  rfl

theorem stripComments_last (hp : Plain p) (hfeed : '\n' ∉ p) (hbody : '\n' ∉ body) :
    stripComments (p ++ '/' :: '/' :: body) = trimEnd p := by
  have hline : '\n' ∉ p ++ '/' :: '/' :: body := by simp [hfeed, hbody]
  have hlines := fullLines_append (by simp) hline []
  have hlast : (p ++ '/' :: '/' :: body).getLast? ≠ some '\n' :=
    fun h => hline (List.mem_of_getLast? h)
  simp only [fullLines, List.append_nil, List.headD_nil, List.tail_nil] at hlines
  rw [stripComments, hlines, stripLines, stripLine_comment hp, if_neg hlast, stripLines, List.append_nil,
    List.append_nil]

end

/-! ## Reduced texts -/

/-- Without its comments, and however its blanks are laid out, `t` reads as `u`, whatever plain text
stands before it on its first line. -/
def Reduces (t u : Text) : Prop :=
  ∀ p, Plain p → '\n' ∉ p → words (stripComments (p ++ t)) = words (p ++ u)

/-- `t` reduces to `u` whatever follows it. -/
structure Lays (t u : Text) : Prop where
  reduces : ∀ {x y}, Reduces x y → Reduces (t ++ x) (u ++ y)

theorem Reduces.collapse_stripComments {t u : Text} (h : Reduces t u) (hu : Neat u) :
    collapse (stripComments t) = u := by
  have hwords : words (stripComments t) = words u := h [] .nil List.not_mem_nil
  rw [collapse, hwords]
  exact Text.collapse_of_neat hu

theorem Reduces.nil : Reduces [] [] := by
  intro p hp _
  rw [List.append_nil, stripComments_of_plain hp]

theorem words_trimEnd (t : Text) : words (trimEnd t) = words t := by
  obtain ⟨g, hg, ht⟩ := Text.exists_trimEnd_append t
  rw [ht, Text.words_append_blanks hg, ← ht]

theorem Reduces.last {body : Text} (hbody : '\n' ∉ body) : Reduces ('/' :: '/' :: body) [] := by
  intro p hp hfeed
  rw [stripComments_last hp hfeed hbody, words_trimEnd, List.append_nil]

/-- A string that a backslash before its last mark keeps open reaches to the end of its line. -/
theorem Reduces.string {mark : Char} {body t u : Text} (hquote : IsQuote mark) (hmark : mark ∉ body)
    (hfeed : '\n' ∉ body) (ht : '/' ∉ t) (hwords : ∀ p, words (p ++ t) = words (p ++ u)) :
    Reduces (mark :: (body ++ [mark]) ++ t) (mark :: (body ++ [mark]) ++ u) := by
  intro p hp hline
  have hmarkFeed : '\n' ≠ mark := by
    rintro rfl
    exact absurd hquote (by decide)
  have hstring : '\n' ∉ p ++ mark :: (body ++ [mark]) := by simp [hline, hfeed, hmarkFeed]
  rw [← List.append_assoc, ← List.append_assoc, stripComments_append_of_roles (by simp) hstring
    (role_ne_lineComment_string hp hquote hmark hfeed) (no_slashes_of_not_mem ht), hwords]

namespace Lays

variable {t t' u u' : Text}

theorem append (h : Lays t u) (h' : Lays t' u') : Lays (t ++ t') (u ++ u') := by
  refine ⟨fun hxy => ?_⟩
  rw [List.append_assoc, List.append_assoc]
  exact h.reduces (h'.reduces hxy)

theorem plain (h : Plain t) : Lays t t := by
  refine ⟨fun {x y} hxy => ?_⟩
  induction h with
  | nil => exact hxy
  | @char c t hquote hslash _ ih =>
    intro p hp hfeed
    by_cases hc : c = '\n'
    · have hrest : words (stripComments (t ++ x)) = words (t ++ y) := ih [] .nil List.not_mem_nil
      subst hc
      rw [List.cons_append, List.cons_append, stripComments_newline hp hfeed,
        Text.words_append_blank (by decide), hrest, Text.words_append_blank (by decide)]
    · have hrest := ih (p ++ [c]) (hp.append (.char hquote hslash .nil))
        (by simp [hfeed, Ne.symm hc])
      simpa using hrest
  | @quoted q t _ ih =>
    intro p hp hfeed
    have hq : Plain q.text := by simpa using Plain.quoted q .nil
    have hrest := ih (p ++ q.text) (hp.append hq) (by simp [hfeed, q.newline_not_mem])
    simpa using hrest

end Lays

/-! ## Spacing -/

/-- Blanks and comments up to the end of their lines. -/
inductive IsSpacing : Text → Prop where
  | nil : IsSpacing []
  | blank {c : Char} {t : Text} (hc : isBlank c = true) (ht : IsSpacing t) : IsSpacing (c :: t)
  | comment {body t : Text} (hbody : '\n' ∉ body) (ht : IsSpacing t) :
      IsSpacing ('/' :: '/' :: (body ++ '\n' :: t))

/-- What may stand between two tokens. -/
structure Spacing where
  text : Text
  isSpacing : IsSpacing text

/-- What is left of a gap. -/
def Spacing.flat (g : Spacing) : Text :=
  if g.text = [] then [] else [' ']

theorem Spacing.blank_flat (g : Spacing) : Blank g.flat := by
  unfold flat
  split
  · exact .nil
  · exact .space

theorem Spacing.flat_of_ne {g : Spacing} (h : g.text ≠ []) : g.flat = [' '] :=
  if_neg h

theorem IsSpacing.blank_of_not_mem {g : Text} (h : IsSpacing g) (hslash : '/' ∉ g) : Blank g := by
  induction h with
  | nil => exact .nil
  | blank hc _ ih => exact List.forall_mem_cons.2 ⟨hc, ih fun h => hslash (List.mem_cons_of_mem _ h)⟩
  | comment => exact absurd List.mem_cons_self hslash

/-- Blanks between words count as one space. -/
theorem Spacing.words_append (g : Spacing) (hslash : '/' ∉ g.text) (t u : Text) :
    words (t ++ (g.text ++ u)) = words (t ++ (g.flat ++ u)) := by
  have hblank := g.isSpacing.blank_of_not_mem hslash
  unfold flat
  split
  · rename_i hg
    rw [hg]
  · rename_i hg
    obtain ⟨c, g', hcons⟩ := List.exists_cons_of_ne_nil hg
    rw [hcons] at hblank ⊢
    obtain ⟨hc, hg'⟩ := List.forall_mem_cons.1 hblank
    rw [List.cons_append, Text.words_append_blank hc, Text.words_blank_append hg',
      List.singleton_append, Text.words_append_blank (by decide)]

/-- A gap ends the word before it, unless it is empty. -/
theorem words_spacing {g x y : Text} (hg : IsSpacing g) (hxy : Reduces x y) {p : Text} (hp : Plain p)
    (hfeed : '\n' ∉ p) (hopen : g = [] → ∀ y, words (p ++ y) = words p ++ words y) :
    words (stripComments (p ++ (g ++ x))) = words p ++ words y := by
  induction hg generalizing p with
  | nil => rw [List.nil_append, hxy p hp hfeed, hopen rfl]
  | @blank c t hc _ ih =>
    by_cases hnewline : c = '\n'
    · have hrest : words (stripComments (t ++ x)) = words y :=
        ih .nil List.not_mem_nil fun _ _ => rfl
      subst hnewline
      rw [List.cons_append, stripComments_newline hp hfeed, Text.words_append_blank hc, hrest]
    · have hc' : Plain [c] := (Balanced.of_forall (by simp [isOrdinary_of_isBlank hc])).plain
      have hblank : words (p ++ [c]) = words p := Text.words_append_blanks (by simpa [Blank] using hc) p
      have hrest := ih (hp.append hc') (by simp [hfeed, Ne.symm hnewline]) fun _ y => by
        rw [hblank, List.append_assoc, List.singleton_append, Text.words_append_blank hc]
      rw [hblank] at hrest
      simpa using hrest
  | @comment body t hbody _ ih =>
    have hrest : words (stripComments (t ++ x)) = words y :=
      ih .nil List.not_mem_nil fun _ _ => rfl
    rw [List.cons_append, List.cons_append, List.append_assoc, List.cons_append,
      stripComments_comment hp hfeed hbody, Text.words_append_blank (by decide), words_trimEnd, hrest]

/-- One space is left of a gap, however it is laid out. -/
theorem Lays.spacing (g : Spacing) : Lays g.text g.flat := by
  refine ⟨fun hxy p hp hfeed => ?_⟩
  by_cases hg : g.text = []
  · rw [Spacing.flat, if_pos hg, hg]
    exact hxy p hp hfeed
  · rw [words_spacing g.isSpacing hxy hp hfeed (absurd · hg), Spacing.flat_of_ne hg,
      List.singleton_append, Text.words_append_blank (by decide)]

/-- Nothing is left of a gap at the end. -/
theorem Reduces.spacing (g : Spacing) {t : Text} (h : Reduces t []) : Reduces (g.text ++ t) [] := by
  intro p hp hfeed
  rw [(Lays.spacing g).reduces h p hp hfeed, List.append_nil, List.append_nil,
    Text.words_append_blanks g.blank_flat]

end Ambient.Code
