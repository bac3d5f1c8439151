/-
The code in the comment of a declaration.

The doc comment of a declaration is kept in whole lines (`Span.joined`), while the comment itself ends
at its first closing mark. So the text of a doc comment is blanks, the comment, and what stands behind
it on its last line (`Part.Spans.exists_inner`). The comment hides all it covers, and the code in the
text is the code behind it (`comment_code`).
-/
import Ambient.Proofs.Code.Hidden
import Ambient.Proofs.Code.Items
import Ambient.Proofs.Source.DocComment
import Ambient.Proofs.Source.Exported

namespace Ambient

/-! ## First occurrences -/

namespace Text

variable {sep t a b : Text} {c : Char}

/-- Before a character that `sep` does not have, the first occurrence is not changed by what follows. -/
theorem splitFirst?_append_of_some (hc : c ∉ sep) (h : splitFirst? sep t = some (a, b)) (u : Text) :
    splitFirst? sep (t ++ c :: u) = some (a, b ++ c :: u) := by
  induction t generalizing a with
  | nil =>
    obtain ⟨rest, hafter, heq⟩ := Option.map_eq_some_iff.1 h
    cases heq
    rw [List.nil_append, splitFirst?, ← List.nil_append (c :: u), after?_append_cons hc, hafter]
    rfl
  | cons d t ih =>
    rw [splitFirst?] at h
    rw [List.cons_append, splitFirst?, ← List.cons_append, after?_append_cons hc]
    cases hafter : after? (d :: t) sep with
    | some rest =>
      rw [hafter] at h
      cases h
      rfl
    | none =>
      rw [hafter] at h
      obtain ⟨⟨a', b'⟩, hsplit, heq⟩ := Option.map_eq_some_iff.1 h
      cases heq
      rw [ih hsplit]
      rfl

theorem splitFirst?_append_of_none (hc : c ∉ sep) (h : splitFirst? sep t = none) (u : Text) :
    splitFirst? sep (t ++ c :: u) = (splitFirst? sep u).map fun p => (t ++ c :: p.1, p.2) := by
  induction t with
  | nil =>
    have hafter : after? [] sep = none := Option.map_eq_none_iff.1 h
    rw [List.nil_append, splitFirst?, ← List.nil_append (c :: u), after?_append_cons hc, hafter]
    rfl
  | cons d t ih =>
    rw [splitFirst?] at h
    rw [List.cons_append, splitFirst?, ← List.cons_append, after?_append_cons hc]
    cases hafter : after? (d :: t) sep with
    | some rest =>
      rw [hafter] at h
      cases h
    | none =>
      rw [hafter] at h
      rw [ih (Option.map_eq_none_iff.1 h), Option.map_none, Option.map_map]
      rfl

theorem splitFirst?_eq_none {d : Char} (h : d ∉ t) : splitFirst? (d :: sep) t = none := by
  induction t with
  | nil => rfl
  | cons c t ih =>
    simp only [List.mem_cons, not_or] at h
    rw [splitFirst?, after?_eq_none (Ne.symm h.1), ih h.2]
    rfl

theorem contains_eq_false_iff : contains t sep = false ↔ splitFirst? sep t = none := by
  rw [contains, Option.isSome_eq_false_iff, Option.isNone_iff_eq_none]

end Text

/-! ## The code behind a comment -/

namespace Code

open Text (isBlank Blank size splitFirst?)

/-- Nothing in the text is code but blanks. -/
def NoCode (t : Text) : Prop :=
  ∀ x ∈ chars t, isBlank x.2 = true

instance (t : Text) : Decidable (NoCode t) :=
  inferInstanceAs (Decidable (∀ x ∈ chars t, isBlank x.2 = true))

theorem noCode_blank {g : Text} (hg : Blank g) : NoCode g := by
  intro x hx
  obtain ⟨u, v, hsplit, -⟩ := exists_of_mem_chars hx
  exact hg x.2 (by simp [hsplit])

theorem code_blank_append {g : Text} (hg : Blank g) (u : Text) :
    chars (g ++ u) = chars g ++ State.code {} (size g) u := by
  rw [chars_eq_code, State.code, marks_append, List.filterMap_append, State.after_blank rfl hg,
    Nat.zero_add, (plain_of_blank hg).filterMap_marks rfl, chars_eq_codeAt]
  rfl

section Comment

variable {g inner body tail : Text}

theorem closedComment_hides (h : splitFirst? "*/" inner = some (body, tail)) :
    Hides {} ('/' :: '*' :: (body ++ ['*', '/'])) {} :=
  (commentMark_hides rfl).append (comment_hides h none)

theorem noCode_comment (hg : Blank g) (h : splitFirst? "*/" inner = some (body, tail)) :
    NoCode (g ++ '/' :: '*' :: (body ++ ['*', '/'])) := by
  rw [NoCode, code_blank_append hg, (closedComment_hides h).code_eq_nil, List.append_nil]
  exact noCode_blank hg

/-- Behind a comment a text is read as from its start. -/
theorem chars_comment_append (hg : Blank g) (h : splitFirst? "*/" inner = some (body, tail))
    (u : Text) :
    chars (g ++ '/' :: '*' :: (body ++ ['*', '/']) ++ u) =
      chars (g ++ '/' :: '*' :: (body ++ ['*', '/'])) ++
        (chars u).map fun x => (size (g ++ '/' :: '*' :: (body ++ ['*', '/'])) + x.1, x.2) := by
  have hides := closedComment_hides h
  rw [List.append_assoc, code_blank_append hg, code_blank_append hg, hides.code_append,
    hides.code_eq_nil, code_eq_shift, Text.size_append, List.append_nil]

end Comment

end Code

namespace Source

open Code (NoCode)
open Text (Blank isBlank lines trim trimStart startsWith contains splitFirst? joinLines)

/-! ## The text of a doc comment -/

/-- A text that starts with a comment, blanks apart, cut behind the comment. -/
def cutComment? (t : Text) : Option (Text × Text) := do
  let inner ← Text.after? (trimStart t) "/*"
  let (body, tail) ← splitFirst? "*/" inner
  return (t.takeWhile isBlank ++ '/' :: '*' :: (body ++ ['*', '/']), tail)

theorem cutComment?_append {g inner body tail : Text} (hg : Blank g)
    (h : splitFirst? "*/" inner = some (body, tail)) :
    cutComment? (g ++ '/' :: '*' :: inner) = some (g ++ '/' :: '*' :: (body ++ ['*', '/']), tail) := by
  have hslash : isBlank '/' = false := by decide
  have htrim : trimStart (g ++ '/' :: '*' :: inner) = '/' :: '*' :: inner := by
    rw [Text.trimStart_blank_append hg, Text.trimStart_cons hslash]
  have htake : (g ++ '/' :: '*' :: inner).takeWhile isBlank = g := by
    rw [List.takeWhile_append_of_pos hg]
    simp [hslash]
  have hafter : Text.after? ('/' :: '*' :: inner) "/*" = some inner := Text.after?_append "/*" inner
  simp only [cutComment?, htrim, hafter, htake, h, Option.bind_eq_bind, Option.bind_some]
  rfl

section Region

variable {ls : List Text} {i k : Nat}

theorem joinLines_concat {ls : List Text} (hne : ls ≠ []) (line : Text) :
    joinLines (ls ++ [line]) = joinLines ls ++ '\n' :: line := by
  rw [joinLines, Text.intercalate_append hne (List.cons_ne_nil line []), joinLines]
  simp

theorem joined_self (hk : k < ls.length) : joinLines (between ls k (k + 1)) = lineAt ls k := by
  rw [between_succ (getElem?_lineAt hk) (Nat.le_refl k), between_self]
  simp [joinLines]

theorem joined_succ (hik : i < k) (hk : k < ls.length) :
    joinLines (between ls i (k + 1)) = joinLines (between ls i k) ++ '\n' :: lineAt ls k := by
  have hne : between ls i k ≠ [] := by
    rw [between, ne_eq, List.drop_eq_nil_iff, List.length_take]
    omega
  rw [between_succ (getElem?_lineAt hk) (Nat.le_of_lt hik), joinLines_concat hne]

/-- On the line that opens a comment, the blanks at the end of the line do not count. -/
theorem exists_inner_of_line {line : Text} (h : startsWith (trim line) "/*" = true) :
    ∃ g inner, Blank g ∧ line = g ++ '/' :: '*' :: inner ∧
      contains inner "*/" = contains ((trim line).drop 2) "*/" := by
  obtain ⟨g, g', hg, hg', hline⟩ := Text.exists_trim_append line
  rw [startsWith, List.isPrefixOf_iff_prefix] at h
  obtain ⟨r, hr⟩ := h
  have hr : trim line = '/' :: '*' :: r := hr.symm
  refine ⟨g, r ++ g', hg, by rw [hr] at hline; simpa using hline, ?_⟩
  rw [hr, List.drop_succ_cons, List.drop_succ_cons, List.drop_zero]
  cases g' with
  | nil => rw [List.append_nil]
  | cons c g' =>
    have hne : c ∉ ("*/" : Text) := fun hmem => by
      have hblank := hg' c List.mem_cons_self
      have hmark : c = '*' ∨ c = '/' := by simpa using hmem
      rcases hmark with rfl | rfl <;> revert hblank <;> decide
    have hstar : '*' ∉ g' := fun hmem => by
      have hblank := hg' '*' (List.mem_cons_of_mem c hmem)
      revert hblank
      decide
    rw [contains, contains]
    cases hsplit : splitFirst? "*/" r with
    | some p => rw [Text.splitFirst?_append_of_some hne hsplit]; rfl
    | none =>
      have hnone : splitFirst? "*/" g' = none := Text.splitFirst?_eq_none hstar
      rw [Text.splitFirst?_append_of_none hne hsplit, hnone]
      rfl

/-- The lines of a comment that no line has closed yet. -/
theorem CommentOpen.exists_inner (h : CommentOpen ls i k) (hik : i < k) (hk : k ≤ ls.length) :
    ∃ g inner, Blank g ∧ joinLines (between ls i k) = g ++ '/' :: '*' :: inner ∧
      splitFirst? "*/" inner = none := by
  induction hik with
  | refl =>
    obtain ⟨g, inner, hg, hline, hcontains⟩ := exists_inner_of_line h.opens
    have hunclosed := h.unclosed i (Nat.le_refl i) (Nat.lt_succ_self i)
    rw [closesComment, if_pos rfl, ← hcontains] at hunclosed
    rw [joined_self hk]
    exact ⟨g, inner, hg, hline, Text.contains_eq_false_iff.1 hunclosed⟩
  | @step k hik ih =>
    have hik : i < k := hik
    obtain ⟨g, inner, hg, hjoined, hnone⟩ :=
      ih ⟨h.opens, fun j hij hj => h.unclosed j hij (by omega)⟩ (by omega)
    have hunclosed := h.unclosed k (by omega) (Nat.lt_succ_self k)
    rw [closesComment_of_lt hik, Text.contains_eq_false_iff] at hunclosed
    refine ⟨g, inner ++ '\n' :: lineAt ls k, hg, by rw [joined_succ hik hk, hjoined]; simp, ?_⟩
    rw [Text.splitFirst?_append_of_none (by decide) hnone, hunclosed, Option.map_none]

/-- **The text of a comment** is blanks, the comment, and the end of its last line. -/
theorem Part.Spans.exists_inner {doc : Bool} {region : Span} (h : Part.Spans ls (.comment doc) region) :
    ∃ g inner body tail, Blank g ∧ region.joined ls = g ++ '/' :: '*' :: inner ∧
      splitFirst? "*/" inner = some (body, tail) ∧ tail <:+ lineAt ls region.last := by
  cases h with
  | comment hle hlt hopen hcloses =>
    rcases Nat.eq_or_lt_of_le hle with heq | hfirst
    · obtain ⟨g, inner, hg, hline, hcontains⟩ := exists_inner_of_line hopen.opens
      rw [← heq, closesComment, if_pos rfl, ← hcontains] at hcloses
      obtain ⟨⟨body, tail⟩, hsplit⟩ := Option.isSome_iff_exists.1 hcloses
      have hinner : inner = body ++ ['*', '/'] ++ tail := Text.eq_append_of_splitFirst? hsplit
      rw [Span.joined, ← heq, joined_self (heq ▸ hlt)]
      refine ⟨g, inner, body, tail, hg, hline, hsplit, g ++ '/' :: '*' :: (body ++ ['*', '/']), ?_⟩
      rw [hline, hinner]
      simp
    · obtain ⟨g, inner, hg, hjoined, hnone⟩ := hopen.exists_inner hfirst (Nat.le_of_lt hlt)
      rw [closesComment_of_lt hfirst] at hcloses
      obtain ⟨⟨body, tail⟩, hsplit⟩ := Option.isSome_iff_exists.1 hcloses
      have hline : lineAt ls region.last = body ++ ['*', '/'] ++ tail :=
        Text.eq_append_of_splitFirst? hsplit
      refine ⟨g, inner ++ '\n' :: lineAt ls region.last, inner ++ '\n' :: body, tail, hg, ?_, ?_,
        body ++ ['*', '/'], hline.symm⟩
      · rw [Span.joined, joined_succ hfirst hlt, hjoined]
        simp
      · rw [Text.splitFirst?_append_of_none (by decide) hnone, hsplit, Option.map_some]

theorem prefix_joined (hik : i ≤ k) (hk : k < ls.length) :
    lineAt ls i <+: joinLines (between ls i (k + 1)) := by
  induction hik with
  | refl => exact ⟨[], by rw [joined_self hk, List.append_nil]⟩
  | step hik ih =>
    have hline := joined_succ (Nat.lt_succ_of_le hik) hk
    exact (ih (Nat.lt_of_succ_lt hk)).trans ⟨_, hline.symm⟩

/-- The text of a doc comment starts with its mark. -/
theorem Part.Spans.startsWith_joined {region : Span} (h : Part.Spans ls (.comment true) region) :
    startsWith (trimStart (region.joined ls)) "/**" = true := by
  have hdoc : startsWith (trim (lineAt ls region.first)) "/**" = true := by
    have hpart := h.eq_ofLine
    rw [Part.ofLine] at hpart
    split at hpart
    · exact (Part.comment.inj hpart).symm
    · split at hpart
      · cases hpart
      · split at hpart <;> cases hpart
  rw [startsWith, List.isPrefixOf_iff_prefix] at hdoc
  obtain ⟨r, hr⟩ := hdoc
  obtain ⟨g, g', hg, -, hline⟩ := Text.exists_trim_append (lineAt ls region.first)
  obtain ⟨more, hmore⟩ := prefix_joined h.first_le_last h.last_lt
  have htext : region.joined ls = g ++ '/' :: '*' :: '*' :: (r ++ (g' ++ more)) := by
    rw [Span.joined, ← hmore, hline, ← hr]
    simp
  rw [htext, Text.trimStart_blank_append hg, Text.trimStart_cons (by decide)]
  rfl

end Region

/-! ## The comment of a declaration -/

/-- **What of the comment of a declaration is code.** Its text is one doc comment, in which nothing is
code but blanks, and what stands behind that on the same line of the source. So it is free of code
exactly when what stands there is. -/
theorem comment_code {source c : Text} {b : Block} (hb : b ∈ blocks source) (hc : b.comment = some c) :
    ∃ head tail, cutComment? c = some (head, tail) ∧ c = head ++ tail ∧
      startsWith (trimStart c) "/**" = true ∧ (∃ line ∈ lines source, tail <:+ line) ∧
      NoCode head ∧
      Code.chars c = Code.chars head ++ (Code.chars tail).map (fun x => (Text.size head + x.1, x.2)) ∧
      (NoCode c ↔ NoCode tail) := by
  obtain ⟨p, hp, hdeclaration⟩ := mem_blocks_iff.1 hb
  rw [comment_of_mem_located hp hdeclaration, pending_eq_some_iff (outside_of_mem_located hp)] at hc
  obtain ⟨region, habove, rfl⟩ := hc
  have hspans := habove.spans_region
  obtain ⟨g, inner, body, tail, hg, htext, hsplit, hsuffix⟩ := hspans.exists_inner
  have hline : lineAt (lines source) region.last ∈ lines source :=
    List.mem_of_getElem? (getElem?_lineAt hspans.last_lt)
  have hcut : region.joined (lines source) = g ++ '/' :: '*' :: (body ++ ['*', '/']) ++ tail := by
    rw [htext, Text.eq_append_of_splitFirst? hsplit]
    simp
  have hhead := Code.noCode_comment hg hsplit
  have hchars := Code.chars_comment_append hg hsplit tail
  refine ⟨g ++ '/' :: '*' :: (body ++ ['*', '/']), tail, ?_, hcut, hspans.startsWith_joined,
    ⟨_, hline, hsuffix⟩, hhead, by rw [hcut, hchars], ?_⟩
  · rw [htext, cutComment?_append hg hsplit]
  · rw [hcut, NoCode, hchars, List.forall_mem_append, List.forall_mem_map]
    exact ⟨fun h => h.2, fun h => ⟨hhead, h⟩⟩

/-- A declaration behind a doc comment on one line is taken for a part of the comment, and it goes with
the comment to the next declaration. -/
theorem comment_code_same_line :
    let source : Text := "/** doc */ export const a = 1\nexport const b = 2\n"
    let comment : Text := "/** doc */ export const a = 1"
    let tail : Text := " export const a = 1"
    let block : Block := ⟨some comment, "export const b = 2", .value .constKeyword, true⟩
    blocks source = [block] ∧ cutComment? comment = some (("/** doc */" : Text), tail) ∧
      ¬ NoCode comment := by
  intro source comment tail block
  have hblocks : blocks source = [block] := by decide
  have hcut : cutComment? comment = some (("/** doc */" : Text), tail) := by decide
  have htail : ¬ NoCode tail := by decide
  have hb : block ∈ blocks source := by rw [hblocks]; exact List.mem_singleton_self block
  obtain ⟨head, tail', hcut', -, -, -, -, -, hiff⟩ := comment_code (c := comment) hb rfl
  obtain rfl : tail = tail' := by
    rw [hcut] at hcut'
    exact (Prod.mk.inj (Option.some.inj hcut')).2
  exact ⟨hblocks, hcut, fun h => htail (hiff.1 h)⟩

end Source

end Ambient
