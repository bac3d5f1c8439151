/-
Whether the lines that open items are code of the whole source.

The scanner keeps no lexical state over the lines it skips, so an item may open inside a string, a
template or a comment that skipped code opened. It does so exactly when the source before its first
line leaves a string, a template or a comment open (`opening_mem_chars_iff`).
-/
import Ambient.Proofs.Code.Offsets
import Ambient.Proofs.Source.Spans
import Ambient.Proofs.Text.Lines
import Ambient.Proofs.Text.Spacing

namespace Ambient.Source

open Code (State IsQuote)
open Text (trim trimStart isBlank lines fullLines)

/-- The source before line `k`. -/
def sourceBefore (source : Text) (k : Nat) : Text :=
  ((fullLines source).take k).flatten

/-- The byte offset in the source of the first character of line `k` that is no blank. -/
def offsetOf (source : Text) (k : Nat) : Nat :=
  Text.size (sourceBefore source k) + Text.size ((lineAt (lines source) k).takeWhile isBlank)

/-! ## The first character of an opening line -/

/-- The characters that the words start with which open an item. -/
def IsInitial (c : Char) : Prop :=
  c = 'i' ∨ c = 'e' ∨ c = 't'

theorem head?_of_afterKeyword? {t rest : Text} {c : Char} {keyword : Text}
    (h : afterKeyword? t (c :: keyword) = some rest) : t.head? = some c := by
  simp only [afterKeyword?, Option.bind_eq_bind, Option.bind_eq_some_iff] at h
  obtain ⟨tail, htail, -⟩ := h
  rw [Text.eq_append_of_after? htail]
  rfl

theorem head?_of_opening? {t : Text} {opening : Opening} (h : opening? t = some opening) :
    ∃ c, IsInitial c ∧ t.head? = some c := by
  unfold opening? at h
  split at h
  · rename_i rest hrest
    exact ⟨'i', .inl rfl, head?_of_afterKeyword? hrest⟩
  · split at h
    · rename_i hexport
      obtain ⟨rest, hrest⟩ := Option.isSome_iff_exists.1 hexport
      exact ⟨'e', .inr (.inl rfl), head?_of_afterKeyword? hrest⟩
    · split at h
      · rename_i rest hrest
        exact ⟨'i', .inl rfl, head?_of_afterKeyword? hrest⟩
      · split at h
        · rename_i rest hrest
          exact ⟨'t', .inr (.inr rfl), head?_of_afterKeyword? hrest⟩
        · cases h

theorem IsInitial.not_isQuote {c : Char} (h : IsInitial c) : ¬ IsQuote c := by
  rcases h with rfl | rfl | rfl <;> (unfold IsQuote; decide)

theorem IsInitial.ne_slash {c : Char} (h : IsInitial c) : c ≠ '/' := by
  rcases h with rfl | rfl | rfl <;> decide

theorem head?_trimStart {t : Text} {c : Char} (h : (trim t).head? = some c) :
    (trimStart t).head? = some c :=
  Text.head?_of_head?_trimEnd h

/-! ## Opening lines in their source -/

/-- The first character of a line that starts with a keyword is code exactly when the line starts
in code. -/
theorem mem_chars_iff {source line : Text} {k : Nat} {c : Char}
    (hline : (lines source)[k]? = some line) (hc : (trimStart line).head? = some c)
    (hinitial : IsInitial c) :
    (offsetOf source k, c) ∈ Code.chars source ↔
      (State.after {} none (sourceBefore source k)).mode = .code := by
  obtain ⟨hfeed, ending, hsource, hstart⟩ := Text.exists_line_split hline
  obtain ⟨tail, htail⟩ : ∃ tail, trimStart line = c :: tail := List.head?_eq_some_iff.1 hc
  have hsplit : line = line.takeWhile isBlank ++ c :: tail := by
    rw [← htail]
    exact List.takeWhile_append_dropWhile.symm
  have hblanks : ∀ d ∈ line.takeWhile isBlank, isBlank d = true ∧ d ≠ '\n' := by
    intro d hd
    refine ⟨List.all_eq_true.1 List.all_takeWhile d hd, ?_⟩
    rintro rfl
    exact hfeed ((List.takeWhile_sublist _).mem hd)
  have hwhole : source = sourceBefore source k ++ (line.takeWhile isBlank ++ c :: (tail ++ ending)) := by
    rw [hsplit] at hsource
    simpa [sourceBefore] using hsource
  have hiff := Code.mem_chars_lineStart (u := tail ++ ending) hstart hblanks hinitial.not_isQuote
    hinitial.ne_slash
  rw [offsetOf, lineAt_eq hline]
  rw [← sourceBefore, ← hwhole] at hiff
  exact hiff

theorem lineStart_sourceBefore {source line : Text} {k : Nat}
    (hline : (lines source)[k]? = some line) :
    Code.LineStart (State.after {} none (sourceBefore source k)) :=
  have ⟨_, _, _, hstart⟩ := Text.exists_line_split hline
  (State.lineStart_after hstart none).1

/-- **The lines that open items are code of the source** exactly where the source before them leaves
no string, template or comment open. -/
theorem opening_mem_chars_iff (source : Text) {p : Span × Item} (hp : p ∈ located source) :
    p.2 ∈ scan source ∧
    ∃ c, (trimStart (lineAt (lines source) p.1.first)).head? = some c ∧
      ((offsetOf source p.1.first, c) ∈ Code.chars source ↔
        (State.after {} none (sourceBefore source p.1.first)).mode = .code) ∧
      ((offsetOf source p.1.first, c) ∉ Code.chars source ↔
        (∃ mark, IsQuote mark ∧
          (State.after {} none (sourceBefore source p.1.first)).mode = .quoted mark) ∨
        (State.after {} none (sourceBefore source p.1.first)).mode = .comment) := by
  have hitems : (located source).map Prod.snd = scan source :=
    Scanner.map_snd_located {} 0 (lines source)
  have hdescribes : p.1.Describes (lines source) p.2 :=
    ((standsAt_zero (lines source)).describes hp).2
  have hlt : p.1.first < (lines source).length :=
    Nat.lt_of_le_of_lt hdescribes.first_le_last hdescribes.last_lt
  have hline := List.getElem?_eq_getElem hlt
  obtain ⟨c, hinitial, hhead⟩ := head?_of_opening? hdescribes.opening
  have hc := head?_trimStart hhead
  have hiff := mem_chars_iff hline (by rwa [lineAt_eq hline] at hc) hinitial
  refine ⟨hitems ▸ List.mem_map_of_mem hp, c, hc, hiff, ?_⟩
  rw [hiff]
  cases lineStart_sourceBefore hline with
  | code h => simp [h]
  | quoted mark hmark h => simp [h, hmark]
  | comment h => simp [h]

/-- A line of a template, which opens a block although none of it is code. -/
theorem template_line_not_mem_chars :
    let source : Text := "const t = `\nexport const x = 1\n`\n"
    let block : Block := ⟨none, "export const x = 1", .value .constKeyword, true⟩
    (⟨1, 1⟩, .declaration block) ∈ located source ∧ blocks source = [block] ∧
      (offsetOf source 1, 'e') ∉ Code.chars source := by
  intro source block
  have hp : (⟨1, 1⟩, .declaration block) ∈ located source := by decide
  obtain ⟨-, c, hc, -, hhidden⟩ := opening_mem_chars_iff source hp
  obtain rfl : 'e' = c := by
    have he : (trimStart (lineAt (lines source) 1)).head? = some 'e' := by decide
    exact Option.some.inj (he.symm.trans hc)
  exact ⟨hp, by decide, hhidden.2 (.inl ⟨'`', .inr (.inr rfl), by decide⟩)⟩

end Ambient.Source
