/-
Where the lines of a text stand in it.

The full lines of a text make it up, and only the end of a full line holds a line feed
(`flatten_fullLines`, `eq_of_mem_fullLines`). The content of a line starts it, and holds no line feed
(`lineContent_spec`). So the text before a line is empty or ends in a line feed, and the content of
the line follows it (`exists_line_split`). What stands between the line feeds is taken off line by line
(`lined_splitOn`).
-/
import Ambient.Text.Basic

namespace Ambient.Text

theorem after?_append (head rest : Text) : after? (head ++ rest) head = some rest := by
  induction head with
  | nil => simp [after?]
  | cons c head ih => simp [after?, ih]

theorem before?_append (t tail : Text) : before? (t ++ tail) tail = some t := by
  simp [before?, after?_append]

theorem eq_append_of_before? {t tail rest : Text} (h : before? t tail = some rest) :
    t = rest ++ tail := by
  obtain ⟨r, hr, rfl⟩ := Option.map_eq_some_iff.1 h
  have := congrArg List.reverse (eq_append_of_after? hr)
  simpa using this

theorem flatten_fullLines (t : Text) : (fullLines t).flatten = t := by
  induction t with
  | nil => rfl
  | cons c t ih =>
    simp only [fullLines]
    split
    · simp [ih]
    · split
      · rename_i hlines
        rw [← ih, hlines]
        rfl
      · rename_i line rest hlines
        rw [← ih, hlines]
        rfl

theorem eq_of_mem_fullLines {t line : Text} (h : line ∈ fullLines t) :
    ∃ body : Text, '\n' ∉ body ∧ (line = body ∨ line = body ++ ['\n']) := by
  induction t generalizing line with
  | nil => simp [fullLines] at h
  | cons c t ih =>
    simp only [fullLines] at h
    split at h
    · rename_i hc
      rcases List.mem_cons.1 h with rfl | h
      · exact ⟨[], by simp, .inr (by simp [hc])⟩
      · exact ih h
    · rename_i hc
      split at h
      · obtain rfl := List.mem_singleton.1 h
        exact ⟨[c], by simpa using Ne.symm hc, .inl rfl⟩
      · rename_i first rest hlines
        rcases List.mem_cons.1 h with rfl | h
        · obtain ⟨body, hbody, hfirst⟩ := ih (show first ∈ fullLines t by simp [hlines])
          refine ⟨c :: body, by simpa using ⟨Ne.symm hc, hbody⟩, ?_⟩
          rcases hfirst with rfl | rfl
          · exact .inl rfl
          · exact .inr rfl
        · exact ih (by simp [hlines, h])

/-- Every full line but the last one ends in a line feed. -/
theorem flatten_take_fullLines {t : Text} {i : Nat} (hpos : 0 < i) (hi : i < (fullLines t).length) :
    ∃ u : Text, ((fullLines t).take i).flatten = u ++ ['\n'] := by
  induction t generalizing i with
  | nil => simp [fullLines] at hi
  | cons c t ih =>
    obtain ⟨i, rfl⟩ := Nat.exists_eq_add_of_le' hpos
    simp only [fullLines] at hi ⊢
    split
    · rename_i hc
      rw [if_pos hc, List.length_cons] at hi
      rcases Nat.eq_zero_or_pos i with rfl | hpos
      · exact ⟨[], by simp [hc]⟩
      · obtain ⟨u, hu⟩ := ih hpos (by omega)
        exact ⟨c :: u, by simp [hu]⟩
    · rename_i hc
      rw [if_neg hc] at hi
      split
      · rename_i hlines
        rw [hlines] at hi
        simp at hi
      · rename_i line rest hlines
        rw [hlines] at hi
        obtain ⟨u, hu⟩ := ih (i := i + 1) (Nat.succ_pos i) (by rw [hlines]; simpa using hi)
        rw [hlines] at hu
        exact ⟨c :: u, by simpa using congrArg (c :: ·) hu⟩

/-- The content of a line starts it, and holds no line feed. -/
theorem lineContent_spec {t line : Text} (h : line ∈ fullLines t) :
    '\n' ∉ lineContent line ∧ ∃ ending, line = lineContent line ++ ending := by
  obtain ⟨body, hbody, rfl | rfl⟩ := eq_of_mem_fullLines h
  · have hcontent : lineContent line = line := by
      unfold lineContent
      split
      · rfl
      · rename_i rest hrest
        have hline := eq_append_of_before? hrest
        exact absurd (by simp [hline]) hbody
    rw [hcontent]
    exact ⟨hbody, [], by simp⟩
  · have hcontent : lineContent (body ++ ['\n']) = (before? body ['\r']).getD body := by
      simp only [lineContent, before?_append]
    rw [hcontent]
    cases hreturn : before? body ['\r'] with
    | none => exact ⟨hbody, ['\n'], rfl⟩
    | some rest =>
      have hrest := eq_append_of_before? hreturn
      refine ⟨fun hmem => hbody ?_, ['\r', '\n'], ?_⟩
      · rw [hrest]
        exact List.mem_append_left _ hmem
      · simp [hrest]

/-- **A line in its text**: what stands before it is empty or ends in a line feed, and the content
of the line follows. -/
theorem exists_line_split {t line : Text} {i : Nat} (h : (lines t)[i]? = some line) :
    '\n' ∉ line ∧ ∃ ending, t = ((fullLines t).take i).flatten ++ (line ++ ending) ∧
      (((fullLines t).take i).flatten = [] ∨
        ∃ u : Text, ((fullLines t).take i).flatten = u ++ ['\n']) := by
  simp only [lines, List.getElem?_map, Option.map_eq_some_iff] at h
  obtain ⟨full, hfull, rfl⟩ := h
  obtain ⟨hi, hget⟩ := List.getElem?_eq_some_iff.1 hfull
  obtain ⟨hfeed, ending, hending⟩ := lineContent_spec (List.mem_of_getElem? hfull)
  refine ⟨hfeed, ending ++ ((fullLines t).drop (i + 1)).flatten, ?_, ?_⟩
  · calc t = (fullLines t).flatten := (flatten_fullLines t).symm
      _ = ((fullLines t).take i ++ (fullLines t)[i] :: (fullLines t).drop (i + 1)).flatten := by
        rw [← List.drop_eq_getElem_cons hi, List.take_append_drop]
      _ = _ := by
        rw [hget, List.flatten_append, List.flatten_cons, ← List.append_assoc (lineContent full),
          ← hending]
  · rcases Nat.eq_zero_or_pos i with rfl | hpos
    · exact .inl rfl
    · exact .inr (flatten_take_fullLines hpos hi)

/-! ## Lines between line feeds -/

/-- A text and what stands between its line feeds. -/
inductive Lined : Text → List Text → Prop where
  | last {line : Text} (hfeed : '\n' ∉ line) : Lined line [line]
  | cons {line t : Text} {rest : List Text} (hfeed : '\n' ∉ line) (ht : Lined t rest) :
      Lined (line ++ '\n' :: t) (line :: rest)

theorem lined_splitOn (t : Text) : Lined t (t.splitOn '\n') := by
  induction t with
  | nil => exact .last List.not_mem_nil
  | cons c t ih =>
    rw [List.splitOn_cons_eq_if_modifyHead]
    by_cases hc : c = '\n'
    · rw [hc, if_pos (beq_self_eq_true _)]
      exact @Lined.cons [] t _ List.not_mem_nil ih
    · have hfeed : ∀ {line : Text}, '\n' ∉ line → '\n' ∉ c :: line := by
        intro line hline
        simp [hline, Ne.symm hc]
      rw [if_neg (by simpa using hc)]
      generalize t.splitOn '\n' = ls at ih
      cases ih with
      | last hline => exact .last (hfeed hline)
      | cons hline ht => exact .cons (hfeed hline) ht

namespace Lined

variable {t : Text} {ls : List Text}

theorem splitOn_eq (h : Lined t ls) : t.splitOn '\n' = ls := by
  induction h with
  | last hfeed => exact List.splitOn_eq_singleton hfeed
  | @cons line t rest hfeed _ ih =>
    have hsplit : (line ++ '\n' :: t).splitOn '\n' = line.splitOn '\n' ++ t.splitOn '\n' :=
      List.splitOnP_append_cons line t (beq_self_eq_true '\n')
    rw [hsplit, List.splitOn_eq_singleton hfeed, ih, List.singleton_append]

theorem unique {t' : Text} (h : Lined t ls) (h' : Lined t' ls) : t = t' := by
  calc t = ['\n'].intercalate (t.splitOn '\n') := (List.intercalate_splitOn '\n').symm
    _ = ['\n'].intercalate (t'.splitOn '\n') := by rw [h.splitOn_eq, h'.splitOn_eq]
    _ = t' := List.intercalate_splitOn '\n'

theorem length_eq (h : Lined t ls) : ls.length = t.count '\n' + 1 := by
  induction h with
  | last hfeed => simp [List.count_eq_zero_of_not_mem hfeed]
  | cons hfeed _ ih => simp [List.count_append, List.count_eq_zero_of_not_mem hfeed, ih]

end Lined

end Ambient.Text
