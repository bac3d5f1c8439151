/-
Texts split at the commas outside all brackets.

A comma separates where the text before it ends in code and with all its brackets closed (`Closed`),
and behind such a comma the text is read as at its start. So every text is one item, or an item, a
comma and a text that is split in turn (`itemized_pieces`). From that it follows that a text is split
on both sides of a comma by itself, and that no item can be split any further (`split_commas`).
-/
import Ambient.Proofs.Code.Items

namespace Ambient.Code

open Text (Blank exists_trim_append isBlank size trim)

/-- Texts that end in code, with no bracket open. -/
structure Closed (t : Text) : Prop where
  mode : (State.after {} none t).mode = .code
  top : (Nesting.run {} (chars t)).atTop = true

/-- A text and the items between its commas, those in brackets apart. -/
inductive Itemized : Text → List Text → Prop where
  | last {t : Text} (hcommas : Lacks ',' t) : Itemized t [t]
  | cons {t u : Text} {rest : List Text} (ht : Closed t) (hcommas : Lacks ',' t)
      (hu : Itemized u rest) : Itemized (t ++ ',' :: u) (t :: rest)

/-- What may stand between two items and around them. -/
def IsGap (gap : Text) : Prop :=
  ∀ c ∈ gap, isBlank c = true ∨ c = ','

/-- The parts stand in the text one behind the other, and only blanks and commas stand around them. -/
inductive Spread : List Text → Text → Prop where
  | nil {gap : Text} (hgap : IsGap gap) : Spread [] gap
  | cons {gap p t : Text} {rest : List Text} (hgap : IsGap gap) (ht : Spread rest t) :
      Spread (p :: rest) (gap ++ (p ++ t))

/-! ## Commas that separate -/

theorem mem_of_mem_topsFrom {n : Nesting} {cs : List CodeChar} {x : CodeChar}
    (h : x ∈ topsFrom n cs) : x ∈ cs := by
  induction cs generalizing n with
  | nil => cases h
  | cons y cs ih =>
    rw [topsFrom] at h
    split at h
    · rcases List.mem_cons.1 h with rfl | h
      · exact List.mem_cons_self
      · exact List.mem_cons_of_mem _ (ih h)
    · exact List.mem_cons_of_mem _ (ih h)

theorem offset_mem_code {s : State} {offset i : Nat} {t : Text} {c : Char}
    (h : (i, c) ∈ s.code offset t) : offset ≤ i ∧ i < offset + size t := by
  obtain ⟨u, v, rfl, hi⟩ := exists_of_mem_code h
  have hpos := c.utf8Size_pos
  rw [Text.size_append, size]
  omega

theorem lacks_iff {d : Char} {t : Text} : Lacks d t ↔ ∀ x ∈ tops 0 t, x.2 ≠ d := by
  refine ⟨fun h => h 0, fun h offset x hx => ?_⟩
  have hshift : tops offset t = (tops 0 t).map fun x => (offset + x.1, x.2) :=
    (congrArg (topsFrom {}) (code_eq_shift offset t)).trans (topsFrom_shift {} offset (chars t))
  rw [hshift] at hx
  obtain ⟨y, hy, rfl⟩ := List.mem_map.1 hx
  exact h y hy

/-- A comma outside all brackets stands behind a closed text. -/
theorem closed_of_mem_tops {t u : Text} (h : (size t, ',') ∈ tops 0 (t ++ ',' :: u)) : Closed t := by
  have hsize : ','.utf8Size = 1 := by decide
  have hchars : chars (t ++ ',' :: u) = chars t ++ (State.after {} none t).code (size t) (',' :: u) := by
    rw [chars_eq_code, State.code_append (.of_head rfl t u), Nat.zero_add]
    rfl
  -- neither the text before the comma nor the one behind it has a character at its offset
  have hbefore : (size t, ',') ∉ topsFrom {} (chars t) := by
    intro hmem
    have hlt := (offset_mem_code (mem_of_mem_topsFrom hmem)).2
    omega
  have hbehind : ∀ (n : Nesting) (s : State), (size t, ',') ∉ topsFrom n (s.code (size t + 1) u) := by
    intro n s hmem
    have hle := (offset_mem_code (mem_of_mem_topsFrom hmem)).1
    omega
  rw [tops, ← chars_eq_codeAt, hchars, topsFrom_append] at h
  have h := (List.mem_append.1 h).resolve_left hbefore
  by_cases hmode : (State.after {} none t).mode = .code
  · refine ⟨hmode, ?_⟩
    rw [State.code_cons hmode (by decide) (by decide), topsFrom, hsize] at h
    split at h
    · assumption
    · exact absurd h (hbehind _ _)
  · have hrole := State.role_eq_hidden hmode (show ',' ≠ '\n' by decide) (u.head?.or none)
    rw [State.code, marks, hrole, hsize] at h
    exact absurd h (hbehind _ _)

theorem Closed.isPiece {t : Text} (h : Closed t) (hcommas : Lacks ',' t) :
    IsPiece t ∧ openAngles t = 0 := by
  obtain ⟨hbrackets, hangles⟩ := Nesting.atTop_iff.1 h.top
  exact ⟨⟨h.mode, hbrackets, hcommas 0⟩, hangles⟩

/-- Behind a comma that separates, brackets are counted from the start. -/
theorem Closed.of_append {t u : Text} (ht : Closed t) (hcommas : Lacks ',' t)
    (h : Closed (t ++ ',' :: u)) : Closed u := by
  obtain ⟨hpiece, hangles⟩ := ht.isPiece hcommas
  have hrun : Nesting.run {} (chars (t ++ ',' :: u)) =
      ((Nesting.run {} (chars t)).step ',').run (chars u) := by
    rw [code_append_restart rfl ht.mode, Nesting.run_append, code_eq_shift]
    exact Nesting.run_shift _ (size t + 1) (chars u)
  have halike := (hpiece.alike_step hangles (c := ',') (by decide)).run (chars u)
  have hmode := h.mode
  have htop := h.top
  rw [mode_after_restart rfl ht.mode] at hmode
  rw [hrun, Nesting.atTop_iff, halike.brackets, halike.angles] at htop
  exact ⟨hmode, Nesting.atTop_iff.2 htop⟩

/-! ## Items -/

/-- The first comma that separates. -/
theorem exists_of_not_lacks {t : Text} (h : ¬ Lacks ',' t) :
    ∃ u v, t = u ++ ',' :: v ∧ Closed u ∧ Lacks ',' u := by
  have hcomma : ∃ x ∈ tops 0 t, x.2 = ',' := by
    simpa [lacks_iff] using h
  obtain ⟨⟨i, c⟩, hmem, rfl⟩ := hcomma
  obtain ⟨u, v, rfl, rfl⟩ := exists_of_mem_chars (mem_of_mem_topsFrom hmem)
  by_cases hu : Lacks ',' u
  · exact ⟨u, v, rfl, closed_of_mem_tops hmem, hu⟩
  · -- the text before this comma has one that comes first
    obtain ⟨u, w, rfl, hclosed, hlacks⟩ := exists_of_not_lacks hu
    exact ⟨u, w ++ ',' :: v, by simp, hclosed, hlacks⟩
termination_by t.length

theorem itemized_pieces (t : Text) : Itemized t (pieces t) := by
  by_cases h : Lacks ',' t
  · rw [pieces_of_lacks h]
    exact .last h
  · obtain ⟨u, v, rfl, hclosed, hlacks⟩ := exists_of_not_lacks h
    obtain ⟨hpiece, hangles⟩ := hclosed.isPiece hlacks
    rw [hpiece.pieces_append hangles]
    exact .cons hclosed hlacks (itemized_pieces v)
termination_by t.length

namespace Itemized

variable {t u : Text} {ps qs : List Text}

theorem pieces_eq (h : Itemized t ps) : pieces t = ps := by
  induction h with
  | last hcommas => exact pieces_of_lacks hcommas
  | cons ht hcommas _ ih =>
    obtain ⟨hpiece, hangles⟩ := ht.isPiece hcommas
    rw [hpiece.pieces_append hangles, ih]

theorem lacks (h : Itemized t ps) : ∀ p ∈ ps, Lacks ',' p := by
  induction h with
  | last hcommas => exact List.forall_mem_singleton.2 hcommas
  | cons _ hcommas _ ih => exact List.forall_mem_cons.2 ⟨hcommas, ih⟩

/-- A comma behind a closed text separates the items on its sides. -/
theorem append (ht : Itemized t ps) (hclosed : Closed t) (hu : Itemized u qs) :
    Itemized (t ++ ',' :: u) (ps ++ qs) := by
  induction ht with
  | last hcommas => exact .cons hclosed hcommas hu
  | cons hfirst hcommas _ ih =>
    rw [List.append_assoc]
    exact .cons hfirst hcommas (ih (hfirst.of_append hcommas hclosed))

end Itemized

/-! ## Items in their text -/

theorem Spread.append {gap t : Text} {ps : List Text} (hgap : IsGap gap) (h : Spread ps t) :
    Spread ps (gap ++ t) := by
  have hgaps : ∀ {gap' : Text}, IsGap gap' → IsGap (gap ++ gap') := by
    intro gap' hgap' c hc
    exact (List.mem_append.1 hc).elim (hgap c) (hgap' c)
  cases h with
  | nil hgap' => exact .nil (hgaps hgap')
  | cons hgap' ht =>
    rw [← List.append_assoc]
    exact .cons (hgaps hgap') ht

/-- An item without its blanks, before what follows it. -/
theorem Spread.trim_cons {u : Text} {ts : List Text} (h : Spread ((ts.map trim).filter (!·.isEmpty)) u)
    (t : Text) : Spread (((t :: ts).map trim).filter (!·.isEmpty)) (t ++ u) := by
  have hblank : ∀ {g : Text}, Blank g → IsGap g := fun hg c hc => .inl (hg c hc)
  obtain ⟨g, g', hg, hg', ht⟩ := exists_trim_append t
  have hbehind := h.append (hblank hg')
  have hparts : t ++ u = g ++ (trim t ++ (g' ++ u)) := by
    calc t ++ u = (g ++ (trim t ++ g')) ++ u := congrArg (· ++ u) ht
      _ = g ++ (trim t ++ (g' ++ u)) := by simp only [List.append_assoc]
  rw [hparts, List.map_cons]
  by_cases hempty : trim t = []
  · rw [List.filter_cons_of_neg (by simp [hempty]), hempty]
    exact hbehind.append (hblank hg)
  · rw [List.filter_cons_of_pos (by simpa using hempty)]
    exact .cons (hblank hg) hbehind

theorem Itemized.spread {t : Text} {ps : List Text} (h : Itemized t ps) :
    Spread ((ps.map trim).filter (!·.isEmpty)) t := by
  induction h with
  | @last t _ =>
    have hnil : Spread ((([] : List Text).map trim).filter (!·.isEmpty)) [] :=
      .nil fun c hc => absurd hc List.not_mem_nil
    simpa using hnil.trim_cons t
  | @cons t u rest _ _ _ ih =>
    have hcomma : IsGap [','] := fun c hc => .inr (List.mem_singleton.1 hc)
    exact (ih.append hcomma).trim_cons t

/-! ## Items without their blanks -/

theorem lacks_of_blank_append {d : Char} {g t : Text} (hg : Blank g) (h : Lacks d (g ++ t)) :
    Lacks d t := by
  induction g with
  | nil => exact h
  | cons c g ih =>
    obtain ⟨hc, hg⟩ := List.forall_mem_cons.1 hg
    refine ih hg (lacks_iff.2 fun x hx => ?_)
    have htops := h 0
    rw [List.cons_append, tops_blank_cons hc] at htops
    exact htops (c.utf8Size + x.1, x.2) (List.mem_cons_of_mem _ (List.mem_map.2 ⟨x, hx, rfl⟩))

theorem lacks_of_append_blank {d : Char} {g t : Text} (hg : Blank g) (h : Lacks d (t ++ g)) :
    Lacks d t := by
  have hapart : Apart t g :=
    .inr fun c hc => not_isCommentSign_of_isBlank (hg c (List.mem_of_head? hc))
  refine lacks_iff.2 fun x hx => h 0 x ?_
  rw [tops, ← chars_eq_codeAt, chars_eq_code, State.code_append hapart, topsFrom_append]
  exact List.mem_append_left _ hx

theorem lacks_trim {d : Char} {t : Text} (h : Lacks d t) : Lacks d (trim t) := by
  obtain ⟨g, g', hg, hg', ht⟩ := exists_trim_append t
  rw [ht] at h
  exact lacks_of_append_blank hg' (lacks_of_blank_append hg h)

theorem split_of_lacks {t : Text} (h : Lacks ',' t) (hne : t ≠ []) (htrim : trim t = t) :
    split ',' t = [t] := by
  rw [split_eq_pieces, pieces_of_lacks h, List.map_singleton, htrim]
  simpa using hne

/-- **Splitting at commas**: a comma outside all brackets splits a text into what both sides of it are
split into. The parts of a text stand in it one behind the other, with nothing but blanks and commas
around them. None is empty, starts or ends with a blank or can be split. -/
theorem split_commas :
    (∀ a b, (size a, ',') ∈ tops 0 (a ++ ',' :: b) →
      split ',' (a ++ ',' :: b) = split ',' a ++ split ',' b) ∧
    ∀ t, Spread (split ',' t) t ∧
      ∀ p ∈ split ',' t, p ≠ [] ∧ trim p = p ∧ split ',' p = [p] := by
  refine ⟨fun a b h => ?_, fun t => ⟨(itemized_pieces t).spread, fun p hp => ?_⟩⟩
  · have hitems := (itemized_pieces a).append (closed_of_mem_tops h) (itemized_pieces b)
    rw [split_eq_pieces, hitems.pieces_eq, List.map_append, List.filter_append]
    rfl
  · have hne : p ≠ [] := ne_nil_of_mem_split hp
    rw [split_eq_pieces] at hp
    obtain ⟨q, hq, rfl⟩ := List.mem_map.1 (List.mem_filter.1 hp).1
    have hlacks : Lacks ',' (trim q) := lacks_trim ((itemized_pieces t).lacks q hq)
    exact ⟨hne, Text.trim_trim q, split_of_lacks hlacks hne (Text.trim_trim q)⟩

/-- Commas in type arguments, in a regular expression and in a string, around one that separates, and
a bracket that nothing opens. -/
theorem split_commas_mixed :
    let a : Text := " m: Map<A, B> = /[,(]/, ','"
    let b : Text := " f(x, y) , , g), h "
    (size a, ',') ∈ tops 0 (a ++ ',' :: b) ∧
      split ',' (a ++ ',' :: b) = split ',' a ++ split ',' b ∧
      Spread (split ',' b) b ∧ "g), h".toList ∈ split ',' b ∧ split ',' "g), h" = ["g), h".toList] := by
  intro a b
  have hcomma : (size a, ',') ∈ tops 0 (a ++ ',' :: b) := by decide
  have hmem : "g), h".toList ∈ split ',' b := by decide
  obtain ⟨hspread, hparts⟩ := split_commas.2 b
  exact ⟨hcomma, split_commas.1 a b hcomma, hspread, hmem, (hparts _ hmem).2.2⟩

end Ambient.Code
