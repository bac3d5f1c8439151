/-
Cutting a text that is made of parts: at the end of a part, and at the blanks around it.

A solid text starts and ends with a character that is no blank, so it is what trimming leaves of it
(`trim_of_solid`). A neat text is solid and has single spaces for its only blanks, so it is what
collapsing leaves of it (`collapse_of_neat`).
-/
import Ambient.Text.Basic

namespace Ambient.Text

/-- What is said of all characters of a text is decided for these, and not for all characters. -/
instance (priority := high) decidableForallMem (t : Text) (p : Char → Prop) [DecidablePred p] :
    Decidable (∀ c ∈ t, p c) :=
  List.decidableBAll p t

/-! ## Cutting at the end of a part -/

theorem takeBytes_append_of_le {t : Text} {n : Nat} (h : size t ≤ n) (u : Text) :
    takeBytes (t ++ u) n = t ++ takeBytes u (n - size t) := by
  induction t generalizing n with
  | nil => rfl
  | cons c t ih =>
    simp only [size] at h
    rw [List.cons_append, takeBytes, if_pos (by omega), ih (by omega), size, Nat.sub_sub]
    rfl

theorem takeBytes_zero (t : Text) : takeBytes t 0 = [] := by
  cases t with
  | nil => rfl
  | cons c t =>
    have := c.utf8Size_pos
    rw [takeBytes, if_neg (by omega)]

theorem takeBytes_append (t u : Text) : takeBytes (t ++ u) (size t) = t := by
  rw [takeBytes_append_of_le (Nat.le_refl _), Nat.sub_self, takeBytes_zero, List.append_nil]

theorem dropBytes_append (t u : Text) : dropBytes (t ++ u) (size t) = u := by
  have h := takeBytes_append_dropBytes (t ++ u) (size t)
  rw [takeBytes_append] at h
  exact List.append_cancel_left h

theorem dropBytes_append_cons (t : Text) (c : Char) (u : Text) :
    dropBytes (t ++ c :: u) (size t + c.utf8Size) = u := by
  have h := dropBytes_append (t ++ [c]) u
  simpa [size_append, size] using h

theorem after?_eq_none {c d : Char} {t head : Text} (h : c ≠ d) :
    after? (c :: t) (d :: head) = none := by
  simp [after?, h]

theorem before?_eq_none {c d : Char} {t tail : Text} (h : c ≠ d) :
    before? (t ++ [c]) (tail ++ [d]) = none := by
  simp [before?, after?, h]

theorem startsWith_eq_false {c d : Char} (h : c ≠ d) (t u : Text) :
    startsWith (c :: t) (d :: u) = false := by
  have hne : (d == c) = false := by simpa using Ne.symm h
  rw [startsWith, List.isPrefixOf, hne, Bool.false_and]

/-- Behind a character that `head` does not have, a text starts with `head` as it does without. -/
theorem startsWith_append_cons {c : Char} {head : Text} (hc : c ∉ head) (t u : Text) :
    startsWith (t ++ c :: u) head = startsWith t head := by
  induction head generalizing t with
  | nil => rfl
  | cons d head ih =>
    simp only [List.mem_cons, not_or] at hc
    cases t with
    | nil => exact startsWith_eq_false hc.1 u head
    | cons e t => exact congrArg ((d == e) && ·) (ih hc.2 t)

/-- Up to a character that `head` does not have, what follows `head` is the same whatever follows that
character. -/
theorem after?_append_cons {c : Char} {head : Text} (hc : c ∉ head) (t u : Text) :
    after? (t ++ c :: u) head = (after? t head).map (· ++ c :: u) := by
  induction head generalizing t with
  | nil => cases t <;> rfl
  | cons d head ih =>
    simp only [List.mem_cons, not_or] at hc
    cases t with
    | nil => simp [after?, hc.1]
    | cons e t =>
      by_cases he : e = d
      · simpa [after?, he] using ih hc.2 t
      · simp [after?, he]

theorem endsWith_append_cons {c : Char} {tail : Text} (hc : c ∉ tail) (t u : Text) :
    endsWith (t ++ c :: u) tail = endsWith u tail := by
  have hreverse : (t ++ c :: u).reverse = u.reverse ++ c :: t.reverse := by simp
  rw [endsWith, List.isSuffixOf, hreverse]
  exact startsWith_append_cons (by simpa using hc) u.reverse t.reverse

/-! ## Trimming -/

def Blank (t : Text) : Prop :=
  ∀ c ∈ t, isBlank c = true

/-- Texts that start and end with a character that is no blank. -/
structure Solid (t : Text) : Prop where
  head : ∃ c u, t = c :: u ∧ isBlank c = false
  last : ∃ c u, t = u ++ [c] ∧ isBlank c = false

theorem Blank.nil : Blank [] :=
  fun _ h => absurd h List.not_mem_nil

theorem Blank.space : Blank [' '] := by
  intro c hc
  rw [List.mem_singleton.1 hc]
  decide

theorem trimStart_blank_append {g : Text} (hg : Blank g) (t : Text) :
    trimStart (g ++ t) = trimStart t := by
  rw [trimStart, List.dropWhile_append_of_pos hg]
  rfl

theorem trimStart_cons {c : Char} (hc : isBlank c = false) (t : Text) : trimStart (c :: t) = c :: t := by
  simp [trimStart, hc]

theorem dropWhile_append_cons {p : Char → Bool} {c : Char} (hc : p c = false) (t u : Text) :
    (t ++ c :: u).dropWhile p = t.dropWhile p ++ c :: u := by
  induction t with
  | nil => simp [hc]
  | cons d t ih =>
    by_cases hd : p d = true
    · simp [hd, ih]
    · simp [hd]

theorem trimStart_append_cons {c : Char} (hc : isBlank c = false) (t u : Text) :
    trimStart (t ++ c :: u) = trimStart t ++ c :: u :=
  dropWhile_append_cons hc t u

theorem trimEnd_append_blank {g : Text} (hg : Blank g) (t : Text) :
    trimEnd (t ++ g) = trimEnd t := by
  have hreverse : ∀ c ∈ g.reverse, isBlank c = true := fun c hc => hg c (List.mem_reverse.1 hc)
  simp only [trimEnd, trimEndWhile, List.reverse_append, List.dropWhile_append_of_pos hreverse]

theorem trimEndWhile_concat {p : Char → Bool} {c : Char} (hc : p c = false) (t : Text) :
    trimEndWhile p (t ++ [c]) = t ++ [c] := by
  simp [trimEndWhile, hc]

theorem trimEnd_append_cons {c : Char} (hc : isBlank c = false) (t u : Text) :
    trimEnd (t ++ c :: u) = t ++ c :: trimEnd u := by
  have hreverse : (t ++ c :: u).reverse = u.reverse ++ c :: t.reverse := by simp
  rw [trimEnd, trimEndWhile, hreverse, List.dropWhile_append]
  split
  · rename_i hnil
    rw [List.isEmpty_iff] at hnil
    simp [trimEnd, trimEndWhile, hnil, hc]
  · simp [trimEnd, trimEndWhile]

theorem trimEnd_concat {c : Char} (hc : isBlank c = false) (t : Text) :
    trimEnd (t ++ [c]) = t ++ [c] :=
  trimEndWhile_concat hc t

theorem exists_trimEnd_append (t : Text) : ∃ g, Blank g ∧ t = trimEnd t ++ g := by
  refine ⟨(t.reverse.takeWhile isBlank).reverse, ?_, ?_⟩
  · intro c hc
    exact List.all_eq_true.1 List.all_takeWhile c (List.mem_reverse.1 hc)
  · calc t = t.reverse.reverse := t.reverse_reverse.symm
      _ = (t.reverse.takeWhile isBlank ++ t.reverse.dropWhile isBlank).reverse := by
        rw [List.takeWhile_append_dropWhile]
      _ = trimEnd t ++ (t.reverse.takeWhile isBlank).reverse := List.reverse_append

theorem trimEnd_trimEnd (t : Text) : trimEnd (trimEnd t) = trimEnd t := by
  obtain ⟨g, hg, hsplit⟩ := exists_trimEnd_append t
  have hblank := trimEnd_append_blank hg (trimEnd t)
  rw [← hsplit] at hblank
  exact hblank.symm

theorem head?_of_head?_trimEnd {t : Text} {c : Char} (h : (trimEnd t).head? = some c) :
    t.head? = some c := by
  obtain ⟨g, -, hsplit⟩ := exists_trimEnd_append t
  rw [hsplit, List.head?_append, h, Option.some_or]

theorem exists_trimEnd_eq_concat {t : Text} (h : trimEnd t ≠ []) :
    ∃ u c, trimEnd t = u ++ [c] ∧ isBlank c = false := by
  have hne : t.reverse.dropWhile isBlank ≠ [] := fun hnil => h (by simp [trimEnd, trimEndWhile, hnil])
  obtain ⟨c, u, hcu⟩ := List.exists_cons_of_ne_nil hne
  refine ⟨u.reverse, c, by simp [trimEnd, trimEndWhile, hcu], ?_⟩
  have := List.head_dropWhile_not isBlank hne
  simpa [hcu] using this

/-- Behind a text that is not blank, trimming cuts off blanks at the end alone. -/
theorem trim_append {t : Text} (h : trim t ≠ []) (u : Text) :
    ∃ g, Blank g ∧ trim (t ++ u) = trim t ++ trimEnd (g ++ u) := by
  obtain ⟨g, hg, hsplit⟩ := exists_trimEnd_append (trimStart t)
  obtain ⟨v, c, hlast, hc⟩ := exists_trimEnd_eq_concat h
  have hstart : trimStart (t ++ u) = trimStart t ++ u := by
    have hne : (List.dropWhile isBlank t).isEmpty = false := by
      rw [List.isEmpty_eq_false_iff]
      intro hnil
      exact h (by simp [trim, trimStart, hnil, trimEnd, trimEndWhile])
    rw [trimStart, List.dropWhile_append, hne]
    rfl
  refine ⟨g, hg, ?_⟩
  have hparts : trimStart t ++ u = v ++ c :: (g ++ u) := by
    rw [hsplit, hlast]
    simp
  rw [trim, hstart, hparts, trimEnd_append_cons hc, trim, hlast]
  simp

namespace Solid

variable {t u g g' : Text}

theorem trimStart (h : Solid t) (u : Text) : Text.trimStart (t ++ u) = t ++ u := by
  obtain ⟨c, v, rfl, hc⟩ := h.head
  exact trimStart_cons hc (v ++ u)

theorem trimEnd (h : Solid t) (u : Text) : Text.trimEnd (u ++ t) = u ++ t := by
  obtain ⟨c, v, rfl, hc⟩ := h.last
  rw [← List.append_assoc, trimEnd_concat hc]

theorem ne_nil (h : Solid t) : t ≠ [] := by
  obtain ⟨c, v, rfl, -⟩ := h.head
  exact List.cons_ne_nil c v

theorem singleton {c : Char} (hc : isBlank c = false) : Solid [c] :=
  ⟨⟨c, [], rfl, hc⟩, ⟨c, [], rfl, hc⟩⟩

/-- A text between two solid ones. -/
theorem append (ht : Solid t) (m : Text) (hu : Solid u) : Solid (t ++ (m ++ u)) := by
  obtain ⟨c, v, rfl, hc⟩ := ht.head
  obtain ⟨d, w, rfl, hd⟩ := hu.last
  exact ⟨⟨c, v ++ (m ++ (w ++ [d])), rfl, hc⟩, ⟨d, c :: v ++ (m ++ w), by simp, hd⟩⟩

/-- Texts without blanks. -/
theorem of_forall (hne : t ≠ []) (h : ∀ c ∈ t, isBlank c = false) : Solid t := by
  obtain ⟨c, v, rfl⟩ := List.exists_cons_of_ne_nil hne
  refine ⟨⟨c, v, rfl, h c List.mem_cons_self⟩, ?_⟩
  rcases List.eq_nil_or_concat (c :: v) with hnil | ⟨w, d, hw⟩
  · cases hnil
  · rw [List.concat_eq_append] at hw
    exact ⟨d, w, hw, h d (by simp [hw])⟩

end Solid

theorem trim_of_solid {g t g' : Text} (hg : Blank g) (ht : Solid t) (hg' : Blank g') :
    trim (g ++ (t ++ g')) = t := by
  rw [trim, trimStart_blank_append hg, ht.trimStart, trimEnd_append_blank hg']
  exact ht.trimEnd []

theorem trim_blank {g : Text} (hg : Blank g) : trim g = [] := by
  have h := trimStart_blank_append hg []
  rw [List.append_nil] at h
  rw [trim, h]
  rfl

theorem trim_solid {t : Text} (ht : Solid t) : trim t = t := by
  simpa using trim_of_solid Blank.nil ht Blank.nil

theorem exists_trim_append (t : Text) :
    ∃ g g', Blank g ∧ Blank g' ∧ t = g ++ (trim t ++ g') := by
  obtain ⟨g', hg', hend⟩ := exists_trimEnd_append (trimStart t)
  refine ⟨t.takeWhile isBlank, g', List.all_eq_true.1 List.all_takeWhile, hg', ?_⟩
  calc t = t.takeWhile isBlank ++ t.dropWhile isBlank := List.takeWhile_append_dropWhile.symm
    _ = t.takeWhile isBlank ++ (trim t ++ g') := congrArg (t.takeWhile isBlank ++ ·) hend

theorem solid_trim {t : Text} (h : trim t ≠ []) : Solid (trim t) := by
  obtain ⟨u, c, hlast, hc⟩ := exists_trimEnd_eq_concat h
  obtain ⟨d, v, hdv⟩ := List.exists_cons_of_ne_nil h
  refine ⟨⟨d, v, hdv, ?_⟩, ⟨c, u, hlast, hc⟩⟩
  have hstart : (trimStart t).head? = some d := by
    apply head?_of_head?_trimEnd
    rw [← trim, hdv, List.head?_cons]
  have hd := List.head?_dropWhile_not isBlank t
  rw [← trimStart, hstart] at hd
  simpa using hd

theorem trim_trim (t : Text) : trim (trim t) = trim t := by
  by_cases h : trim t = []
  · rw [h]
    rfl
  · exact trim_solid (solid_trim h)

theorem trim_blank_append {g : Text} (hg : Blank g) (t : Text) : trim (g ++ t) = trim t := by
  rw [trim, trimStart_blank_append hg, trim]

theorem trim_append_blank {g : Text} (hg : Blank g) (t : Text) : trim (t ++ g) = trim t := by
  obtain ⟨g₁, g₂, hg₁, hg₂, hsplit⟩ := exists_trim_append t
  have hend : Blank (g₂ ++ g) := List.forall_mem_append.2 ⟨hg₂, hg⟩
  have hcut : t ++ g = g₁ ++ (trim t ++ (g₂ ++ g)) := by
    rw [← List.append_assoc (trim t), ← List.append_assoc g₁, ← hsplit]
  by_cases h : trim t = []
  · have hblank : Blank (g₁ ++ (g₂ ++ g)) := List.forall_mem_append.2 ⟨hg₁, hend⟩
    rw [hcut, h, List.nil_append, trim_blank hblank]
  · rw [hcut, trim_of_solid hg₁ (solid_trim h) hend]

theorem trim_trimEnd (t : Text) : trim (trimEnd t) = trim t := by
  obtain ⟨g, hg, hsplit⟩ := exists_trimEnd_append t
  have htrim := trim_append_blank hg (trimEnd t)
  rw [← hsplit] at htrim
  exact htrim.symm

theorem leadingWord?_append_cons {c : Char} (hc : isWordChar c = false) (t u : Text) :
    leadingWord? (t ++ c :: u) = leadingWord? t := by
  have htake : (t ++ c :: u).takeWhile isWordChar = t.takeWhile isWordChar := by
    induction t with
    | nil => simp [hc]
    | cons d t ih =>
      by_cases hd : isWordChar d = true
      · simpa [hd] using ih
      · simp [hd]
  rw [leadingWord?, leadingWord?, htake]

theorem prefix_of_leadingWord? {t name : Text} (h : leadingWord? t = some name) : name <+: t := by
  have hname : t.takeWhile isWordChar = name := by
    rw [leadingWord?] at h
    split at h
    · cases h
    · exact Option.some.inj h
  rw [← hname]
  exact List.takeWhile_prefix isWordChar

/-! ## Collapsing -/

/-- Texts whose only blanks are single spaces between other characters. -/
inductive Neat : Text → Prop where
  | singleton {c : Char} (hc : isBlank c = false) : Neat [c]
  | cons {c : Char} {t : Text} (hc : isBlank c = false) (ht : Neat t) : Neat (c :: t)
  | space {c : Char} {t : Text} (hc : isBlank c = false) (ht : Neat t) : Neat (c :: ' ' :: t)

namespace Neat

variable {t u : Text}

theorem append (ht : Neat t) (hu : Neat u) : Neat (t ++ u) := by
  induction ht with
  | singleton hc => exact .cons hc hu
  | cons hc _ ih => exact .cons hc ih
  | space hc _ ih => exact .space hc ih

theorem append_space (ht : Neat t) (hu : Neat u) : Neat (t ++ ' ' :: u) := by
  induction ht with
  | singleton hc => exact .space hc hu
  | cons hc _ ih => exact .cons hc ih
  | space hc _ ih => exact .space hc ih

theorem of_forall (hne : t ≠ []) (h : ∀ c ∈ t, isBlank c = false) : Neat t := by
  induction t with
  | nil => exact absurd rfl hne
  | cons c t ih =>
    obtain ⟨hc, ht⟩ := List.forall_mem_cons.1 h
    cases t with
    | nil => exact .singleton hc
    | cons d t => exact .cons hc (ih (List.cons_ne_nil d t) ht)

theorem newline_not_mem (h : Neat t) : '\n' ∉ t := by
  have hne : ∀ {c : Char}, isBlank c = false → '\n' ≠ c := by
    rintro c hc rfl
    exact absurd hc (by decide)
  induction h with
  | singleton hc => simpa using hne hc
  | cons hc _ ih => simpa using ⟨hne hc, ih⟩
  | space hc _ ih => simpa using ⟨hne hc, ih⟩

/-- A list of neat texts, each with a sign and a space before the next. -/
theorem intercalate {d : Char} (hd : isBlank d = false) {ts : List Text} (hne : ts ≠ [])
    (h : ∀ t ∈ ts, Neat t) : Neat (List.intercalate [d, ' '] ts) := by
  induction ts with
  | nil => exact absurd rfl hne
  | cons t ts ih =>
    obtain ⟨ht, hts⟩ := List.forall_mem_cons.1 h
    cases ts with
    | nil => simpa using ht
    | cons t' ts =>
      rw [List.intercalate_cons_cons]
      have hsign := (ht.append (.singleton hd)).append_space (ih (List.cons_ne_nil t' ts) hts)
      simpa using hsign

theorem wrap {o c : Char} (ho : isBlank o = false) (hc : isBlank c = false) (h : t = [] ∨ Neat t) :
    Neat (o :: (t ++ [c])) := by
  rcases h with rfl | h
  · exact .cons ho (.singleton hc)
  · exact .cons ho (h.append (.singleton hc))

theorem solid (h : Neat t) : Solid t := by
  induction h with
  | singleton hc => exact .singleton hc
  | @cons c t hc _ ih => exact (Solid.singleton hc).append [] ih
  | @space c t hc _ ih => exact (Solid.singleton hc).append [' '] ih

end Neat

theorem words_append_blank {c : Char} (hc : isBlank c = true) (t u : Text) :
    words (t ++ c :: u) = words t ++ words u := by
  rw [words, List.splitOnP_append_cons t u hc, List.filter_append]
  rfl

theorem words_blank {g : Text} (hg : Blank g) : words g = [] := by
  induction g with
  | nil => rfl
  | cons c g ih =>
    obtain ⟨hc, hg⟩ := List.forall_mem_cons.1 hg
    rw [← List.nil_append (c :: g), words_append_blank hc, ih hg]
    rfl

theorem words_blank_append {g : Text} (hg : Blank g) (t : Text) : words (g ++ t) = words t := by
  induction g with
  | nil => rfl
  | cons c g ih =>
    obtain ⟨hc, hg⟩ := List.forall_mem_cons.1 hg
    rw [← ih hg]
    exact words_append_blank hc [] (g ++ t)

theorem words_append_blanks {g : Text} (hg : Blank g) (t : Text) : words (t ++ g) = words t := by
  cases g with
  | nil => rw [List.append_nil]
  | cons c g =>
    obtain ⟨hc, hg⟩ := List.forall_mem_cons.1 hg
    rw [words_append_blank hc, words_blank hg, List.append_nil]

/-- A character in front of a word joins it. -/
theorem words_cons {c d : Char} {t : Text} (hc : isBlank c = false) (hd : isBlank d = false) :
    words (c :: d :: t) = (words (d :: t)).modifyHead (c :: ·) := by
  obtain ⟨w, ws, hw⟩ := List.exists_cons_of_ne_nil (List.splitOnP_ne_nil isBlank t)
  simp only [words, List.splitOnP_cons_eq_if_modifyHead, hc, hd, hw, Bool.false_eq_true, if_false,
    List.modifyHead_cons, List.filter_cons, List.isEmpty_cons, Bool.not_false, if_true]

theorem intercalate_modifyHead {c : Char} {ws : List Text} (h : ws ≠ []) :
    List.intercalate [' '] (ws.modifyHead (c :: ·)) = c :: List.intercalate [' '] ws := by
  obtain ⟨w, ws, rfl⟩ := List.exists_cons_of_ne_nil h
  cases ws <;> simp [List.intercalate_cons_cons]

theorem collapse_of_neat {t : Text} (h : Neat t) : collapse t = t := by
  have hwords : words t ≠ [] ∧ List.intercalate [' '] (words t) = t := by
    induction h with
    | @singleton c hc => simp [words, List.splitOnP_cons_eq_if_modifyHead, hc]
    | @cons c t hc ht ih =>
      obtain ⟨d, u, rfl, hd⟩ := ht.solid.head
      rw [words_cons hc hd]
      exact ⟨by simpa using ih.1, by rw [intercalate_modifyHead ih.1, ih.2]⟩
    | @space c t hc ht ih =>
      have hone : words [c] = [[c]] := by simp [words, List.splitOnP_cons_eq_if_modifyHead, hc]
      obtain ⟨w, ws, hw⟩ := List.exists_cons_of_ne_nil ih.1
      have hsplit : words (c :: ' ' :: t) = [c] :: words t := by
        rw [← List.singleton_append, words_append_blank (by decide), hone, List.singleton_append]
      rw [hsplit]
      refine ⟨by simp, ?_⟩
      rw [hw, List.intercalate_cons_cons, ← hw, ih.2]
      rfl
  exact hwords.2

/-! ## Collapsed texts -/

theorem intercalate_append {sep : Char} {ts us : List Text} (hts : ts ≠ []) (hus : us ≠ []) :
    List.intercalate [sep] (ts ++ us) =
      List.intercalate [sep] ts ++ sep :: List.intercalate [sep] us := by
  induction ts with
  | nil => exact absurd rfl hts
  | cons t ts ih =>
    cases ts with
    | nil =>
      obtain ⟨u, us, rfl⟩ := List.exists_cons_of_ne_nil hus
      simp [List.intercalate_cons_cons]
    | cons t' ts =>
      have hrest := ih (List.cons_ne_nil t' ts)
      simp only [List.cons_append, List.intercalate_cons_cons, List.append_assoc] at hrest ⊢
      rw [hrest]

theorem words_ne_nil {t : Text} (h : Solid t) : words t ≠ [] := by
  obtain ⟨c, u, rfl, hc⟩ := h.head
  obtain ⟨w, ws, hw⟩ := List.exists_cons_of_ne_nil (List.splitOnP_ne_nil isBlank u)
  simp [words, List.splitOnP_cons_eq_if_modifyHead, hc, hw]

theorem not_isBlank_of_mem_splitOnP {t w : Text} (h : w ∈ t.splitOnP isBlank) :
    ∀ c ∈ w, isBlank c = false := by
  induction t generalizing w with
  | nil => simp_all
  | cons d t ih =>
    rw [List.splitOnP_cons_eq_if_modifyHead] at h
    split at h
    · rcases List.mem_cons.1 h with rfl | h
      · exact fun c hc => absurd hc List.not_mem_nil
      · exact ih h
    · rename_i hd
      obtain ⟨w', ws, hw⟩ := List.exists_cons_of_ne_nil (List.splitOnP_ne_nil isBlank t)
      rw [hw, List.modifyHead_cons] at h
      rcases List.mem_cons.1 h with rfl | h
      · exact List.forall_mem_cons.2 ⟨Bool.eq_false_iff.2 hd, ih (by simp [hw])⟩
      · exact ih (by simp [hw, h])

theorem neat_of_mem_words {t w : Text} (h : w ∈ words t) : Neat w := by
  obtain ⟨hw, hne⟩ := List.mem_filter.1 h
  exact .of_forall (by simpa using hne) (not_isBlank_of_mem_splitOnP hw)

/-- A collapsed text is neat. -/
theorem neat_collapse {t : Text} (h : Solid t) : Neat (collapse t) := by
  have hjoin : ∀ {ws : List Text}, ws ≠ [] → (∀ w ∈ ws, Neat w) → Neat (List.intercalate [' '] ws) := by
    intro ws hne hws
    induction ws with
    | nil => exact absurd rfl hne
    | cons w ws ih =>
      obtain ⟨hw, hws⟩ := List.forall_mem_cons.1 hws
      cases ws with
      | nil => simpa using hw
      | cons w' ws =>
        rw [List.intercalate_cons_cons]
        simpa using hw.append_space (ih (List.cons_ne_nil w' ws) hws)
  exact hjoin (words_ne_nil h) fun w hw => neat_of_mem_words hw

theorem collapse_append_space {t u : Text} (ht : Solid t) (hu : Solid u) :
    collapse (t ++ ' ' :: u) = collapse t ++ ' ' :: collapse u := by
  rw [collapse, words_append_blank (by decide), intercalate_append (words_ne_nil ht) (words_ne_nil hu)]
  rfl

theorem collapse_blanks {g g' : Text} (hg : Blank g) (t : Text) (hg' : Blank g') :
    collapse (g ++ (t ++ g')) = collapse t := by
  rw [collapse, words_blank_append hg, words_append_blanks hg', collapse]

namespace Neat

variable {t u : Text}

theorem of_append_right (h : Neat (t ++ u)) (hu : ∃ c v, u = c :: v ∧ isBlank c = false) :
    Neat u := by
  obtain ⟨d, v, rfl, hd⟩ := hu
  generalize hw : t ++ d :: v = w at h
  induction h generalizing t with
  | @singleton c hc =>
    cases t with
    | nil =>
      cases hw
      exact .singleton hc
    | cons b t => simp at hw
  | @cons c w hc hrest ih =>
    cases t with
    | nil =>
      cases hw
      exact .cons hc hrest
    | cons b t => exact ih (List.cons.inj hw).2
  | @space c w hc hrest ih =>
    cases t with
    | nil =>
      cases hw
      exact .space hc hrest
    | cons b t =>
      have hspace := (List.cons.inj hw).2
      cases t with
      | nil =>
        obtain ⟨rfl, -⟩ := List.cons.inj hspace
        exact absurd hd (by decide)
      | cons b t => exact ih (List.cons.inj hspace).2

theorem of_append_left (h : Neat (t ++ u)) (ht : ∃ c, t.getLast? = some c ∧ isBlank c = false) :
    Neat t := by
  generalize hw : t ++ u = w at h
  induction h generalizing t with
  | @singleton c hc =>
    cases t with
    | nil => simp at ht
    | cons b t =>
      simp only [List.cons_append, List.cons.injEq, List.append_eq_nil_iff] at hw
      obtain ⟨rfl, rfl, -⟩ := hw
      exact .singleton hc
  | @cons c w hc _ ih =>
    cases t with
    | nil => simp at ht
    | cons b t =>
      obtain ⟨rfl, hrest⟩ := List.cons.inj hw
      cases t with
      | nil => exact .singleton hc
      | cons d t => exact .cons hc (ih (by simpa using ht) hrest)
  | @space c w hc _ ih =>
    cases t with
    | nil => simp at ht
    | cons b t =>
      obtain ⟨rfl, hspace⟩ := List.cons.inj hw
      cases t with
      | nil => exact .singleton hc
      | cons d t =>
        obtain ⟨rfl, hrest⟩ := List.cons.inj hspace
        cases t with
        | nil =>
          obtain ⟨d, hlast, hd⟩ := ht
          obtain rfl : ' ' = d := Option.some.inj hlast
          exact absurd hd (by decide)
        | cons e t => exact .space hc (ih (by simpa using ht) hrest)

/-- What stands in a neat text, between other characters than blanks, is neat. -/
theorem of_part (h : Neat u) (ht : Solid t) (hpart : t <:+: u) : Neat t := by
  obtain ⟨a, b, rfl⟩ := hpart
  obtain ⟨c, v, hv, hc⟩ := ht.last
  have hlast : ∃ c, (a ++ t).getLast? = some c ∧ isBlank c = false :=
    ⟨c, by rw [hv, ← List.append_assoc, List.getLast?_concat], hc⟩
  exact (h.of_append_left hlast).of_append_right ht.head

end Neat

end Ambient.Text
