/-
How an import statement is cut.

With comments and layout out of the way, the reader cuts a statement at its path, at the `from` before
that, and at the mark of an import of types (`statement?_of_collapse`). The clause that is left is cut
at its braces (`clause?_append_braces`), and a name in them at its own mark and at its alias
(`namedBinding_type`, `aliased_as`). None of this looks into a name, which may be `type`, `from` or
`as` like any other.
-/
import Ambient.Import.Statement
import Ambient.Proofs.Code.Token
import Mathlib.Data.List.TakeWhile
import Mathlib.Data.Option.Basic

namespace Ambient.Import

open Code (Balanced)
open Text (Blank Solid collapse isBlank size trim trimEnd trimStart startsWith)

/-! ## Names in braces -/

section

variable {w v : Text} (hw : ∀ c ∈ w, isBlank c = false)
include hw

/-- A name holds no text with a space in it. -/
theorem not_infix_of_space {part : Text} (hpart : ' ' ∈ part) : ¬ part <:+: w :=
  fun h => absurd (hw ' ' (h.subset hpart)) (by decide)

theorem after?_type_eq_none_of_name : Text.after? w "type " = none := by
  cases h : Text.after? w "type " with
  | none => rfl
  | some rest =>
    exact absurd ⟨[], rest, (Text.eq_append_of_after? h).symm⟩ (not_infix_of_space hw (by decide))

/-- Up to its first space a text is a name, so it has the mark of types only if that name is `type`. -/
theorem after?_type_eq_none (hne : w ≠ "type") (t : Text) :
    Text.after? (w ++ ' ' :: t) "type " = none := by
  cases h : Text.after? (w ++ ' ' :: t) "type " with
  | none => rfl
  | some rest =>
    have hword : ∀ v : Text, (∀ c ∈ v, isBlank c = false) → ∀ u,
        (v ++ ' ' :: u).takeWhile (!isBlank ·) = v := by
      intro v hv u
      rw [List.takeWhile_append_of_pos (by simpa using hv)]
      simp [show isBlank ' ' = true by decide]
    have hcut : w ++ ' ' :: t = ("type" : Text) ++ ' ' :: rest := by
      simpa using Text.eq_append_of_after? h
    have htake := congrArg (List.takeWhile (!isBlank ·)) hcut
    rw [hword _ hw, hword _ (by decide)] at htake
    exact absurd htake hne

theorem splitFirst?_as_eq_none : Text.splitFirst? " as " w = none := by
  cases h : Text.splitFirst? " as " w with
  | none => rfl
  | some parts =>
    exact absurd ⟨_, _, (Text.eq_append_of_splitFirst? h).symm⟩ (not_infix_of_space hw (by decide))

theorem splitFirst?_as (t : Text) : Text.splitFirst? " as " (w ++ (" as " ++ t)) = some (w, t) := by
  induction w with
  | nil =>
    have hafter : Text.after? (' ' :: 'a' :: 's' :: ' ' :: t) " as " = some t :=
      Text.after?_append " as " t
    show Text.splitFirst? " as " (' ' :: 'a' :: 's' :: ' ' :: t) = some ([], t)
    rw [Text.splitFirst?, hafter]
  | cons c w ih =>
    obtain ⟨hc, hw⟩ := List.forall_mem_cons.1 hw
    have hnone : Text.after? (c :: (w ++ (" as " ++ t))) " as " = none := by
      refine Text.after?_eq_none ?_
      rintro rfl
      exact absurd hc (by decide)
    rw [List.cons_append, Text.splitFirst?, hnone, ih hw]
    rfl

end

/-- The binding of `imported as name`, behind a mark if there is one. -/
def aliased (t : Text) : Binding :=
  match Text.splitFirst? " as " t with
  | some (imported, name) => ⟨trim name, .named (trim imported)⟩
  | none => ⟨t, .named t⟩

theorem namedBinding_of_unmarked {t : Text} (h : Text.after? t "type " = none) :
    namedBinding t = aliased t := by
  rw [namedBinding, h]
  rfl

theorem namedBinding_type {t : Text} (ht : Solid t) : namedBinding ("type " ++ t) = aliased t := by
  have htrim : trimStart t = t := by simpa using ht.trimStart []
  rw [namedBinding, Text.after?_append, Option.map_some, htrim]
  rfl

theorem aliased_name {w : Text} (hw : ∀ c ∈ w, isBlank c = false) : aliased w = ⟨w, .named w⟩ := by
  rw [aliased, splitFirst?_as_eq_none hw]

theorem aliased_as {w v : Text} (hw : ∀ c ∈ w, isBlank c = false) (hw' : w ≠ []) (hv : Solid v) :
    aliased (w ++ (" as " ++ v)) = ⟨v, .named w⟩ := by
  rw [aliased, splitFirst?_as hw]
  simp only [Text.trim_solid hv, Text.trim_solid (Solid.of_forall hw' hw)]

/-! ## Clauses -/

/-- The bindings of a clause. -/
def clause? (clause : Text) : Option (List Binding) := do
  let (head, braces) ← splitBraces? clause
  let heads ← (Code.split ',' head).mapM headBinding?
  some (heads ++ (Code.split ',' braces).map namedBinding)

theorem split_nil : Code.split ',' [] = [] :=
  Code.split_of_blank .nil .nil

theorem headBinding?_name {name : Text} (h : name.head? ≠ some '*') :
    headBinding? name = some ⟨name, .defaultExport⟩ := by
  unfold headBinding?
  split
  · exact absurd rfl h
  · rfl

theorem headBinding?_star {g g' name : Text} (hg : Blank g) (hg' : Blank g') (hname : Solid name) :
    headBinding? ('*' :: (g ++ ("as" ++ (g' ++ name)))) = some ⟨name, .wholeModule⟩ := by
  have has : trimStart (g ++ ("as" ++ (g' ++ name))) = "as" ++ (g' ++ name) :=
    (Text.trimStart_blank_append hg _).trans (Text.trimStart_cons (by decide) _)
  have htrim : trim (g' ++ name) = name := by simpa using Text.trim_of_solid hg' hname .nil
  rw [headBinding?, has, Text.after?_append, Option.map_some, htrim]

theorem clause?_of_no_braces {t : Text} (h : '{' ∉ t) :
    clause? t = (Code.split ',' t).mapM headBinding? := by
  have hbrace : t.dropWhile (· != '{') = [] := by
    rw [List.dropWhile_eq_nil_iff]
    intro c hc
    have hne : c ≠ '{' := fun heq => h (heq ▸ hc)
    simpa using hne
  rw [clause?, splitBraces?, hbrace]
  simp [split_nil]

/-- The names in braces are read one by one, behind what stands before the braces. -/
theorem clause?_append_braces {t inner : Text} (ht : '{' ∉ t) (hinner : Balanced inner) :
    clause? (t ++ '{' :: (inner ++ ['}'])) = ((Code.split ',' t).mapM headBinding?).map
      (· ++ (Code.split ',' inner).map namedBinding) := by
  have hclose : Code.close? ('{' :: (inner ++ ['}'])) = some (1 + size inner) :=
    Code.close?_group rfl hinner []
  have hpos : ∀ c ∈ t, (c != '{') = true := by
    intro c hc
    have hne : c ≠ '{' := fun heq => ht (heq ▸ hc)
    simpa using hne
  have hbraces : splitBraces? (t ++ '{' :: (inner ++ ['}'])) = some (t, inner) := by
    simp [splitBraces?, List.dropWhile_append_of_pos hpos, List.takeWhile_append_of_pos hpos, hclose,
      Text.takeBytes_append]
  rw [clause?, hbraces, Option.map_eq_bind]
  rfl

/-! ## Statements -/

theorem skipTypeMark_of_none {t : Text} (h : Text.after? t "type " = none) : skipTypeMark t = t := by
  rw [skipTypeMark, h]

theorem skipTypeMark_type {t : Text} (ht : trimStart t = t) :
    skipTypeMark ("type " ++ t) = if startsWith t "from" then "type " ++ t else t := by
  rw [skipTypeMark, Text.after?_append]
  simp only [ht]

theorem splitPath?_quoted {mark : Char} (hmark : mark = '\'' ∨ mark = '"') {path : Text}
    (h : mark ∉ path) (t : Text) : splitPath? (t ++ mark :: (path ++ [mark])) = some (t, path) := by
  have hlast : (t ++ mark :: (path ++ [mark])).getLast? = some mark := by
    rw [← List.cons_append, ← List.append_assoc, List.getLast?_concat]
  have hbody : (t ++ mark :: (path ++ [mark])).dropLast.reverse = path.reverse ++ mark :: t.reverse := by
    rw [← List.cons_append, ← List.append_assoc, List.dropLast_concat]
    simp
  have hpath : ∀ c ∈ path.reverse, (c != mark) = true := by
    intro c hc
    have hne : c ≠ mark := fun heq => h (heq ▸ List.mem_reverse.1 hc)
    simpa using hne
  have hguard : (guard (mark = '\'' ∨ mark = '"') : Option Unit) = some () := by
    rw [guard, if_pos hmark]
    rfl
  rw [splitPath?, hlast]
  simp only [Option.bind_eq_bind, Option.bind_some, hguard, hbody,
    List.dropWhile_append_of_pos hpath, List.takeWhile_append_of_pos hpath]
  simp

theorem before?_from {g : Text} (hg : Blank g) (t : Text) :
    Text.before? (trimEnd (t ++ ("from" ++ g))) "from" = some t := by
  have hend : trimEnd (t ++ ("from" ++ g)) = t ++ "from" := by
    have hm := Text.trimEnd_concat (c := 'm') (by decide) (t ++ "fro")
    rw [← List.append_assoc, Text.trimEnd_append_blank hg]
    simpa using hm
  rw [hend, Text.before?_append]

/-- What stands before a semicolon at the end. -/
theorem trimEnd_trimEndWhile {t e : Text} (ht : ∃ u c, t = u ++ [c] ∧ isBlank c = false ∧ c ≠ ';')
    (he : e = [] ∨ ∃ g, Blank g ∧ e = g ++ [';']) :
    trimEnd (Text.trimEndWhile (· == ';') (t ++ e)) = t := by
  obtain ⟨u, c, rfl, hblank, hc⟩ := ht
  have hkeep : ∀ {c : Char}, c ≠ ';' → ∀ u : Text,
      Text.trimEndWhile (· == ';') (u ++ [c]) = u ++ [c] := fun hc u =>
    Text.trimEndWhile_concat (by simpa using hc) u
  rcases he with rfl | ⟨g, hg, rfl⟩
  · rw [List.append_nil, hkeep hc, Text.trimEnd_concat hblank]
  · have hdrop : ∀ u : Text, Text.trimEndWhile (· == ';') (u ++ [';']) =
        Text.trimEndWhile (· == ';') u := by
      intro u
      simp [Text.trimEndWhile]
    have hgap : Text.trimEndWhile (· == ';') (u ++ [c] ++ g) = u ++ [c] ++ g := by
      rcases List.eq_nil_or_concat g with rfl | ⟨g, d, rfl⟩
      · rw [List.append_nil, hkeep hc]
      · have hd : d ≠ ';' := by
          rintro rfl
          exact absurd (hg ';' (by simp)) (by decide)
        rw [List.concat_eq_append, ← List.append_assoc, hkeep hd]
    rw [← List.append_assoc, hdrop, hgap, Text.trimEnd_append_blank hg, Text.trimEnd_concat hblank]

/-- A statement whose comments and layout are out of the way, in terms of what stands between `import`
and the path. -/
theorem statement?_of_collapse {t rest front path e : Text} {mark : Char}
    (hmark : mark = '\'' ∨ mark = '"') (hpath : mark ∉ path)
    (he : e = [] ∨ ∃ g, Blank g ∧ e = g ++ [';'])
    (hcollapse : collapse (Code.stripComments t) = "import" ++ (rest ++ mark :: (path ++ [mark])) ++ e)
    (hskip : skipTypeMark (trimStart (rest ++ mark :: (path ++ [mark]))) =
      front ++ mark :: (path ++ [mark])) :
    statement? t = (Text.before? (trimEnd front) "from").bind fun clause =>
      if trim clause = [] then none else (clause? (trim clause)).map (path, ·) := by
  have hend : ∃ u c, ("import" : Text) ++ (rest ++ mark :: (path ++ [mark])) = u ++ [c] ∧
      isBlank c = false ∧ c ≠ ';' := by
    refine ⟨"import" ++ (rest ++ mark :: path), mark, by simp, ?_⟩
    rcases hmark with rfl | rfl <;> decide
  rw [statement?, hcollapse, trimEnd_trimEndWhile hend he, Text.after?_append]
  simp only [Option.bind_eq_bind, Option.bind_some, hskip, splitPath?_quoted hmark hpath]
  have hguard : (guard True : Option Unit) = some () := rfl
  congr 1
  funext clause
  by_cases hempty : trim clause = []
  · simp [hempty]
  · simp [hempty, hguard, clause?, Option.map_bind]

end Ambient.Import
