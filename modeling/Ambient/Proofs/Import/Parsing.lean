/-
What is read from an import statement, however it is laid out.

Once a statement has lost its layout, its names are read as they stand, with three exceptions. The
reader tells `type` and `from` from names only by the characters around them (`keepsMark`, `losesName`,
`Specifier.IsMisread`): a default export whose name starts with `from` keeps the mark of types in front
of it, and `type` is lost as a name before a blank and a comma, and before an alias. So a statement is
read right exactly when it has none of these (`Statement.reads_unless_misread`).
-/
import Ambient.Proofs.Import.Grammar
import Ambient.Proofs.Import.Reading

namespace Ambient.Import

open Code (Balanced Lacks Spacing isOrdinary)
open Text (Blank Solid isBlank startsWith trim trimStart)

/-! ## Names in braces -/

/-- Before an alias, the name `type` is taken for the mark of types. -/
def Specifier.IsMisread (s : Specifier) : Prop :=
  s.mark.isSome = false ∧ s.imported.text = "type" ∧ s.renamed.isSome = true

def Specifier.read (s : Specifier) : Binding :=
  match s.mark, s.renamed with
  | none, some a =>
    if s.imported.text = "type" then ⟨"as " ++ a.name.text, .named ("as " ++ a.name.text)⟩
    else s.binding
  | _, _ => s.binding

theorem aliased_after_type (name : Name) :
    aliased ("as " ++ name.text) = ⟨"as " ++ name.text, .named ("as " ++ name.text)⟩ := by
  have hnone : Text.splitFirst? " as " ("as " ++ name.text) = none := by
    cases h : Text.splitFirst? " as " ("as " ++ name.text) with
    | none => rfl
    | some parts =>
      -- a text with one space does not hold one with two
      have hcount := congrArg (List.count ' ') (Text.eq_append_of_splitFirst? h)
      have hname : List.count ' ' name.text = 0 :=
        List.count_eq_zero.2 fun hspace => absurd (name.not_isBlank ' ' hspace) (by decide)
      have hone : List.count ' ' ("as " : Text) = 1 ∧ List.count ' ' (" as " : Text) = 2 := by decide
      simp only [List.count_append, hname, hone.1, hone.2] at hcount
      omega
  rw [aliased, hnone]

/-- A name in braces without its mark, once its gaps are single spaces. -/
def Specifier.unmarked (s : Specifier) : Text :=
  match s.renamed with
  | some a => s.imported.text ++ (" as " ++ a.name.text)
  | none => s.imported.text

theorem Specifier.layout_flat (s : Specifier) :
    s.layout Spacing.flat = (if s.mark.isSome then ("type " : Text) else []) ++ s.unmarked := by
  unfold layout unmarked
  cases s.mark <;> cases s.renamed <;> simp [Space.flat]

theorem Specifier.aliased_unmarked (s : Specifier) : aliased s.unmarked = s.binding := by
  unfold unmarked binding
  cases s.renamed with
  | none => exact aliased_name s.imported.not_isBlank
  | some a => exact aliased_as s.imported.not_isBlank s.imported.ne_nil a.name.neat.solid

theorem Specifier.solid_unmarked (s : Specifier) : Solid s.unmarked := by
  have hneat := (Specifier.mk none s.imported s.renamed).neat
  rw [layout_flat] at hneat
  exact hneat.solid

theorem Specifier.namedBinding_layout (s : Specifier) :
    namedBinding (s.layout Spacing.flat) = s.read := by
  have hname := s.imported.not_isBlank
  have haliased := s.aliased_unmarked
  rw [layout_flat, read]
  cases s.mark with
  | some g => exact (namedBinding_type s.solid_unmarked).trans haliased
  | none =>
    unfold unmarked at haliased ⊢
    cases hrenamed : s.renamed with
    | none =>
      rw [hrenamed] at haliased
      exact (namedBinding_of_unmarked (after?_type_eq_none_of_name hname)).trans haliased
    | some a =>
      rw [hrenamed] at haliased
      by_cases htype : s.imported.text = "type"
      · have hsolid : Solid (("as " : Text) ++ a.name.text) :=
          (Solid.of_forall (t := "as") (by decide) (by decide)).append [' '] a.name.neat.solid
        simp only [htype, if_true]
        exact (namedBinding_type hsolid).trans (aliased_after_type a.name)
      · simp only [htype, if_false]
        exact (namedBinding_of_unmarked (after?_type_eq_none hname htype _)).trans haliased

theorem Specifier.read_eq_iff (s : Specifier) : s.read = s.binding ↔ ¬ s.IsMisread := by
  unfold read IsMisread
  cases s.mark with
  | some g => simp
  | none =>
    cases hrenamed : s.renamed with
    | none => simp
    | some a =>
      by_cases htype : s.imported.text = "type"
      · have hne : ("as " : Text) ++ a.name.text ≠ a.name.text := fun h =>
          absurd (List.append_left_eq_self.1 h) (by decide)
        simp only [htype, if_true, binding, hrenamed, Binding.mk.injEq, hne, false_and, Option.isSome_none,
          Option.isSome_some, and_self, not_true_eq_false]
      · simp only [htype, if_false, false_and, and_false, not_false_eq_true]

/-! ## Clauses -/

/-- Texts that a clause is not cut in. -/
def Uncut (t : Text) : Prop :=
  ∀ c ∈ t, isOrdinary c = true ∧ c ≠ ','

instance : DecidablePred Uncut :=
  fun t => inferInstanceAs (Decidable (∀ c ∈ t, isOrdinary c = true ∧ c ≠ ','))

namespace Uncut

variable {t u : Text}

theorem append (ht : Uncut t) (hu : Uncut u) : Uncut (t ++ u) :=
  List.forall_mem_append.2 ⟨ht, hu⟩

theorem balanced (h : Uncut t) : Balanced t :=
  .of_forall fun c hc => (h c hc).1

theorem lacks (h : Uncut t) : Lacks ',' t :=
  .of_forall h

theorem brace_not_mem (h : Uncut t) : '{' ∉ t :=
  fun hmem => absurd (h '{' hmem).1 (by decide)

theorem name (n : Name) : Uncut n.text :=
  fun _ hc => ⟨(n.part hc).1, (n.part hc).2.2.1⟩

theorem blank (h : Blank t) : Uncut t := fun c hc =>
  ⟨Code.isOrdinary_of_isBlank (h c hc), Code.State.ne_of_isBlank (h c hc) (by decide)⟩

end Uncut

/-- The part of a clause behind a comma, or at its start, is cut off as it is. -/
theorem split_append_solid {t part : Text}
    (ht : t = [] ∨ ∃ u gap, t = u ++ ',' :: gap ∧ Uncut u ∧ Blank gap) (hpart : Uncut part)
    (hsolid : Solid part) : Code.split ',' (t ++ part) = Code.split ',' t ++ [part] := by
  have hone : ∀ {gap : Text}, Blank gap → Code.split ',' (gap ++ part) = [part] := by
    intro gap hgap
    have hlacks : Lacks ',' (gap ++ (part ++ [])) := by
      simpa using ((Uncut.blank hgap).append hpart).lacks
    simpa using Code.split_of_solid hgap hsolid .nil hlacks
  rcases ht with rfl | ⟨u, gap, rfl, hu, hgap⟩
  · rw [split_nil]
    exact hone .nil
  · have hgap' := Uncut.blank hgap
    rw [List.append_assoc, List.cons_append, Code.split_append_cons hu.balanced hu.lacks
      (hgap'.append hpart).balanced, hone hgap, Code.split_append_cons hu.balanced hu.lacks
      hgap'.balanced, Code.split_of_blank hgap hgap'.lacks, List.append_nil]

theorem Specifier.uncut (s : Specifier) : Uncut (s.layout Spacing.flat) := by
  have hword : Uncut ("type " : Text) ∧ Uncut (" as " : Text) := ⟨by decide, by decide⟩
  rw [layout_flat]
  refine .append ?_ ?_
  · cases s.mark with
    | none => exact fun c hc => absurd hc List.not_mem_nil
    | some g => exact hword.1
  · unfold unmarked
    cases s.renamed with
    | none => exact .name s.imported
    | some a => exact (Uncut.name s.imported).append (hword.2.append (.name a.name))

theorem Specifiers.balanced (ss : Specifiers) : Balanced (ss.layout Spacing.flat) := by
  have hgap : ∀ g : Spacing, Balanced g.flat := fun g => (Uncut.blank g.blank_flat).balanced
  induction ss with
  | none g => exact hgap g
  | one g s g' => exact (hgap g).append (s.uncut.balanced.append (hgap g'))
  | more g s g' rest ih =>
    exact ((hgap g).append (s.uncut.balanced.append (hgap g'))).append (.char (by decide) ih)

/-- The commas between names in braces cut these apart, and one behind the last cuts nothing off. -/
theorem Specifiers.split_layout (ss : Specifiers) :
    Code.split ',' (ss.layout Spacing.flat) = ss.toList.map (Specifier.layout Spacing.flat) := by
  have hgap : ∀ g : Spacing, Uncut g.flat := fun g => .blank g.blank_flat
  have hone : ∀ (g : Spacing) (s : Specifier) (g' : Spacing),
      Uncut (g.flat ++ (s.layout Spacing.flat ++ g'.flat)) := fun g s g' =>
    (hgap g).append (s.uncut.append (hgap g'))
  have hsplit : ∀ (g : Spacing) (s : Specifier) (g' : Spacing),
      Code.split ',' (g.flat ++ (s.layout Spacing.flat ++ g'.flat)) = [s.layout Spacing.flat] :=
    fun g s g' => Code.split_of_solid g.blank_flat s.neat.solid g'.blank_flat (hone g s g').lacks
  induction ss with
  | none g => exact Code.split_of_blank g.blank_flat (hgap g).lacks
  | one g s g' => exact hsplit g s g'
  | more g s g' rest ih =>
    rw [layout, Code.split_append_cons (hone g s g').balanced (hone g s g').lacks rest.balanced, hsplit,
      ih]
    rfl

def Group.IsMisread : Group → Prop
  | .wholeModule .. => False
  | .named ss => ∃ s ∈ ss.toList, s.IsMisread

def Group.read : Group → List Binding
  | .wholeModule _ _ name => [⟨name.text, .wholeModule⟩]
  | .named ss => ss.toList.map Specifier.read

theorem Group.read_eq_iff (g : Group) : g.read = g.bindings ↔ ¬ g.IsMisread := by
  cases g with
  | wholeModule => simp [read, bindings, IsMisread]
  | named ss => simp [read, bindings, IsMisread, List.map_inj_left, Specifier.read_eq_iff]

theorem Group.length_read (g : Group) : g.read.length = g.bindings.length := by
  cases g <;> simp [read, bindings]

/-- A group is read behind whatever a comma separates from it. -/
theorem Group.clause?_append (g : Group) {t : Text}
    (ht : t = [] ∨ ∃ u gap, t = u ++ ',' :: gap ∧ Uncut u ∧ Blank gap) :
    clause? (t ++ g.layout Spacing.flat) =
      ((Code.split ',' t).mapM headBinding?).map (· ++ g.read) := by
  have hbrace : '{' ∉ t := by
    rcases ht with rfl | ⟨u, gap, rfl, hu, hgap⟩
    · exact List.not_mem_nil
    · simp [hu.brace_not_mem, (Uncut.blank hgap).brace_not_mem]
  cases g with
  | named ss =>
    have hread : (ss.toList.map (Specifier.layout Spacing.flat)).map namedBinding =
        ss.toList.map Specifier.read := by
      rw [List.map_map]
      exact List.map_congr_left fun s _ => s.namedBinding_layout
    rw [layout, clause?_append_braces hbrace ss.balanced, ss.split_layout, hread]
    rfl
  | wholeModule gap space name =>
    have hsolid := (Group.wholeModule gap space name).neat.solid
    have hhead : headBinding? ((Group.wholeModule gap space name).layout Spacing.flat) =
        some ⟨name.text, .wholeModule⟩ :=
      headBinding?_star gap.blank_flat space.gap.blank_flat name.neat.solid
    have huncut : Uncut ((Group.wholeModule gap space name).layout Spacing.flat) := by
      have hstar : Uncut ['*'] ∧ Uncut ("as" : Text) := ⟨by decide, by decide⟩
      exact hstar.1.append ((Uncut.blank gap.blank_flat).append
        (hstar.2.append ((Uncut.blank space.gap.blank_flat).append (.name name))))
    rw [clause?_of_no_braces (by simp [hbrace, huncut.brace_not_mem]), split_append_solid ht huncut hsolid,
      List.mapM_append]
    cases (Code.split ',' t).mapM headBinding? <;> simp [hhead, read]

/-- Behind the mark of types, a default export whose name starts with `from` is not told from the word
itself, so the mark counts as part of the name. -/
def keepsMark (marked : Bool) (name : Name) : Bool :=
  marked && startsWith name.text "from"

/-- Without a mark, the name `type` is taken for one when a blank follows it. -/
def losesName (marked : Bool) (name : Name) (gap : Spacing) : Bool :=
  !marked && name.text == "type" && !gap.text.isEmpty

namespace Clause

/-- Whether a clause, marked or not, is read as something else. -/
def IsMisread (marked : Bool) : Clause → Prop
  | .default name => keepsMark marked name = true
  | .group g => g.IsMisread
  | .both name gap _ g => keepsMark marked name = true ∨ losesName marked name gap = true ∨ g.IsMisread

/-- The name that a default export is read under. -/
def readName (marked : Bool) (name : Name) : Text :=
  if keepsMark marked name then "type " ++ name.text else name.text

def read (marked : Bool) : Clause → List Binding
  | .default name => [⟨readName marked name, .defaultExport⟩]
  | .group g => g.read
  | .both name gap _ g =>
    (if losesName marked name gap then [] else [⟨readName marked name, .defaultExport⟩]) ++ g.read

/-- What the reader takes for the clause. -/
def seen (marked : Bool) : Clause → Text
  | .default name => readName marked name
  | .group g => g.layout Spacing.flat
  | .both name gap gap' g =>
    (if losesName marked name gap then [] else readName marked name ++ gap.flat) ++
      ',' :: (gap'.flat ++ g.layout Spacing.flat)

variable (marked : Bool)

theorem readName_eq_iff (name : Name) :
    readName marked name = name.text ↔ keepsMark marked name = false := by
  have hne : ("type " : Text) ++ name.text ≠ name.text := fun h =>
    absurd (List.append_left_eq_self.1 h) (by decide)
  unfold readName
  cases keepsMark marked name with
  | true => simp only [if_true, hne, Bool.true_eq_false]
  | false => simp only [Bool.false_eq_true, if_false]

theorem read_eq_iff (c : Clause) : c.read marked = c.bindings ↔ ¬ c.IsMisread marked := by
  cases c with
  | default name => simp [read, bindings, IsMisread, readName_eq_iff]
  | group g => exact g.read_eq_iff
  | both name gap gap' g =>
    cases hlost : losesName marked name gap with
    | true =>
      -- without its default export the clause has one binding less
      have hne : g.read ≠ ⟨name.text, .defaultExport⟩ :: g.bindings := fun h => by
        have hlength := congrArg List.length h
        rw [g.length_read, List.length_cons] at hlength
        omega
      simp [read, bindings, IsMisread, hlost, hne]
    | false =>
      simp [read, bindings, IsMisread, hlost, readName_eq_iff, g.read_eq_iff]

theorem uncut_readName (name : Name) : Uncut (readName marked name) := by
  unfold readName
  split
  · exact Uncut.append (t := "type ") (by decide) (.name name)
  · exact .name name

theorem solid_readName (name : Name) : Solid (readName marked name) := by
  unfold readName
  split
  · exact (Solid.of_forall (t := "type") (by decide) (by decide)).append [' '] name.neat.solid
  · exact name.neat.solid

theorem headBinding?_readName (name : Name) :
    headBinding? (readName marked name) = some ⟨readName marked name, .defaultExport⟩ := by
  refine headBinding?_name ?_
  unfold readName
  split
  · simp
  · exact fun h => (name.part (List.mem_of_mem_head? h)).2.2.2 rfl

theorem split_readName (name : Name) {gap : Text} (hgap : Blank gap) :
    Code.split ',' (readName marked name ++ gap) = [readName marked name] := by
  have huncut := (uncut_readName marked name).append (.blank hgap)
  exact Code.split_of_solid .nil (solid_readName marked name) hgap huncut.lacks

theorem clause?_seen (c : Clause) : clause? (c.seen marked) = some (c.read marked) := by
  cases c with
  | default name =>
    have hsplit := split_readName marked name .nil
    rw [List.append_nil] at hsplit
    rw [seen, read, clause?_of_no_braces (uncut_readName marked name).brace_not_mem, hsplit]
    simp [headBinding?_readName]
  | group g =>
    have hread := g.clause?_append (.inl rfl)
    rw [split_nil] at hread
    exact hread
  | both name gap gap' g =>
    have hgap' := Uncut.blank gap'.blank_flat
    have hfront : Uncut (if losesName marked name gap then [] else readName marked name ++ gap.flat) ∧
        Code.split ',' (if losesName marked name gap then [] else readName marked name ++ gap.flat) =
          if losesName marked name gap then [] else [readName marked name] := by
      split
      · exact ⟨fun c hc => absurd hc List.not_mem_nil, split_nil⟩
      · exact ⟨(uncut_readName marked name).append (.blank gap.blank_flat),
          split_readName marked name gap.blank_flat⟩
    have hread := g.clause?_append (.inr ⟨_, _, rfl, hfront.1, gap'.blank_flat⟩)
    rw [Code.split_append_cons hfront.1.balanced hfront.1.lacks hgap'.balanced, hfront.2,
      Code.split_of_blank gap'.blank_flat hgap'.lacks, List.append_nil, List.append_assoc,
      List.cons_append] at hread
    rw [seen, read, hread]
    split <;> simp [headBinding?_readName]

theorem solid_seen (c : Clause) : Solid (c.seen marked) := by
  cases c with
  | default name => exact solid_readName marked name
  | group g => exact g.neat.solid
  | both name gap gap' g =>
    rw [seen]
    split
    · exact (Solid.singleton (c := ',') (by decide)).append gap'.flat g.neat.solid
    · have h := (solid_readName marked name).append (gap.flat ++ ',' :: gap'.flat) g.neat.solid
      simpa using h

/-! ## The mark of types -/

theorem startsWith_from_append (name : Name) (gap : Spacing) (t : Text) :
    startsWith (name.text ++ gap.flat ++ ',' :: t) "from" = startsWith name.text "from" := by
  rw [Text.startsWith_append_cons (by decide)]
  unfold Spacing.flat
  split
  · rw [List.append_nil]
  · exact Text.startsWith_append_cons (by decide) _ _

/-- The mark of types is taken off, unless the clause seems to start with `from`. -/
theorem skipTypeMark_layout {c : Clause} {gap : Spacing} (hgap : c.endsWithName = true → gap.text ≠ [])
    (t : Text) :
    skipTypeMark ("type " ++ (c.layout Spacing.flat ++ (gap.flat ++ t))) =
      c.seen true ++ (gap.flat ++ t) := by
  rw [skipTypeMark_type (c.neat.solid.trimStart _)]
  cases c with
  | default name =>
    have hfrom : startsWith (name.text ++ (gap.flat ++ t)) "from" = startsWith name.text "from" := by
      rw [Spacing.flat_of_ne (hgap rfl)]
      exact Text.startsWith_append_cons (by decide) _ _
    rw [layout, hfrom, seen, readName, keepsMark, Bool.true_and]
    split <;> simp
  | group g =>
    have hfrom : startsWith (g.layout Spacing.flat ++ (gap.flat ++ t)) "from" = false := by
      cases g <;> exact Text.startsWith_eq_false (by decide) _ _
    rw [layout, hfrom, if_neg Bool.false_ne_true, seen]
  | both name gap₁ gap₂ g =>
    have hfrom := startsWith_from_append name gap₁ (gap₂.flat ++ g.layout Spacing.flat ++ (gap.flat ++ t))
    have hlost : losesName true name gap₁ = false := rfl
    simp only [layout, seen, hlost, readName, keepsMark, List.append_assoc, List.cons_append] at hfrom ⊢
    rw [hfrom]
    split <;> simp_all

/-- Without a mark of types nothing is taken off, unless the first name is `type` and seems to be
one. -/
theorem skipTypeMark_layout_of_unmarked {c : Clause} {gap : Spacing}
    (hgap : c.endsWithName = true → gap.text ≠ []) (t : Text) :
    skipTypeMark (c.layout Spacing.flat ++ (gap.flat ++ ("from" ++ t))) =
      c.seen false ++ (gap.flat ++ ("from" ++ t)) := by
  cases c with
  | default name =>
    have hkeep : (Clause.default name).seen false = name.text := rfl
    rw [Spacing.flat_of_ne (hgap rfl), layout, hkeep]
    by_cases htype : name.text = "type"
    · rw [htype]
      exact skipTypeMark_type (Text.trimStart_cons (by decide) _)
    · exact skipTypeMark_of_none (after?_type_eq_none name.not_isBlank htype _)
  | group g =>
    refine skipTypeMark_of_none ?_
    cases g <;> exact Text.after?_eq_none (by decide)
  | both name gap₁ gap₂ g =>
    have hkeep : readName false name = name.text := rfl
    simp only [layout, seen, hkeep, List.append_assoc, List.cons_append]
    generalize gap₂.flat ++ (g.layout Spacing.flat ++ (gap.flat ++ ("from" ++ t))) = rest
    by_cases hgap₁ : gap₁.text = []
    · have hnone : Text.after? (name.text ++ ',' :: rest) "type " = none := by
        rw [Text.after?_append_cons (by decide), after?_type_eq_none_of_name name.not_isBlank]
        rfl
      simpa [losesName, Spacing.flat, hgap₁] using skipTypeMark_of_none hnone
    · rw [Spacing.flat_of_ne hgap₁, List.singleton_append]
      by_cases htype : name.text = "type"
      · have hlost : losesName false name gap₁ = true := by simp [losesName, htype, hgap₁]
        have hcomma : startsWith (',' :: rest) "from" = false := Text.startsWith_eq_false (by decide) _ _
        have hskip := skipTypeMark_type (t := ',' :: rest) (Text.trimStart_cons (by decide) _)
        rw [hcomma, if_neg Bool.false_ne_true] at hskip
        rw [hlost, if_pos rfl, htype]
        exact hskip
      · have hkept : losesName false name gap₁ = false := by
          simp only [losesName, beq_eq_false_iff_ne.2 htype, Bool.and_false, Bool.false_and]
        rw [hkept, if_neg Bool.false_ne_true, List.append_assoc, List.singleton_append]
        exact skipTypeMark_of_none (after?_type_eq_none name.not_isBlank htype _)

end Clause

theorem Phrase.skipTypeMark_layout (p : Phrase) (t : Text) :
    skipTypeMark (trimStart (p.layout Spacing.flat ++ t)) =
      p.clause.seen p.mark.isSome ++ (p.gap'.flat ++ ("from" ++ t)) := by
  have hclause := p.clause.neat.solid.trimStart (p.gap'.flat ++ ("from" ++ t))
  have hgap := p.apart
  unfold layout
  simp only [List.append_assoc]
  cases hmark : p.mark with
  | none =>
    rw [List.nil_append, Text.trimStart_blank_append p.gap.blank_flat, hclause]
    exact Clause.skipTypeMark_layout_of_unmarked p.apart' t
  | some g =>
    have htype : trimStart (g.gap.flat ++ ("type" ++ (p.gap.flat ++
        (p.clause.layout Spacing.flat ++ (p.gap'.flat ++ ("from" ++ t)))))) =
        "type " ++ (p.clause.layout Spacing.flat ++ (p.gap'.flat ++ ("from" ++ t))) := by
      rw [Text.trimStart_blank_append g.gap.blank_flat, Spacing.flat_of_ne (hgap (.inl (by simp [hmark])))]
      exact Text.trimStart_cons (by decide) _
    simp only [List.append_assoc, htype]
    exact Clause.skipTypeMark_layout p.apart' ("from" ++ t)

/-! ## Statements -/

namespace Statement

def IsMisread (s : Statement) : Prop :=
  ∃ p ∈ s.phrase, p.clause.IsMisread p.mark.isSome

def read? (s : Statement) : Option (Text × List Binding) :=
  s.phrase.map fun p => (s.path, p.clause.read p.mark.isSome)

theorem read?_eq_iff (s : Statement) : s.read? = s.bindings? ↔ ¬ s.IsMisread := by
  unfold read? bindings? IsMisread
  cases s.phrase with
  | none => simp
  | some p => simp [p.clause.read_eq_iff]

theorem statement?_text (s : Statement) : statement? s.text = s.read? := by
  have hpath : s.mark ∉ s.path := fun h => (s.isPath _ h).1 rfl
  have hending : s.ending.flat = [] ∨ ∃ g, Blank g ∧ s.ending.flat = g ++ [';'] := by
    unfold Ending.flat
    split
    · exact .inr ⟨_, s.ending.gap.blank_flat, rfl⟩
    · exact .inl rfl
  cases hphrase : s.phrase with
  | none =>
    have hskip : skipTypeMark (trimStart (s.front Spacing.flat ++ s.quoted)) = [] ++ s.quoted := by
      have hmark : isBlank s.mark = false ∧ s.mark ≠ 't' := by
        rcases s.isMark with h | h <;> rw [h] <;> decide
      rw [front, hphrase, List.nil_append, List.nil_append, Text.trimStart_blank_append s.gap.blank_flat,
        quoted, Text.trimStart_cons hmark.1]
      exact skipTypeMark_of_none (Text.after?_eq_none hmark.2)
    rw [statement?_of_collapse s.isMark hpath hending s.collapse_text hskip, read?, hphrase]
    rfl
  | some p =>
    have hskip : skipTypeMark (trimStart (s.front Spacing.flat ++ s.quoted)) =
        p.clause.seen p.mark.isSome ++ (p.gap'.flat ++ ("from" ++ s.gap.flat)) ++ s.quoted := by
      rw [front, hphrase, List.append_assoc, p.skipTypeMark_layout]
      simp
    have hsolid := p.clause.solid_seen p.mark.isSome
    have htrim : trim (p.clause.seen p.mark.isSome ++ p.gap'.flat) = p.clause.seen p.mark.isSome :=
      Text.trim_of_solid .nil hsolid p.gap'.blank_flat
    rw [statement?_of_collapse s.isMark hpath hending s.collapse_text hskip, ← List.append_assoc,
      before?_from s.gap.blank_flat, Option.bind_some, htrim, if_neg hsolid.ne_nil, Clause.clause?_seen,
      read?, hphrase]
    rfl

/-- **Import statements**, however they are laid out: what is read from one is known, and it is what
the statement binds unless the statement is misread. One without a clause binds nothing. -/
theorem reads_unless_misread (s : Statement) :
    statement? s.text = s.read? ∧ (statement? s.text = s.bindings? ↔ ¬ s.IsMisread) := by
  rw [s.statement?_text]
  exact ⟨rfl, s.read?_eq_iff⟩

end Statement

def Space.one : Space :=
  ⟨⟨[' '], .blank (by decide) .nil⟩, by decide⟩

/-- A default export of types whose name only starts with `from`. -/
def fromage : Statement where
  phrase := some
    { mark := some .one
      gap := Space.one.gap
      clause := .default ⟨"fromage", by decide, by decide⟩
      gap' := Space.one.gap
      apart := fun _ => by decide
      apart' := fun _ => by decide }
  gap := Space.one.gap
  mark := '\''
  path := "./x"
  ending := ⟨⟨[], .nil⟩, false, ⟨[], .nil⟩, none, by simp⟩
  isMark := .inl rfl
  isPath := by decide
  closed := .inl (by decide)

theorem fromage_misread : fromage.text = "import type fromage from './x'" ∧
    fromage.bindings? = some (("./x" : Text), [⟨"fromage", .defaultExport⟩]) ∧
    statement? fromage.text = some (("./x" : Text), [⟨"type fromage", .defaultExport⟩]) :=
  ⟨by decide, rfl, fromage.reads_unless_misread.1⟩

/-- A comment behind a string that a backslash keeps open is not seen. -/
example : statement? "import a from 'x\\' // c" = none := by decide

end Ambient.Import
