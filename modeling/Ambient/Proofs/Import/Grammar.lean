/-
Import statements as they may be written.

A `Statement` is a syntax tree with the gaps between its tokens, which may hold comments and line
feeds, and `Statement.bindings?` is what it binds. Names are any texts that a clause is not cut in,
`type`, `from` and `as` among them. Without comments and with its blanks collapsed, a statement keeps
its tokens and one space for each gap (`Statement.collapse_text`).
-/
import Ambient.Import.Statement
import Ambient.Proofs.Code.Layout

namespace Ambient.Import

open Code (Balanced Lays Plain Reduces Spacing isOrdinary isStringBody)
open Text (Neat isBlank)

/-! ## Syntax -/

/-- The characters of a name, which have no meaning of their own in a clause. -/
def isNamePart (c : Char) : Bool :=
  isOrdinary c && !isBlank c && c != ',' && c != '*'

structure Name where
  text : Text
  ne_nil : text ≠ []
  isPart : ∀ c ∈ text, isNamePart c = true

/-- A gap that is not empty. -/
structure Space where
  gap : Spacing
  ne_nil : gap.text ≠ []

/-- The local name of what is imported under another one. -/
structure Alias where
  before : Space
  behind : Space
  name : Name

/-- A name in braces, with the mark of types and an alias if it has them. -/
structure Specifier where
  mark : Option Space
  imported : Name
  renamed : Option Alias

/-- What stands in braces. The last name may have a comma behind it. -/
inductive Specifiers where
  | none (gap : Spacing)
  | one (gap : Spacing) (s : Specifier) (gap' : Spacing)
  | more (gap : Spacing) (s : Specifier) (gap' : Spacing) (rest : Specifiers)

def Specifiers.toList : Specifiers → List Specifier
  | .none _ => []
  | .one _ s _ => [s]
  | .more _ s _ rest => s :: rest.toList

/-- What a clause binds besides the default export. -/
inductive Group where
  | wholeModule (gap : Spacing) (space : Space) (name : Name)
  | named (specifiers : Specifiers)

inductive Clause where
  | default (name : Name)
  | group (g : Group)
  | both (name : Name) (gap gap' : Spacing) (g : Group)

def Clause.startsWithName : Clause → Bool
  | .default _ | .both .. => true
  | .group _ => false

def Group.endsWithName : Group → Bool
  | .wholeModule .. => true
  | .named _ => false

def Clause.endsWithName : Clause → Bool
  | .default _ => true
  | .group g | .both _ _ _ g => g.endsWithName

/-- What stands between `import` and the gap before the path. Words are kept apart. -/
structure Phrase where
  /-- The gap before the mark of types. -/
  mark : Option Space
  gap : Spacing
  clause : Clause
  gap' : Spacing
  apart : mark.isSome = true ∨ clause.startsWithName = true → gap.text ≠ []
  apart' : clause.endsWithName = true → gap'.text ≠ []

/-- What stands behind the path. -/
structure Ending where
  gap : Spacing
  semicolon : Bool
  gap' : Spacing
  comment : Option Text
  feed : ∀ body ∈ comment, '\n' ∉ body

def Ending.text (e : Ending) : Text :=
  e.gap.text ++ ((if e.semicolon then [';'] else []) ++
    (e.gap'.text ++ (e.comment.map ('/' :: '/' :: ·)).getD []))

/-- An import statement. When a backslash takes the mark behind the path into the string, no comment
can be seen behind that. -/
structure Statement where
  phrase : Option Phrase
  gap : Spacing
  mark : Char
  path : Text
  ending : Ending
  isMark : mark = '\'' ∨ mark = '"'
  isPath : ∀ c ∈ path, c ≠ mark ∧ isBlank c = false
  closed : isStringBody mark path = true ∨ '/' ∉ ending.text

/-! ## Texts -/

section

variable (lay : Spacing → Text)

def Specifier.layout (s : Specifier) : Text :=
  (match s.mark with
    | some g => "type" ++ lay g.gap
    | none => []) ++
  (s.imported.text ++
    match s.renamed with
    | some a => lay a.before.gap ++ ("as" ++ (lay a.behind.gap ++ a.name.text))
    | none => [])

def Specifiers.layout : Specifiers → Text
  | .none g => lay g
  | .one g s g' => lay g ++ (s.layout lay ++ lay g')
  | .more g s g' rest => lay g ++ (s.layout lay ++ lay g') ++ ',' :: rest.layout

def Group.layout : Group → Text
  | .wholeModule g g' name => '*' :: (lay g ++ ("as" ++ (lay g'.gap ++ name.text)))
  | .named ss => '{' :: (ss.layout lay ++ ['}'])

def Clause.layout : Clause → Text
  | .default name => name.text
  | .group g => g.layout lay
  | .both name gap gap' g => name.text ++ lay gap ++ ',' :: (lay gap' ++ g.layout lay)

def Phrase.layout (p : Phrase) : Text :=
  (match p.mark with
    | some g => lay g.gap ++ "type"
    | none => []) ++
  (lay p.gap ++ (p.clause.layout lay ++ (lay p.gap' ++ "from")))

/-- A statement up to its path. -/
def Statement.front (s : Statement) : Text :=
  (match s.phrase with
    | some p => p.layout lay
    | none => []) ++ lay s.gap

end

def Statement.quoted (s : Statement) : Text :=
  s.mark :: (s.path ++ [s.mark])

def Statement.text (s : Statement) : Text :=
  "import" ++ (s.front Spacing.text ++ (s.quoted ++ s.ending.text))

/-! ## Bindings -/

def Specifier.binding (s : Specifier) : Binding :=
  match s.renamed with
  | some a => ⟨a.name.text, .named s.imported.text⟩
  | none => ⟨s.imported.text, .named s.imported.text⟩

def Group.bindings : Group → List Binding
  | .wholeModule _ _ name => [⟨name.text, .wholeModule⟩]
  | .named ss => ss.toList.map Specifier.binding

def Clause.bindings : Clause → List Binding
  | .default name => [⟨name.text, .defaultExport⟩]
  | .group g => g.bindings
  | .both name _ _ g => ⟨name.text, .defaultExport⟩ :: g.bindings

/-- What a statement binds, in the order of the source. -/
def Statement.bindings? (s : Statement) : Option (Text × List Binding) :=
  s.phrase.map fun p => (s.path, p.clause.bindings)

/-! ## Layout -/

theorem Name.part (n : Name) {c : Char} (hc : c ∈ n.text) :
    isOrdinary c = true ∧ isBlank c = false ∧ c ≠ ',' ∧ c ≠ '*' := by
  simpa [isNamePart, and_assoc] using n.isPart c hc

theorem Name.not_isBlank (n : Name) : ∀ c ∈ n.text, isBlank c = false :=
  fun _ hc => (n.part hc).2.1

theorem Name.neat (n : Name) : Neat n.text :=
  .of_forall n.ne_nil n.not_isBlank

theorem Name.lays (n : Name) : Lays n.text n.text :=
  .plain (Balanced.of_forall fun _ hc => (n.part hc).1).plain

theorem Space.flat (g : Space) : g.gap.flat = [' '] :=
  Spacing.flat_of_ne g.ne_nil

theorem lays_ordinary {t : Text} (h : ∀ c ∈ t, isOrdinary c = true) : Lays t t :=
  .plain (Balanced.of_forall h).plain

theorem Specifier.lays (s : Specifier) : Lays (s.layout Spacing.text) (s.layout Spacing.flat) := by
  unfold layout
  refine .append ?_ (s.imported.lays.append ?_)
  · cases s.mark with
    | none => exact lays_ordinary (by simp)
    | some g => exact (lays_ordinary (by decide)).append (.spacing g.gap)
  · cases s.renamed with
    | none => exact lays_ordinary (by simp)
    | some a =>
      exact (Lays.spacing a.before.gap).append ((lays_ordinary (by decide)).append
        ((Lays.spacing a.behind.gap).append a.name.lays))

theorem Specifiers.lays (ss : Specifiers) : Lays (ss.layout Spacing.text) (ss.layout Spacing.flat) := by
  induction ss with
  | none g => exact .spacing g
  | one g s g' => exact (Lays.spacing g).append (s.lays.append (.spacing g'))
  | more g s g' rest ih =>
    exact ((Lays.spacing g).append (s.lays.append (.spacing g'))).append
      ((lays_ordinary (t := [',']) (by decide)).append ih)

theorem Group.lays (g : Group) : Lays (g.layout Spacing.text) (g.layout Spacing.flat) := by
  cases g with
  | wholeModule g g' name =>
    exact (lays_ordinary (t := ['*']) (by decide)).append ((Lays.spacing g).append
      ((lays_ordinary (by decide)).append ((Lays.spacing g'.gap).append name.lays)))
  | named ss =>
    have hbrace : ∀ {c : Char}, ¬ Code.IsQuote c → c ≠ '/' → Lays [c] [c] :=
      fun hquote hslash => .plain (.char hquote hslash .nil)
    exact (hbrace (c := '{') (by decide) (by decide)).append
      (ss.lays.append (hbrace (by decide) (by decide)))

theorem Clause.lays (c : Clause) : Lays (c.layout Spacing.text) (c.layout Spacing.flat) := by
  cases c with
  | default name => exact name.lays
  | group g => exact g.lays
  | both name gap gap' g =>
    exact (name.lays.append (.spacing gap)).append
      ((lays_ordinary (t := [',']) (by decide)).append ((Lays.spacing gap').append g.lays))

theorem Phrase.lays (p : Phrase) : Lays (p.layout Spacing.text) (p.layout Spacing.flat) := by
  unfold layout
  refine .append ?_ ((Lays.spacing p.gap).append (p.clause.lays.append
    ((Lays.spacing p.gap').append (lays_ordinary (by decide)))))
  cases p.mark with
  | none => exact lays_ordinary (by simp)
  | some g => exact (Lays.spacing g.gap).append (lays_ordinary (by decide))

theorem Statement.lays_front (s : Statement) : Lays (s.front Spacing.text) (s.front Spacing.flat) := by
  unfold front
  refine .append ?_ (.spacing s.gap)
  cases s.phrase with
  | none => exact lays_ordinary (by simp)
  | some p => exact p.lays

def Ending.flat (e : Ending) : Text :=
  if e.semicolon then e.gap.flat ++ [';'] else []

theorem Ending.reduces (e : Ending) : Reduces e.text e.flat := by
  have hlast : Reduces ((e.comment.map ('/' :: '/' :: ·)).getD []) [] := by
    cases hcomment : e.comment with
    | none => exact .nil
    | some body => exact .last (e.feed body hcomment)
  have hgap := hlast.spacing e.gap'
  unfold text flat
  cases e.semicolon with
  | true =>
    have hsemicolon := (lays_ordinary (t := [';']) (by decide)).reduces hgap
    simpa using (Lays.spacing e.gap).reduces hsemicolon
  | false => exact Reduces.spacing e.gap hgap

theorem Ending.words_text (e : Ending) (h : '/' ∉ e.text) (t : Text) :
    Text.words (t ++ e.text) = Text.words (t ++ e.flat) := by
  have hcomment : e.comment = none := by
    cases hcomment : e.comment with
    | none => rfl
    | some body => simp [text, hcomment] at h
  simp only [text, hcomment, Option.map_none, Option.getD_none, List.append_nil, List.mem_append,
    not_or] at h ⊢
  obtain ⟨hgap, -, hgap'⟩ := h
  have hblank := e.gap.isSpacing.blank_of_not_mem hgap
  have hblank' := e.gap'.isSpacing.blank_of_not_mem hgap'
  rw [← List.append_assoc, ← List.append_assoc, Text.words_append_blanks hblank', flat]
  cases e.semicolon with
  | true => simpa using e.gap.words_append hgap t [';']
  | false => simpa using Text.words_append_blanks hblank t

theorem Statement.reduces (s : Statement) :
    Reduces s.text ("import" ++ (s.front Spacing.flat ++ (s.quoted ++ s.ending.flat))) := by
  have hpath : s.mark ∉ s.path := fun h => (s.isPath _ h).1 rfl
  have hfeed : '\n' ∉ s.path := fun h => absurd (s.isPath _ h).2 (by decide)
  have hend : Reduces (s.quoted ++ s.ending.text) (s.quoted ++ s.ending.flat) := by
    rcases s.closed with hbody | hslash
    · have hplain : Plain s.quoted := by
        simpa [quoted, Code.Quoted.text] using Plain.quoted ⟨s.mark, s.path, s.isMark, hbody⟩ .nil
      exact (Lays.plain hplain).reduces s.ending.reduces
    · have hquote : Code.IsQuote s.mark := s.isMark.imp id .inl
      exact .string hquote hpath hfeed hslash (s.ending.words_text hslash)
  exact (lays_ordinary (by decide)).reduces (s.lays_front.reduces hend)

section

variable {t u : Text}

theorem neat_append_flat (ht : Neat t) (g : Spacing) (hu : Neat u) : Neat (t ++ (g.flat ++ u)) := by
  unfold Spacing.flat
  split
  · exact ht.append hu
  · exact ht.append_space hu

theorem Specifier.neat (s : Specifier) : Neat (s.layout Spacing.flat) := by
  have hword : Neat ("type" : Text) ∧ Neat ("as" : Text) :=
    ⟨.of_forall (by decide) (by decide), .of_forall (by decide) (by decide)⟩
  have hname : Neat (s.imported.text ++
      match s.renamed with
      | some a => a.before.gap.flat ++ ("as" ++ (a.behind.gap.flat ++ a.name.text))
      | none => []) := by
    cases s.renamed with
    | none => simpa using s.imported.neat
    | some a =>
      exact neat_append_flat s.imported.neat _ (neat_append_flat hword.2 _ a.name.neat)
  unfold layout
  cases s.mark with
  | none => exact hname
  | some g => simpa using neat_append_flat hword.1 g.gap hname

theorem Specifiers.neat (ss : Specifiers) (ht : Neat t) : Neat (t ++ (ss.layout Spacing.flat ++ ['}'])) := by
  induction ss generalizing t with
  | none g => exact neat_append_flat ht g (.singleton (by decide))
  | one g s g' =>
    have hbrace := neat_append_flat s.neat g' (.singleton (c := '}') (by decide))
    simpa [layout] using neat_append_flat ht g hbrace
  | more g s g' rest ih =>
    have hcomma := neat_append_flat s.neat g' (.singleton (c := ',') (by decide))
    simpa [layout] using ih (neat_append_flat ht g hcomma)

theorem Group.neat (g : Group) : Neat (g.layout Spacing.flat) := by
  cases g with
  | wholeModule g g' name =>
    have hname := neat_append_flat (t := "as") (.of_forall (by decide) (by decide)) g'.gap name.neat
    exact neat_append_flat (.singleton (c := '*') (by decide)) g hname
  | named ss => exact ss.neat (.singleton (c := '{') (by decide))

theorem Clause.neat (c : Clause) : Neat (c.layout Spacing.flat) := by
  cases c with
  | default name => exact name.neat
  | group g => exact g.neat
  | both name gap gap' g =>
    have hcomma := neat_append_flat name.neat gap (.singleton (c := ',') (by decide))
    simpa [layout] using neat_append_flat hcomma gap' g.neat

theorem Statement.neat (s : Statement) :
    Neat ("import" ++ (s.front Spacing.flat ++ (s.quoted ++ s.ending.flat))) := by
  have hword : ∀ w : Text, w ≠ [] → (∀ c ∈ w, isBlank c = false) → Neat w := fun _ => .of_forall
  have himport := hword "import" (by decide) (by decide)
  have hquoted : Neat s.quoted := by
    have hmark : isBlank s.mark = false := by rcases s.isMark with h | h <;> rw [h] <;> decide
    refine hword _ (by simp [quoted]) fun c hc => ?_
    simp only [quoted, List.mem_cons, List.mem_append, List.not_mem_nil, or_false] at hc
    rcases hc with rfl | hc | rfl
    · exact hmark
    · exact (s.isPath c hc).2
    · exact hmark
  have hending : Neat (s.quoted ++ s.ending.flat) := by
    unfold Ending.flat
    split
    · exact neat_append_flat hquoted _ (.singleton (by decide))
    · simpa using hquoted
  unfold front
  cases s.phrase with
  | none => exact neat_append_flat himport s.gap hending
  | some p =>
    have hmark : Neat (("import" : Text) ++
        match p.mark with
        | some g => g.gap.flat ++ "type"
        | none => []) := by
      cases p.mark with
      | none => exact himport
      | some g => exact neat_append_flat himport g.gap (hword _ (by decide) (by decide))
    have hfrom := neat_append_flat p.clause.neat p.gap' (hword "from" (by decide) (by decide))
    have hphrase := neat_append_flat (neat_append_flat hmark p.gap hfrom) s.gap hending
    simpa [Phrase.layout] using hphrase

end

/-- One space is left of each gap of a statement, and nothing of its comments. -/
theorem Statement.collapse_text (s : Statement) :
    Text.collapse (Code.stripComments s.text) =
      "import" ++ (s.front Spacing.flat ++ s.quoted) ++ s.ending.flat := by
  simpa using s.reduces.collapse_stripComments s.neat

end Ambient.Import
