/-
What the options of a document leave alone.

The fallback type only fills slots of a declaration: every other character is the same for all
fallback types (`exists_declare?_eq`), at every depth of an object. Whatever a slot stands in, the text
behind it is read from the same state (`after_filling`), and the filling names no type, so a document
needs the same imports (`Slotted.typeNames_eq`). Comments are kept or dropped after all that.
-/
import Ambient.Document
import Ambient.Proofs.Code.Offsets
import Ambient.Proofs.Declaration.ObjectLiteral
import Ambient.Proofs.Import.TypeNames

namespace Ambient.Declaration

open Code (State)
open Source (Block Keyword)
open Text (startsWith)

/-! ## Slots -/

/-- What a slot holds. -/
def filling (f : Fallback) : Text :=
  ' ' :: (f.text ++ [';'])

/-- A text whose slots the fallback type fills, and that does not depend on it otherwise. -/
inductive Slotted : (Fallback → Text) → Prop where
  | fixed (t : Text) : Slotted fun _ => t
  | slot (t : Text) {rest : Fallback → Text} (h : Slotted rest) :
    Slotted fun f => t ++ (filling f ++ rest f)

namespace Slotted

variable {x y : Fallback → Text}

theorem cons_text (t : Text) (h : Slotted x) : Slotted fun f => t ++ x f := by
  cases h with
  | fixed u => exact fixed (t ++ u)
  | slot u h => simpa only [List.append_assoc] using slot (t ++ u) h

theorem append (hx : Slotted x) (hy : Slotted y) : Slotted fun f => x f ++ y f := by
  induction hx with
  | fixed t => exact hy.cons_text t
  | slot t _ ih => simpa only [List.append_assoc] using slot t ih

theorem flatten {α : Type} {line : Fallback → α → Text} {as : List α}
    (h : ∀ a ∈ as, Slotted fun f => line f a) : Slotted fun f => (as.map (line f)).flatten := by
  induction as with
  | nil => exact fixed []
  | cons a as ih =>
    obtain ⟨ha, has⟩ := List.forall_mem_cons.1 h
    exact ha.append (ih has)

end Slotted

/-- A type annotation that is the fallback type. -/
theorem slotted_fallback (t : Text) : Slotted fun f => t ++ ": " ++ f.text ++ [';'] := by
  have h := Slotted.slot (t ++ [':']) (.fixed [])
  have hcolon : (": " : Text) = [':', ' '] := rfl
  simpa [filling, hcolon] using h

theorem slotted_getD (t : Text) (type? : Option Text) :
    Slotted fun f => t ++ ": " ++ type?.getD f.text ++ [';'] := by
  cases type? with
  | none => exact slotted_fallback t
  | some type => exact .fixed (t ++ ": " ++ type ++ [';'])

theorem slotted_annotation {type : Fallback → Text} (h : Slotted type) (t : Text) :
    Slotted fun f => t ++ ": " ++ type f ++ [';'] :=
  (h.cons_text (t ++ ": ")).append (.fixed [';'])

/-- The type of an object, slots and all, by recursion on the values it holds. -/
theorem slotted_objectType (depth : Nat) (literal : Text) :
    Slotted fun f => objectType f depth literal := by
  have hfield : ∀ field ∈ objectFields literal, Slotted fun f => fieldType f depth field := by
    intro field hmem
    cases field with
    | named key => exact slotted_fallback key
    | valued key value =>
      have hlt := length_lt_of_mem_objectFields hmem
      cases hbrace : startsWith value ['{'] with
      | true =>
        simpa [fieldType, typeOf, hbrace] using
          slotted_annotation (slotted_objectType (depth + 1) value) key
      | false =>
        simpa [fieldType, typeOf, hbrace, valueType] using slotted_getD key (literalType? value)
  have hline : ∀ field ∈ objectFields literal,
      Slotted fun f => indent (depth + 1) ++ fieldType f depth field ++ ['\n'] := fun field hmem =>
    ((hfield field hmem).cons_text (indent (depth + 1))).append (.fixed ['\n'])
  by_cases hfields : objectFields literal = []
  · simpa only [objectType_eq, hfields, List.map_nil] using Slotted.fixed (braces depth [])
  · have hlines := (Slotted.flatten hline).cons_text "\x7b\n"
    have hne : ∀ f, (objectFields literal).map (fieldType f depth) ≠ [] := fun f => by simpa using hfields
    simpa only [objectType_eq, braces_eq depth (hne _), List.map_map, Function.comp_def] using
      (hlines.append (.fixed (indent depth))).append (.fixed ['}'])
termination_by literal.length

/-! ## Declarations -/

theorem slotted_type (b : Binding) (t : Text) :
    Slotted fun f => t ++ ": " ++ b.type f ++ [';'] := by
  cases hinit : b.initializer with
  | none =>
    simpa only [Binding.type, hinit] using Slotted.fixed (t ++ ": " ++ b.annotation.getD "any" ++ [';'])
  | some init =>
    cases hbrace : startsWith init ['{'] with
    | true =>
      simpa [Binding.type, hinit, hbrace] using slotted_annotation (slotted_objectType 0 init) t
    | false =>
      simpa [Binding.type, hinit, hbrace] using slotted_getD t ((literalType? init).or b.annotation)

theorem exists_valueText?_eq (keyword : Keyword) (body : Text) :
    (∀ f, valueText? keyword f body = none) ∨
      ∃ text, Slotted text ∧ ∀ f, valueText? keyword f body = some (text f) := by
  simp only [valueText?, Option.bind_eq_bind]
  cases declarationHead? (Code.stripComments body) keyword.text with
  | none => exact .inl fun _ => rfl
  | some rest =>
    simp only [Option.bind_some]
    split
    · exact .inr ⟨_, slotted_type _ _, fun _ => rfl⟩
    · exact .inl fun _ => rfl

/-- A block declares the same for all fallback types, but for what fills its slots. -/
theorem exists_declare?_eq (b : Block) :
    (∀ f, declare? f b = none) ∨
      ∃ kind text, Slotted text ∧ ∀ f, declare? f b = some ⟨kind, b.comment, text f⟩ := by
  -- only a value looks at the fallback type
  have hfixed : ∀ (kind : SymbolKind) (text? : Option Text),
      (∀ f, declare? f b = text?.map fun t => ⟨kind, b.comment, t⟩) →
        (∀ f, declare? f b = none) ∨
          ∃ kind text, Slotted text ∧ ∀ f, declare? f b = some ⟨kind, b.comment, text f⟩ := by
    intro kind text? h
    cases text? with
    | none => exact .inl h
    | some t => exact .inr ⟨kind, fun _ => t, .fixed t, h⟩
  cases hkind : b.kind with
  | value keyword =>
    rcases exists_valueText?_eq keyword b.body with hnone | ⟨text, hslotted, htext⟩
    · exact .inl fun f => by simp [declare?, hkind, hnone]
    · exact .inr ⟨.value, text, hslotted, fun f => by simp [declare?, hkind, htext]⟩
  | function => exact hfixed .function (functionText? b.body) fun f => by simp [declare?, hkind]
  | interface =>
    refine hfixed .interface (if b.exported then ambientText? b.body else none) fun f => ?_
    cases hexported : b.exported <;> simp [declare?, hkind, hexported]
  | typeAlias =>
    refine hfixed .typeAlias (if b.exported then ambientText? b.body else none) fun f => ?_
    cases hexported : b.exported <;> simp [declare?, hkind, hexported]
  | reExport => exact hfixed .reExport (some b.body) fun f => by simp [declare?, hkind]
  | other => exact hfixed .other (some (terminated b.body)) fun f => by simp [declare?, hkind]

/-! ## Type names around slots -/

/-- The text behind a slot is read from one state, whatever the slot stands in. -/
theorem after_filling {s : State} (hs : s.mode.Quoted) (f g : Fallback) :
    s.after none (f.text ++ [';']) = s.after none (g.text ++ [';']) := by
  obtain ⟨mode, last⟩ := s
  -- letters end no string, comment or regular expression, and the semicolon is the last code character
  have hstring : State.after ⟨mode, last⟩ none (Fallback.string.text ++ [';']) =
      State.after ⟨mode, last⟩ none (Fallback.any.text ++ [';']) := by
    cases mode with
    | quoted mark | escaped mark =>
      obtain rfl | rfl | rfl : mark = '\'' ∨ mark = '"' ∨ mark = '`' := hs
      all_goals rfl
    | code | comment | commentOpening | commentClosing | lineComment => rfl
    | regex inClass | regexEscape inClass => cases inClass <;> rfl
  cases f <;> cases g <;> simp only [hstring]

open Import (namesFrom) in
theorem Slotted.namesFrom_eq {text : Fallback → Text} (h : Slotted text) (f g : Fallback) {s : State}
    (hs : s.mode.Quoted) (before : Option Char) :
    namesFrom s before none (text f) = namesFrom s before none (text g) := by
  induction h generalizing s before with
  | fixed t => rfl
  | @slot t rest _ ih =>
    have hcut : ∀ f, namesFrom s before none (t ++ (filling f ++ rest f)) =
        namesFrom s before (some ' ') t ++ namesFrom
          ((s.after none (t ++ [' '])).after none (f.text ++ [';'])) (some ';') none (rest f) := by
      intro f
      have hnone : namesFrom (s.after none (t ++ [' '])) (some ' ') (some ';') f.text = [] :=
        Import.namesFrom_eq_nil _ _ (by simp) (by cases f <;> decide)
      rw [filling, List.cons_append, List.append_assoc, List.singleton_append,
        Import.namesFrom_append_cons (by decide) (by decide),
        Import.namesFrom_append_cons (by decide) (by decide), hnone, List.nil_append]
    have hquoted : (s.after none (t ++ [' '])).mode.Quoted := State.quoted_after hs
    rw [hcut, hcut, after_filling hquoted f g, ih (State.quoted_after hquoted)]

theorem Slotted.typeNames_eq {text : Fallback → Text} (h : Slotted text) (f g : Fallback) :
    Import.typeNames (text f) = Import.typeNames (text g) := by
  rw [Import.typeNames_eq_namesFrom, Import.typeNames_eq_namesFrom]
  exact h.namesFrom_eq f g (s := {}) trivial none

end Ambient.Declaration

namespace Ambient.Document

open Declaration (Fallback Slotted Symbol SymbolKind)

/-- A declaration whose options are still open. -/
structure Outline where
  kind : SymbolKind
  comment : Option Text
  text : Fallback → Text
  slotted : Slotted text

def Outline.symbol (o : Options) (s : Outline) : Symbol where
  kind := s.kind
  comment := if o.keepComments then s.comment else none
  text := s.text o.fallback

/-- The declarations of a source under all options. -/
theorem exists_outlines (source : Text) :
    ∃ outlines : List Outline, ∀ o, symbols o source = outlines.map (Outline.symbol o) := by
  simp only [symbols]
  induction Source.blocks source with
  | nil => exact ⟨[], fun _ => rfl⟩
  | cons b bs ih =>
    obtain ⟨outlines, houtlines⟩ := ih
    rcases Declaration.exists_declare?_eq b with hnone | ⟨kind, text, hslotted, htext⟩
    · refine ⟨outlines, fun o => ?_⟩
      rw [List.filterMap_cons_none (hnone _), houtlines]
    · refine ⟨⟨kind, b.comment, text, hslotted⟩ :: outlines, fun o => ?_⟩
      rw [List.filterMap_cons_some (htext _), List.map_cons, List.map_cons, houtlines]
      cases hkeep : o.keepComments <;> simp [Outline.symbol, hkeep]

theorem generate_eq (o : Options) (source : Text) :
    generate o source = if symbols o source = [] then []
      else compose (importLines source (symbols o source)) (symbols o source) := by
  rw [generate]
  split
  · rename_i h
    rw [if_pos h]
  · rename_i h
    rw [if_neg h]

theorem generate_eq_nil_iff_symbols (o : Options) (source : Text) :
    generate o source = [] ↔ symbols o source = [] := by
  rw [generate_eq]
  split <;> simp_all [compose]

/-- Two runs on one source have the same import block and the same kinds of symbols, and both or none
of them declare anything. Keeping the comments does not change a declaration, and the fallback type
does not change a comment. -/
theorem runs_agree (o o' : Options) (source : Text) :
    importLines source (symbols o source) = importLines source (symbols o' source) ∧
    (symbols o source).map Symbol.kind = (symbols o' source).map Symbol.kind ∧
    (generate o source = [] ↔ generate o' source = []) ∧
    (generate o source = [] ∨
      generate o source = compose (importLines source (symbols o source)) (symbols o source) ∧
      generate o' source = compose (importLines source (symbols o source)) (symbols o' source)) ∧
    (∀ fallback keep keep', (symbols ⟨fallback, keep⟩ source).map Symbol.text =
      (symbols ⟨fallback, keep'⟩ source).map Symbol.text) ∧
    (∀ fallback fallback' keep, (symbols ⟨fallback, keep⟩ source).map Symbol.comment =
      (symbols ⟨fallback', keep⟩ source).map Symbol.comment) := by
  obtain ⟨outlines, houtlines⟩ := exists_outlines source
  have himports : importLines source (symbols o source) = importLines source (symbols o' source) := by
    have hnames : (fun s : Outline => Import.typeNames (s.symbol o).text) =
        fun s => Import.typeNames (s.symbol o').text :=
      funext fun s => s.slotted.typeNames_eq o.fallback o'.fallback
    rw [importLines, importLines, houtlines, houtlines, List.flatMap_map, List.flatMap_map, hnames]
  have hnone : symbols o source = [] ↔ symbols o' source = [] := by
    rw [houtlines, houtlines, List.map_eq_nil_iff, List.map_eq_nil_iff]
  refine ⟨himports, ?_, ?_, ?_, fun fallback keep keep' => ?_, fun fallback fallback' keep => ?_⟩
  · rw [houtlines, houtlines, List.map_map, List.map_map]
    rfl
  · rw [generate_eq_nil_iff_symbols, generate_eq_nil_iff_symbols, hnone]
  · by_cases h : symbols o source = []
    · exact .inl ((generate_eq_nil_iff_symbols o source).2 h)
    · refine .inr ⟨?_, ?_⟩
      · rw [generate_eq, if_neg h]
      · rw [generate_eq, if_neg (hnone.not.1 h), himports]
  · rw [houtlines, houtlines, List.map_map, List.map_map]
    rfl
  · rw [houtlines, houtlines, List.map_map, List.map_map]
    rfl

end Ambient.Document
