/-
Import lines are read back as the bindings they were printed from.

A printed line has a clause between `import type` and `from`, and a path behind that. The reader cuts
it at the same places whatever the names are, `from`, `as` and `type` among them, and whatever the path
holds besides blanks and single quotes (`statement?_lineText`). The clause is then read back
(`clause?_braces`, `clause?_wholeModule`).
-/
import Ambient.Import.Usage
import Ambient.Proofs.Import.Reading

namespace Ambient.Import

open Code (Balanced Gap Lacks Plain Word isOrdinary)
open Text (Neat Solid isBlank isWordChar trim trimStart startsWith)

/-! ## Names and paths -/

def IsName (t : Text) : Prop :=
  t ≠ [] ∧ ∀ c ∈ t, isWordChar c = true

/-- Paths that can stand between single quotes on a line of their own. -/
def IsPath (t : Text) : Prop :=
  ∀ c ∈ t, c ≠ '\'' ∧ isBlank c = false

/-- What a binding is imported as. Behind the brace of a clause the word `type` is a mark and no
name. -/
def BindingKind.IsImportable : BindingKind → Prop
  | .named imported => IsName imported ∧ imported ≠ "type"
  | .defaultExport | .wholeModule => True

def Binding.IsImportable (b : Binding) : Prop :=
  IsName b.name ∧ b.kind.IsImportable

instance : DecidablePred IsName :=
  fun t => inferInstanceAs (Decidable (t ≠ [] ∧ ∀ c ∈ t, isWordChar c = true))

instance : DecidablePred IsPath :=
  fun t => inferInstanceAs (Decidable (∀ c ∈ t, c ≠ '\'' ∧ isBlank c = false))

instance : DecidablePred BindingKind.IsImportable
  | .named imported => inferInstanceAs (Decidable (IsName imported ∧ imported ≠ "type"))
  | .defaultExport => .isTrue trivial
  | .wholeModule => .isTrue trivial

instance : DecidablePred Binding.IsImportable :=
  fun b => inferInstanceAs (Decidable (IsName b.name ∧ b.kind.IsImportable))

def IsName.word {t : Text} (h : IsName t) : Word :=
  ⟨t, h.1, h.2⟩

/-! ## Names in braces -/

/-- A binding of the default export under a name is one of the export named `default`. -/
def Binding.asNamed (b : Binding) : Binding :=
  match b.kind with
  | .defaultExport => { b with kind := .named "default" }
  | .named _ | .wholeModule => b

/-- What a list of names between braces has to be, and what is read from it. -/
structure Specifies (t : Text) (b : Binding) : Prop where
  balanced : Balanced t
  neat : Neat t
  comma : Lacks ',' t
  read : namedBinding t = b

theorem Specifies.word (w : Word) : Specifies w.text ⟨w.text, .named w.text⟩ where
  balanced := w.balanced
  neat := w.neat
  comma := w.lacks (by decide)
  read := by
    have hw : ∀ c ∈ w.text, isBlank c = false := fun c => w.not_isBlank
    rw [namedBinding_of_unmarked (after?_type_eq_none_of_name hw), aliased_name hw]

theorem Specifies.as (imported name : Word) (himported : imported.text ≠ "type") :
    Specifies (imported.text ++ (" as " ++ name.text)) ⟨name.text, .named imported.text⟩ := by
  have has : Balanced (" as " : Text) := .of_forall (by decide)
  have hneat : Neat ("as" : Text) := .of_forall (by decide) (by decide)
  have hlacks : Lacks ',' (" as " : Text) := .of_forall (by decide)
  have hblank : ∀ c ∈ imported.text, isBlank c = false := fun c => imported.not_isBlank
  have hunmarked : Text.after? (imported.text ++ (" as " ++ name.text)) "type " = none :=
    after?_type_eq_none hblank himported ("as " ++ name.text)
  exact
    { balanced := imported.balanced.append (has.append name.balanced)
      neat := imported.neat.append_space (hneat.append_space name.neat)
      comma := .append imported.balanced (has.append name.balanced) (imported.lacks (by decide))
        (.append has name.balanced hlacks (name.lacks (by decide)))
      read := by
        rw [namedBinding_of_unmarked hunmarked, aliased_as hblank imported.solid.ne_nil name.solid] }

theorem specifies_of_specifier? {b : Binding} (hb : b.IsImportable) {t : Text}
    (ht : b.specifier? = some t) : Specifies t b.asNamed := by
  obtain ⟨name, kind⟩ := b
  obtain ⟨hname, hkind⟩ := hb
  cases kind with
  | named imported =>
    obtain ⟨himported, htype⟩ := hkind
    by_cases hsame : imported = name
    · subst hsame
      obtain rfl : imported = t := by simpa [Binding.specifier?] using ht
      exact .word hname.word
    · obtain rfl : imported ++ (" as " ++ name) = t := by
        simpa [Binding.specifier?, hsame] using ht
      exact .as himported.word hname.word htype
  | defaultExport =>
    have hdefault : IsName ("default" : Text) := by decide
    have htype : ("default" : Text) ≠ "type" := by decide
    obtain rfl : ("default" : Text) ++ (" as " ++ name) = t := by
      simpa [Binding.specifier?] using ht
    exact .as hdefault.word hname.word htype
  | wholeModule => cases ht

/-! ## Clauses -/

def bracesText (specifiers : List Text) : Text :=
  '{' :: (Gap.space.text ++ (List.intercalate ", " specifiers ++ Gap.space.text) ++ ['}'])

def wholeModuleText (name : Text) : Text :=
  "* as " ++ name

theorem balanced_braces {ts : List Text} (h : ∀ t ∈ ts, Balanced t) :
    Balanced (Gap.space.text ++ (List.intercalate ", " ts ++ Gap.space.text)) :=
  Gap.space.balanced.append ((Balanced.intercalate (.of_forall (by decide)) h).append
    Gap.space.balanced)

theorem neat_bracesText {ts : List Text} (hne : ts ≠ []) (h : ∀ t ∈ ts, Neat t) :
    Neat (bracesText ts) := by
  have hlist : Neat (List.intercalate [',', ' '] ts) := .intercalate (by decide) hne h
  have hbrace : Neat ['}'] := .singleton (by decide)
  have hneat := Neat.space (c := '{') (by decide) (hlist.append_space hbrace)
  simpa [bracesText, Gap.space] using hneat

theorem balanced_wholeModuleText (name : Word) : Balanced (wholeModuleText name.text) := by
  have hstar : Balanced ("* as " : Text) := .of_forall (by decide)
  exact hstar.append name.balanced

theorem neat_wholeModuleText (name : Word) : Neat (wholeModuleText name.text) := by
  have hstar : Neat ['*'] := .singleton (by decide)
  have has : Neat ("as" : Text) := .of_forall (by decide) (by decide)
  exact hstar.append_space (has.append_space name.neat)

/-- **The names in braces** are read one by one. -/
theorem clause?_braces {ts : List Text} (h : ∀ t ∈ ts, ∃ b, Specifies t b) :
    clause? (bracesText ts) = some (ts.map namedBinding) := by
  have hbalanced : ∀ t ∈ ts, Balanced t := fun t ht => (h t ht).elim fun _ hb => hb.balanced
  have hsolid : ∀ t ∈ ts, Solid t := fun t ht => (h t ht).elim fun _ hb => hb.neat.solid
  have hcomma : ∀ t ∈ ts, Lacks ',' t := fun t ht => (h t ht).elim fun _ hb => hb.comma
  have hbraces := clause?_append_braces List.not_mem_nil (balanced_braces hbalanced)
  rw [Code.split_intercalate hbalanced hsolid hcomma .space .space, split_nil] at hbraces
  exact hbraces

theorem clause?_wholeModule (name : Word) :
    clause? (wholeModuleText name.text) = some [⟨name.text, .wholeModule⟩] := by
  have hchars : ∀ c ∈ wholeModuleText name.text, isOrdinary c = true ∧ c ≠ ',' := by
    refine List.forall_mem_append.2 ⟨by decide, fun c hc => ?_⟩
    have hword := name.isWord c hc
    exact ⟨Code.isOrdinary_of_isWordChar hword, Code.ne_of_isWordChar hword (by decide)⟩
  have hbrace : '{' ∉ wholeModuleText name.text :=
    fun h => absurd (hchars '{' h).1 (by decide)
  have hsplit : Code.split ',' (wholeModuleText name.text) = [wholeModuleText name.text] := by
    have h := Code.split_of_solid .nil (neat_wholeModuleText name).solid .nil
      (by simpa using Lacks.of_forall hchars)
    simpa using h
  have hhead : headBinding? (wholeModuleText name.text) = some ⟨name.text, .wholeModule⟩ :=
    headBinding?_star .space .space name.solid
  rw [clause?_of_no_braces hbrace, hsplit]
  simp [hhead]

/-! ## Lines -/

def lineText (clause path : Text) : Text :=
  "import type " ++ clause ++ (" from '" ++ path ++ ['\''])

section

variable {c : Char} {clause path : Text}

/-- The parts of a line, up to its path. -/
theorem lineText_eq (clause path : Text) :
    lineText clause path = "import type " ++ (clause ++ " from ") ++ '\'' :: (path ++ ['\'']) := by
  unfold lineText
  simp

theorem neat_lineText (hneat : Neat clause) (hpath : IsPath path) : Neat (lineText clause path) := by
  have hword : ∀ w : Text, w ≠ [] → (∀ c ∈ w, isBlank c = false) → Neat w := fun _ => .of_forall
  have hstring : Neat ('\'' :: (path ++ ['\''])) := by
    refine hword _ (by simp) fun d hd => ?_
    rcases List.mem_cons.1 hd with rfl | hd
    · decide
    rcases List.mem_append.1 hd with hd | hd
    · exact (hpath d hd).2
    · rw [List.mem_singleton.1 hd]
      decide
  have h := (hword "import" (by decide) (by decide)).append_space
    ((hword "type" (by decide) (by decide)).append_space (hneat.append_space
      ((hword "from" (by decide) (by decide)).append_space hstring)))
  rw [lineText_eq]
  simpa using h

theorem stripComments_lineText (hneat : Neat clause) (hbalanced : Balanced clause)
    (hpath : IsPath path) : Code.stripComments (lineText clause path) = lineText clause path := by
  have hwords : Balanced ("import type " : Text) ∧ Balanced (" from " : Text) :=
    ⟨.of_forall (by decide), .of_forall (by decide)⟩
  have hplain : Plain (("import type " : Text) ++ (clause ++ " from ")) :=
    (hwords.1.append (hbalanced.append hwords.2)).plain
  have hquote : '\'' ∉ path := fun h => (hpath '\'' h).1 rfl
  have hfeed := (neat_lineText hneat hpath).newline_not_mem
  rw [lineText_eq] at hfeed ⊢
  exact Code.stripComments_string hplain (.inl rfl) hquote hfeed

theorem skipTypeMark_clause (hneat : Neat (c :: clause)) (hfrom : c ≠ 'f') (t : Text) :
    skipTypeMark ("type " ++ (c :: clause ++ t)) = c :: clause ++ t := by
  have hstart : startsWith (c :: clause ++ t) "from" = false :=
    Text.startsWith_eq_false hfrom (clause ++ t) "rom"
  rw [skipTypeMark_type (hneat.solid.trimStart t), hstart, if_neg Bool.false_ne_true]

/-- **A printed line** is read as its clause and its path. -/
theorem statement?_lineText (hneat : Neat (c :: clause)) (hbalanced : Balanced (c :: clause))
    (hfrom : c ≠ 'f') (hpath : IsPath path) :
    statement? (lineText (c :: clause) path) = (clause? (c :: clause)).map (path, ·) := by
  have hquote : '\'' ∉ path := fun h => (hpath '\'' h).1 rfl
  have hcollapse : Text.collapse (Code.stripComments (lineText (c :: clause) path)) =
      ("import" : Text) ++ ((" type " : Text) ++ (c :: clause ++ (" from " : Text)) ++
        '\'' :: (path ++ ['\''])) ++ [] := by
    rw [stripComments_lineText hneat hbalanced hpath, Text.collapse_of_neat (neat_lineText hneat hpath),
      lineText_eq]
    simp
  have hskip : skipTypeMark (trimStart
      (" type " ++ (c :: clause ++ " from ") ++ '\'' :: (path ++ ['\'']))) =
      c :: clause ++ " from " ++ '\'' :: (path ++ ['\'']) := by
    have htype : trimStart (" type " ++ (c :: clause ++ " from ") ++ '\'' :: (path ++ ['\''])) =
        "type " ++ (c :: clause ++ (" from " ++ '\'' :: (path ++ ['\'']))) := by
      rw [List.append_assoc, List.append_assoc]
      exact (Text.trimStart_blank_append .space _).trans (Text.trimStart_cons (by decide) _)
    rw [htype, skipTypeMark_clause hneat hfrom, List.append_assoc]
  have hfront : c :: clause ++ " from " = c :: clause ++ [' '] ++ ("from" ++ [' ']) := by simp
  have hpart : trim (c :: clause ++ [' ']) = c :: clause := Text.trim_of_solid .nil hneat.solid .space
  rw [statement?_of_collapse (.inl rfl) hquote (.inl rfl) hcollapse hskip, hfront, before?_from .space,
    Option.bind_some, hpart, if_neg (List.cons_ne_nil c clause)]

end

end Ambient.Import
