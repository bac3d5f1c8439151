/-
Values with an annotation.

The first colon outside all brackets ends the name, and the first `=` there that is no part of an arrow
ends the annotation: whatever the initializer holds, it stands behind them (`readBinding_annotated`).
An initializer that is neither an object nor a literal has no type of its own, so the value is declared
with its annotation alone.
-/
import Ambient.Proofs.Declaration.TypeTerm
import Ambient.Proofs.Declaration.Value

namespace Ambient.Declaration

open Code (Balanced Gap Plain Unassigned Word)
open Source (Keyword)
open Text (Blank Solid endsWith startsWith trim)

/-- The declaration of a value with an annotation and an initializer. -/
def printAnnotated (keyword : Keyword) (name : Word) (type init : Text) : Text :=
  "export" ++ (' ' :: (keyword.text ++ (' ' :: (memberText name type ++ (" = " ++ init)))))

/-- A printed type ends before the assignment, and the name before the type. -/
theorem readBinding_annotated (name : Word) {type g value : Text} (htype : IsPart type) (hg : Blank g)
    (hvalue : Solid value) :
    readBinding (memberText name type ++ (" = " ++ (g ++ value))) =
      ⟨name.text, some type, some value⟩ := by
  have hmember : IsPart (memberText name type) := .member name htype
  have hspace : Balanced [' '] := .of_forall (by decide)
  have hassign : Code.assignment? (memberText name type ++ [' '] ++ '=' :: ' ' :: (g ++ value)) =
      some (Text.size (memberText name type ++ [' '])) := by
    have hunassigned : Unassigned (memberText name type ++ [' ']) :=
      .append hmember.balanced hspace hmember.unassigned (.of_lacks (.of_forall (by decide)))
    refine Code.assignment?_append_cons (hmember.balanced.append hspace) hunassigned ?_
    rw [List.getLast?_concat]
    rfl
  have hcolon : Code.find? (fun _ d => d == ':') (memberText name type ++ [' ']) =
      some (Text.size name.text) := by
    have hmiss : ∀ x ∈ Code.tops 0 name.text, (x.2 == ':') = false := by
      intro x hx
      simpa using name.lacks (d := ':') (by decide) 0 x hx
    rw [memberText, List.append_assoc]
    exact Code.find?_append_cons name.balanced hmiss (by decide) (by decide) rfl _
  have hafterEquals : Text.dropBytes (memberText name type ++ [' '] ++ '=' :: ' ' :: (g ++ value))
      (Text.size (memberText name type ++ [' ']) + 1) = ' ' :: (g ++ value) :=
    Text.dropBytes_append_cons (memberText name type ++ [' ']) '=' (' ' :: (g ++ value))
  have hbeforeColon : Text.takeBytes (memberText name type ++ [' ']) (Text.size name.text) =
      name.text := by
    rw [memberText, List.append_assoc, Text.takeBytes_append]
  have hafterColon : Text.dropBytes (memberText name type ++ [' ']) (Text.size name.text + 1) =
      ' ' :: (type ++ [' ']) := by
    rw [memberText, List.append_assoc]
    exact Text.dropBytes_append_cons name.text ':' (' ' :: type ++ [' '])
  have hannotation : trim (' ' :: (type ++ [' '])) = type :=
    Text.trim_of_solid .space htype.neat.solid .space
  have hinitializer : trim (' ' :: (g ++ value)) = value := by
    have hblank : Blank (' ' :: g) := List.forall_mem_cons.2 ⟨by decide, hg⟩
    simpa using Text.trim_of_solid hblank hvalue .nil
  have hcut : memberText name type ++ (" = " ++ (g ++ value)) =
      memberText name type ++ [' '] ++ '=' :: ' ' :: (g ++ value) := by
    rw [List.append_assoc]
    rfl
  simp only [hcut, readBinding, hassign, Text.takeBytes_append, hafterEquals, hcolon, hbeforeColon,
    hafterColon, hannotation, hinitializer, Text.trim_solid name.solid,
    trimEndWhile_bang]
  have hempty : ∀ {t : Text}, Solid t → (some t).filter (!·.isEmpty) = some t := by
    intro t ht
    simp [ht.ne_nil]
  rw [hempty htype.neat.solid, hempty hvalue]

theorem literalType?_trim (t : Text) : literalType? (trim t) = literalType? t := by
  rw [literalType?, literalType?, bare, bare, Text.trim_trim]

/-- The comment marks of a type are hidden in its strings. -/
theorem stripComments_printAnnotated (keyword : Keyword) (name : Word) {type : Text}
    (htype : IsPart type) {init : Text} (hinit : ¬ ['/', '/'] <:+: init) :
    Code.stripComments (printAnnotated keyword name type init) =
      printAnnotated keyword name type init := by
  have hexport : IsPart ("export" : Text) := .of_forall (by decide) (by decide)
  have hkeyword : IsPart keyword.text := by
    cases keyword <;> exact .of_forall (by decide) (by decide)
  have hstart : IsPart ("export" ++ ' ' :: (keyword.text ++ ' ' :: memberText name type)) :=
    hexport.append_space (hkeyword.append_space (.member name htype))
  have hequals : Plain " = " :=
    .char (by decide) (by decide) (.char (by decide) (by decide) (.char (by decide) (by decide) .nil))
  have hfeed : '\n' ∉ "export" ++ ' ' :: (keyword.text ++ ' ' :: memberText name type) ++ " = " := by
    rw [List.mem_append, not_or]
    exact ⟨hstart.neat.newline_not_mem, by decide⟩
  have hstrip := Code.stripComments_append_of_no_slashes (hstart.balanced.plain.append hequals)
    (by simp) hfeed hinit
  have hcut : printAnnotated keyword name type init =
      "export" ++ ' ' :: (keyword.text ++ ' ' :: memberText name type) ++ " = " ++ init := by
    unfold printAnnotated
    simp
  rw [hcut, hstrip]

/-- **Values with an annotation keep it**: when the initializer has no type of its own, the value is
declared with the printed annotation, whatever the initializer holds. -/
theorem declare?_annotated (fallback : Fallback) (comment : Option Text) (exported : Bool)
    (keyword : Keyword) (name : Word) (type : TypeTerm) {init : Text}
    (hcomments : ¬ ['/', '/'] <:+: init) (hne : trim init ≠ [])
    (hobject : startsWith (trim init) ['{'] = false) (hsemicolon : endsWith (trim init) [';'] = false)
    (hliteral : literalType? init = none) :
    declare? fallback
        { comment
          body := printAnnotated keyword name type.text init
          kind := .value keyword
          exported } =
      some
        { kind := .value
          comment
          text := "export declare " ++ keyword.text ++ [' '] ++ memberText name type.text ++
            [';'] } := by
  obtain ⟨g, g', hg, hg', hsplit⟩ := Text.exists_trim_append init
  have hsolid := Text.solid_trim hne
  have hpart := type.isType.toIsPart
  have hread : readBinding (name.text ++ (':' :: ' ' :: type.text ++ (" = " ++ g) ++ trim init)) =
      ⟨name.text, some type.text, some (trim init)⟩ := by
    simpa [memberText] using readBinding_annotated name hpart hg hsolid
  have hlast : (trim init).getLast? ≠ some ';' := by
    intro hlast
    obtain ⟨u, hu⟩ := List.getLast?_eq_some_iff.1 hlast
    rw [hu, endsWith, Bool.eq_false_iff] at hsemicolon
    exact hsemicolon (List.isSuffixOf_iff_suffix.2 (List.suffix_append u [';']))
  have hbody : printAnnotated keyword name type.text init =
      "export" ++ (Gap.space.text ++ (keyword.text ++ (Gap.space.text ++
        (name.text ++ (':' :: ' ' :: type.text ++ (" = " ++ g) ++ (trim init ++ g')))))) := by
    have hmember : memberText name type.text ++ (" = " ++ init) =
        name.text ++ (':' :: ' ' :: type.text ++ (" = " ++ g) ++ (trim init ++ g')) := by
      simp [memberText, ← hsplit]
    unfold printAnnotated
    rw [hmember]
    rfl
  have htype : (Binding.mk name.text (some type.text) (some (trim init))).type fallback = type.text := by
    simp [Binding.type, hobject, literalType?_trim, hliteral]
  have hvalue := valueText?_of_readBinding fallback keyword name .space .space ⟨g', hg'⟩ hbody
    (stripComments_printAnnotated keyword name hpart hcomments) hsolid hlast hread
  have hnamed : "export declare " ++ keyword.text ++ [' '] ++ name.text ++ ": " ++ type.text ++ [';'] =
      "export declare " ++ keyword.text ++ [' '] ++ memberText name type.text ++ [';'] := by
    simp [memberText]
  rw [htype, hnamed] at hvalue
  exact congrArg (Option.map fun text => Symbol.mk .value comment text) hvalue

/-- `(id: string) => Map<string, { done: boolean }>` -/
def handlerType : TypeTerm :=
  .function (.cons ⟨"id", by decide, by decide⟩ (.name ⟨"string", by decide, by decide⟩) .nil)
    (.apply ⟨"Map", by decide, by decide⟩
      (.cons (.name ⟨"string", by decide, by decide⟩)
        (.cons (.object (.cons ⟨"done", by decide, by decide⟩
          (.name ⟨"boolean", by decide, by decide⟩) .nil) false) .nil)))

def handlerName : Word :=
  ⟨"handler", by decide, by decide⟩

def handlerInit : Text :=
  "a => `$\x7ba\x7d = \x7b` / b\n  : (\x7b"

theorem declare?_annotated_handler :
    declare? .string
        { comment := none
          body := printAnnotated .letKeyword handlerName handlerType.text handlerInit
          kind := .value .letKeyword
          exported := true } =
      some
        { kind := .value
          comment := none
          text := "export declare " ++ Keyword.letKeyword.text ++ [' '] ++
            memberText handlerName handlerType.text ++ [';'] } :=
  declare?_annotated .string none true .letKeyword handlerName handlerType (by decide +kernel)
    (by decide +kernel) (by decide +kernel) (by decide +kernel) (by decide +kernel)

end Ambient.Declaration
