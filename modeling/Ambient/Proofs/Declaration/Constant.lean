/-
The declaration file of a source that is one constant.

A source of one line makes one block (`scan_line`), and a printed constant is such a line. Its block
declares the constant with the literal as its type, whatever the keyword, the name and the literal are,
but for one case: behind `const` a name that only starts with the letters of `enum` is taken for the
keyword of an enumeration (`exportKind_value`), and the line is handed on as it is.
-/
import Ambient.Document
import Ambient.Proofs.Declaration.Value
import Ambient.Proofs.Source.Spans

namespace Ambient.Source

open Code (Word)
open Declaration (isKeyword_text)
open Text (isWordChar startsWith trim trimStart)

/-! ## A source of one line -/

theorem lines_concat {t : Text} {c : Char} (hfeed : '\n' ∉ t ++ [c]) (hc : c ≠ '\r') :
    Text.lines (t ++ [c] ++ ['\n']) = [t ++ [c]] := by
  have hfull : Text.fullLines (t ++ [c] ++ ['\n']) = [t ++ [c] ++ ['\n']] := by
    rw [Code.fullLines_append (by simp) hfeed]
    rfl
  have hreturn : Text.before? (t ++ [c]) ([] ++ ['\r']) = none := Text.before?_eq_none hc
  rw [Text.lines, hfull, List.map_singleton, Text.lineContent, Text.before?_append]
  rw [List.nil_append] at hreturn
  simp only [hreturn, Option.getD_none]

/-- A line that opens a declaration and is the only one makes a block, whether its brackets are
balanced or not. -/
theorem scan_line {source line : Text} (hlines : Text.lines source = [line])
    (hcomment : startsWith (trim line) "/*" = false)
    (hopening : opening? (trim line) = some .declaration) :
    scan source =
      [.declaration ⟨none, trim line, (blockKind (trim line)).1, (blockKind (trim line)).2⟩] := by
  have htaking : Scanner.taking? {} line = some { opening := .declaration } := by
    simp only [Scanner.taking?, hcomment, hopening, Bool.false_eq_true, if_false, Option.map_some]
  have hbody : (OpenBlock.push { opening := .declaration } line).body = trim line := by
    simp [OpenBlock.body, OpenBlock.push, Text.joinLines]
  have hitem : Scanner.item {} (OpenBlock.push { opening := .declaration } line) =
      .declaration ⟨none, trim line, (blockKind (trim line)).1, (blockKind (trim line)).2⟩ := by
    rw [← hbody]
    rfl
  rw [scan, hlines, Scanner.items, Scanner.step_of_taking htaking]
  by_cases hon : (OpenBlock.push { opening := .declaration } line).goesOn line none = true
  · -- the block is still open at the end of the source, and complete there
    rw [List.head?_nil, Scanner.extend_of_goesOn hon, Scanner.items]
    exact congrArg (fun item => [item]) hitem
  · rw [List.head?_nil, Scanner.extend_of_not_goesOn hon, Scanner.items]
    exact congrArg (fun item => [item]) hitem

/-! ## The kind of a value -/

/-- The keyword of a value, as a word. -/
def Keyword.word (keyword : Keyword) : Word where
  text := keyword.text
  ne_nil := by cases keyword <;> decide
  isWord := (isKeyword_text keyword).isWord

theorem afterKeyword?_append (word : Word) {c : Char} (hc : isWordChar c = false) (t : Text) :
    afterKeyword? (word.text ++ c :: t) word.text = some (trimStart (c :: t)) := by
  simp [afterKeyword?, Text.after?_append, hc]

/-- What an export declares by the keyword of a value: that value, unless the keyword is `const` and
the letters of `enum` follow. -/
theorem exportKind_value (keyword : Keyword) (t : Text) :
    exportKind (keyword.text ++ ' ' :: t) =
      if keyword = .constKeyword ∧ startsWith (trimStart t) "enum" = true then .other
      else .value keyword := by
  have hword : Text.leadingWord? (keyword.text ++ ' ' :: t) = some keyword.text :=
    keyword.word.leadingWord? (u := ' ' :: t) (by rintro c ⟨⟩; decide)
  have hafter : afterKeyword? (keyword.text ++ ' ' :: t) keyword.text = some (trimStart (' ' :: t)) :=
    afterKeyword?_append keyword.word (by decide) t
  have hspace : trimStart (' ' :: t) = trimStart t := Text.trimStart_blank_append .space t
  have hkind : exportKind (keyword.text ++ ' ' :: t) = keywordKind (keyword.text ++ ' ' :: t) := by
    cases keyword <;> rfl
  rw [hkind, keywordKind, hword]
  cases keyword with
  | constKeyword =>
    rw [hspace] at hafter
    change (if (afterKeyword? (Keyword.constKeyword.text ++ ' ' :: t) Keyword.constKeyword.text).any
      (startsWith · "enum") = true then Kind.other else .value .constKeyword) = _
    simp only [hafter, Option.any_some, true_and]
  | letKeyword => rfl
  | varKeyword => rfl

end Ambient.Source

namespace Ambient.Code

open Text (isBlank isWordChar)

/-! ## The ends of a literal -/

/-- The characters that a literal starts or ends with. -/
def isLiteralEnd (c : Char) : Bool :=
  isWordChar c || c == '-' || c == '\'' || c == '"'

theorem ne_of_isLiteralEnd {c d : Char} (hc : isLiteralEnd c = true) (hd : isLiteralEnd d = false) :
    c ≠ d := by
  rintro rfl
  rw [hc] at hd
  cases hd

theorem not_isBlank_of_isLiteralEnd {c : Char} (hc : isLiteralEnd c = true) : isBlank c = false := by
  simp only [isLiteralEnd, Bool.or_eq_true, beq_iff_eq] at hc
  rcases hc with ((hword | rfl) | rfl) | rfl
  · exact not_isBlank_of_isWordChar hword
  all_goals decide

theorem Word.isLiteralEnd (w : Word) {c : Char} (hc : c ∈ w.text) : Code.isLiteralEnd c = true := by
  simp [Code.isLiteralEnd, w.isWord c hc]

theorem Quoted.isLiteralEnd (q : Quoted) : Code.isLiteralEnd q.mark = true := by
  rcases q.isMark with h | h <;> rw [h] <;> decide

namespace Scalar

theorem exists_cons (s : Scalar) : ∃ c u, s.text = c :: u ∧ isLiteralEnd c = true := by
  have hword : ∀ w : Word, ∃ c u, w.text = c :: u ∧ isLiteralEnd c = true := by
    intro w
    obtain ⟨c, u, hcu, -⟩ := w.head
    exact ⟨c, u, hcu, w.isLiteralEnd (by simp [hcu])⟩
  cases s with
  | truth b => exact hword (truthWord b)
  | integer negative digits =>
    cases negative with
    | true => exact ⟨'-', digits.text, rfl, by decide⟩
    | false => exact hword digits.word
  | string q => exact ⟨q.mark, q.body ++ [q.mark], rfl, q.isLiteralEnd⟩

theorem exists_concat (s : Scalar) : ∃ u c, s.text = u ++ [c] ∧ isLiteralEnd c = true := by
  have hword : ∀ w : Word, ∃ u c, w.text = u ++ [c] ∧ isLiteralEnd c = true := by
    intro w
    obtain ⟨u, c, huc, -⟩ := w.getLast
    exact ⟨u, c, huc, w.isLiteralEnd (by simp [huc])⟩
  cases s with
  | truth b => exact hword (truthWord b)
  | integer negative digits =>
    obtain ⟨u, c, huc, hc⟩ := hword digits.word
    refine ⟨(if negative then ['-'] else []) ++ u, c, ?_, hc⟩
    rw [List.append_assoc, ← huc]
    rfl
  | string q => exact ⟨q.mark :: q.body, q.mark, rfl, q.isLiteralEnd⟩

end Scalar

end Ambient.Code

namespace Ambient.Declaration

open Code (Scalar Word)
open Source (Keyword blockKind)
open Text (startsWith)

/-! ## The declaration of a literal -/

/-- The line that exports a literal under a name. -/
def constantLine (keyword : Keyword) (name : Word) (value : Scalar) : Text :=
  printValue keyword name .space .space .space .space value.text

/-- The declaration of a name with a literal for its type. -/
def constantDeclaration (keyword : Keyword) (name : Word) (value : Scalar) : Text :=
  "export declare " ++ keyword.text ++ [' '] ++ name.text ++ ": " ++ value.text ++ [';']

variable (keyword : Keyword) (name : Word) (value : Scalar)

theorem constantLine_eq : constantLine keyword name value =
    "export" ++ ' ' :: (keyword.text ++ ' ' :: (name.text ++ ' ' :: ("= " ++ value.text))) :=
  congrArg (fun t : Text => ("export" : Text) ++ ' ' :: (keyword.text ++ ' ' :: t))
    (List.append_assoc name.text [' '] ('=' :: ' ' :: value.text))

theorem exists_constantLine_concat :
    ∃ t c, constantLine keyword name value = t ++ [c] ∧ Code.isLiteralEnd c = true := by
  obtain ⟨u, c, huc, hc⟩ := value.exists_concat
  refine ⟨"export" ++ ' ' :: (keyword.text ++ ' ' :: (name.text ++ ' ' :: ("= " ++ u))), c, ?_, hc⟩
  rw [constantLine_eq, huc]
  simp

theorem trim_constantLine :
    Text.trim (constantLine keyword name value) = constantLine keyword name value := by
  obtain ⟨t, c, htc, hc⟩ := exists_constantLine_concat keyword name value
  refine Text.trim_solid ⟨⟨'e', _, constantLine_eq keyword name value, by decide⟩, c, t, htc, ?_⟩
  exact Code.not_isBlank_of_isLiteralEnd hc

theorem newline_not_mem_constantLine : '\n' ∉ constantLine keyword name value := by
  have hkeyword : '\n' ∉ keyword.text := by cases keyword <;> decide
  have hname : '\n' ∉ name.text := name.neat.newline_not_mem
  simp only [constantLine_eq, List.mem_append, List.mem_cons, not_or]
  exact ⟨by decide, by decide, hkeyword, by decide, hname, by decide, by decide,
    value.newline_not_mem⟩

/-- The kind of the line: a value, but for a name behind `const` that starts with `enum`. -/
theorem blockKind_constantLine :
    blockKind (constantLine keyword name value) =
      (if keyword = .constKeyword ∧ startsWith name.text "enum" = true then .other
        else .value keyword, true) := by
  have hrest : Text.trimStart (name.text ++ ' ' :: ("= " ++ value.text)) =
      name.text ++ ' ' :: ("= " ++ value.text) := name.solid.trimStart _
  have hkind : blockKind (constantLine keyword name value) =
      (Source.exportKind (keyword.text ++ ' ' :: (name.text ++ ' ' :: ("= " ++ value.text))), true) := by
    rw [constantLine_eq]
    cases keyword <;> rfl
  have hspace : ' ' ∉ ("enum" : Text) := by decide
  rw [hkind, Source.exportKind_value, hrest, Text.startsWith_append_cons hspace]

theorem scan_constantLine :
    Source.scan (constantLine keyword name value ++ ['\n']) =
      [.declaration
        { comment := none
          body := constantLine keyword name value
          kind := if keyword = .constKeyword ∧ startsWith name.text "enum" = true then .other
            else .value keyword
          exported := true }] := by
  obtain ⟨t, c, htc, hc⟩ := exists_constantLine_concat keyword name value
  have hlines : Text.lines (constantLine keyword name value ++ ['\n']) =
      [constantLine keyword name value] := by
    have hfeed := newline_not_mem_constantLine keyword name value
    rw [htc] at hfeed ⊢
    exact Source.lines_concat hfeed (Code.ne_of_isLiteralEnd hc (by decide))
  have htrim := trim_constantLine keyword name value
  have hscan := Source.scan_line hlines (by rw [htrim, constantLine_eq]; rfl)
    (by rw [htrim, constantLine_eq]; rfl)
  rw [hscan, htrim, blockKind_constantLine]

theorem terminated_constantLine :
    terminated (constantLine keyword name value) = constantLine keyword name value ++ [';'] := by
  obtain ⟨t, c, htc, hc⟩ := exists_constantLine_concat keyword name value
  have hne : c ∉ [';'] := by
    simpa using Code.ne_of_isLiteralEnd hc (by decide)
  have hend : Text.endsWith (t ++ [c]) [';'] = false := Text.endsWith_append_cons hne t []
  rw [terminated, htc, hend]
  rfl

theorem valueText?_constantLine (fallback : Fallback) :
    valueText? keyword fallback (constantLine keyword name value) =
      some (constantDeclaration keyword name value) := by
  obtain ⟨c, u, hcu, hc⟩ := value.exists_cons
  obtain ⟨v, d, hvd, hd⟩ := value.exists_concat
  have hstrip := Code.stripComments_of_plain
    (plain_printValue keyword name .space .space .space .space value.balanced.plain)
  have hobject : startsWith value.text ['{'] = false := by
    rw [hcu]
    exact Text.startsWith_eq_false (Code.ne_of_isLiteralEnd hc (by decide)) u []
  have htype : (Binding.mk name.text none (some value.text)).type fallback = value.text := by
    change (if startsWith value.text ['{'] = true then _
      else ((literalType? value.text).or none).getD fallback.text) = value.text
    rw [hobject, literalType?_scalar]
    rfl
  rw [hcu] at hstrip hvd
  have hvalue := valueText?_printValue fallback keyword name .space .space .space .space hstrip hvd
    (Code.not_isBlank_of_isLiteralEnd hc) (Code.not_isBlank_of_isLiteralEnd hd)
    (Code.ne_of_isLiteralEnd hc (by decide)) (Code.ne_of_isLiteralEnd hc (by decide))
    (Code.ne_of_isLiteralEnd hd (by decide))
  rw [constantLine, hcu, hvalue, ← hcu, htype]
  rfl

end Ambient.Declaration

namespace Ambient.Document

open Code (Scalar Word)
open Declaration (constantLine constantDeclaration Symbol)
open Source (Keyword)
open Text (startsWith)

/-- The file of a source with one declaration, and no comment or import, is the line of that
declaration. -/
theorem generate_of_scan {options : Options} {source : Text} {block : Source.Block} {symbol : Symbol}
    (hscan : Source.scan source = [.declaration block])
    (hdeclare : Declaration.declare? options.fallback block = some symbol)
    (hcomment : symbol.comment = none) : generate options source = symbol.text ++ ['\n'] := by
  have hblocks : Source.blocks source = [block] := by
    rw [Source.blocks, hscan]
    rfl
  have himports : Source.imports source = [] := by
    rw [Source.imports, hscan]
    rfl
  have hkept : (if options.keepComments then symbol else { symbol with comment := none }) = symbol := by
    rw [← hcomment, ite_self]
  have hsymbols : symbols options source = [symbol] := by
    rw [symbols, hblocks, List.filterMap_cons, hdeclare]
    exact congrArg (fun s => [s]) hkept
  have hlines : importLines source [symbol] = [] := by
    rw [importLines, himports]
    rfl
  simp only [generate, hsymbols, hlines, compose, List.isEmpty_nil, if_true, List.nil_append,
    List.map_singleton, Symbol.render, hcomment, Text.joinLines, List.intercalate_singleton]

/-- **The declaration file of a literal constant**: the constant with the literal for its type, for
every keyword, name and literal and all options. Only behind `const`, a name that starts with the
letters of `enum` is read as that keyword, and the line is handed on without a type. -/
theorem generate_constant (options : Options) (keyword : Keyword) (name : Word) (value : Scalar) :
    generate options (constantLine keyword name value ++ ['\n']) =
      (if keyword = .constKeyword ∧ startsWith name.text "enum" = true then
          constantLine keyword name value ++ [';']
        else constantDeclaration keyword name value) ++ ['\n'] := by
  have hscan := Declaration.scan_constantLine keyword name value
  split at hscan
  · rename_i henum
    rw [if_pos henum]
    rw [← Declaration.terminated_constantLine]
    exact generate_of_scan hscan rfl rfl
  · rename_i henum
    rw [if_neg henum]
    have hvalue := Declaration.valueText?_constantLine keyword name value options.fallback
    exact generate_of_scan hscan (congrArg (Option.map (Symbol.mk .value none)) hvalue) rfl

/-- A name that starts as the keyword does is no enumeration, and yet it is declared without a type. -/
theorem generate_constant_enumerated :
    generate {} ("export const enumerated = 1" ++ ['\n']) = "export const enumerated = 1;" ++ ['\n'] ∧
      generate {} ("export let enumerated = 1" ++ ['\n']) =
        "export declare let enumerated: 1;" ++ ['\n'] :=
  ⟨generate_constant {} .constKeyword ⟨"enumerated", by decide, by decide⟩
      (.integer false ⟨"1", by decide, by decide⟩),
    generate_constant {} .letKeyword ⟨"enumerated", by decide, by decide⟩
      (.integer false ⟨"1", by decide, by decide⟩)⟩

end Ambient.Document
