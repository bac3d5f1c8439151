/-
The fields of an object constant, whatever stands in them.

A reader splits the object at its commas and takes what stands before the first colon of a piece as a
key, or the first word of a piece without a colon. Where a value leaves an angle bracket open, as a
comparison does, the commas behind it do not separate, and the fields there become part of the value
(`mergedFields`). Of a method only the first word is seen, and that may be a modifier
(`Property.shown`).
-/
import Ambient.Proofs.Code.Items
import Ambient.Proofs.Declaration.Value

namespace Ambient.Declaration

open Code (Gap Nested Plain Word isItemChar joined openAngles stripComments)
open Source (Keyword)
open Text (Solid isBlank isWordChar leadingWord? trim)

/-! ## Object constants -/

/-- An object with its fields on one line. -/
def objectLiteral (fields : List Text) : Text :=
  '{' :: (' ' :: (List.intercalate ", " fields ++ [' ']) ++ ['}'])

def objectConstant (keyword : Keyword) (name : Word) (fields : List Text) : Text :=
  printValue keyword name .space .space .space .space (objectLiteral fields)

theorem objectInner_objectLiteral {ts : List Text} (h : ∀ t ∈ ts, Nested isItemChar t) :
    objectInner (objectLiteral ts) = ' ' :: (List.intercalate ", " ts ++ [' ']) := by
  have hlist : Nested (fun _ => true) (List.intercalate ", " ts) :=
    .intercalate (fun t ht => (h t ht).mono fun _ _ => rfl) rfl rfl
  have hclose := ((hlist.concat_space rfl).space_cons rfl).close?_braces
  rw [objectInner, objectLiteral, hclose]
  show Text.takeBytes (' ' :: (List.intercalate ", " ts ++ [' ']) ++ ['}']) _ = _
  rw [Nat.add_sub_cancel_left, Text.takeBytes_append]

/-- Fields without two slashes in a row have no comments. -/
theorem stripComments_objectConstant (keyword : Keyword) (name : Word) {ts : List Text}
    (h : ∀ t ∈ ts, ¬ ['/', '/'] <:+: t) :
    stripComments (objectConstant keyword name ts) = objectConstant keyword name ts := by
  have hnone : ¬ ['/', '/'] <:+: ([] : Text) := by decide
  have hliteral : ¬ ['/', '/'] <:+: objectLiteral ts := by
    have hspaced := Code.no_slashes_append_cons (c := ' ') (by decide) (Code.no_slashes_intercalate h)
      hnone
    exact Code.no_slashes_append_cons (t := ['{']) (by decide) (by decide)
      (Code.no_slashes_append_cons (by decide) hspaced hnone)
  have hstart : Plain (printValue keyword name .space .space .space .space []) :=
    plain_printValue keyword name .space .space .space .space .nil
  have hne : printValue keyword name .space .space .space .space [] ≠ [] := List.cons_ne_nil 'e' _
  have hfeed : '\n' ∉ printValue keyword name .space .space .space .space [] := by
    have hkeyword : '\n' ∉ keyword.text := by cases keyword <;> decide
    have hname : '\n' ∉ name.text := name.neat.newline_not_mem
    have hspace : '\n' ∉ Gap.space.text := by decide
    unfold printValue
    simp only [List.mem_append, List.mem_cons, not_or]
    exact ⟨by decide, hspace, hkeyword, hspace, ⟨hname, hspace⟩, by decide, hspace, List.not_mem_nil⟩
  have hcut : objectConstant keyword name ts =
      printValue keyword name .space .space .space .space [] ++ objectLiteral ts := by
    unfold objectConstant printValue
    simp
  rw [hcut, Code.stripComments_append_of_no_slashes hstart hne hfeed hliteral]

theorem field?_trim (t : Text) : field? (trim t) = field? t := by
  rw [field?, field?, Text.trim_trim]

/-- Trimming the pieces and leaving out the empty ones makes no difference to their fields. -/
theorem filterMap_field?_trim (ts : List Text) :
    ((ts.map trim).filter (!·.isEmpty)).filterMap field? = ts.filterMap field? := by
  have hnil : field? [] = none := by decide +kernel
  induction ts with
  | nil => rfl
  | cons t ts ih =>
    rw [List.map_cons, List.filter_cons, List.filterMap_cons]
    split
    · rw [List.filterMap_cons, field?_trim, ih]
    · rename_i hempty
      have htrim : trim t = [] := by simpa using hempty
      rw [← field?_trim, htrim, hnil, ih]

theorem objectFields_objectLiteral {t : Text} {ts : List Text}
    (h : ∀ u ∈ t :: ts, Nested isItemChar u) :
    objectFields (objectLiteral (t :: ts)) = (joined t ts).filterMap field? := by
  obtain ⟨ht, hts⟩ := List.forall_mem_cons.1 h
  rw [objectFields, objectInner_objectLiteral h, Code.split_items ht.isPiece hts,
    filterMap_field?_trim]

/-- The declaration of an object constant, from what is read of its fields. -/
theorem declare?_of_objectFields (fallback : Fallback) (comment : Option Text) (exported : Bool)
    (keyword : Keyword) (name : Word) {ts : List Text} {fields : List Field}
    (hstrip : stripComments (objectConstant keyword name ts) = objectConstant keyword name ts)
    (hfields : objectFields (objectLiteral ts) = fields) :
    declare? fallback
        { comment, body := objectConstant keyword name ts, kind := .value keyword, exported } =
      some
        { kind := .value
          comment
          text := "export declare " ++ keyword.text ++ [' '] ++ name.text ++ ": " ++
            braces 0 (fields.map (fieldType fallback 0)) ++ [';'] } := by
  have htype : (Binding.mk name.text none (some (objectLiteral ts))).type fallback =
      braces 0 (fields.map (fieldType fallback 0)) := by
    rw [← hfields, ← objectType_eq]
    rfl
  have hvalue := valueText?_printValue fallback keyword name .space .space .space .space
    (t := '{' :: ' ' :: (List.intercalate ", " ts ++ [' '])) hstrip rfl (by decide) (by decide)
    (by decide) (by decide) (by decide)
  rw [← objectLiteral, htype] at hvalue
  exact congrArg (Option.map fun text => Symbol.mk .value comment text) hvalue

/-! ## Fields with values -/

/-- A field with a value. The brackets of the value match and its strings end, and no comma stands
outside its brackets; which operators stand in it plays no role. -/
structure Entry where
  key : Word
  value : Text
  nested : Nested isItemChar value

/-- A key and what follows its colon. -/
def entryText (key : Word) (value : Text) : Text :=
  fieldText (.word key) .none .space value

def Entry.text (e : Entry) : Text :=
  entryText e.key e.value

theorem entryText_eq (key : Word) (value : Text) :
    entryText key value = key.text ++ ':' :: ' ' :: value := by
  rw [entryText, fieldText, Gap.none, List.append_nil]
  rfl

theorem nested_word (w : Word) : Nested isItemChar w.text :=
  Code.nested_of_forall fun c hc => ⟨Code.isOrdinary_of_isWordChar (w.isWord c hc), by
    simpa [isItemChar] using Code.ne_of_isWordChar (w.isWord c hc) (by decide)⟩

theorem Entry.nested_text (e : Entry) : Nested isItemChar e.text := by
  rw [text, entryText_eq]
  exact (nested_word e.key).append_restart (e.nested.space_cons rfl) rfl rfl rfl

theorem openAngles_word (w : Word) : openAngles w.text = 0 :=
  Code.openAngles_of_forall fun c hc => Code.isOrdinary_of_isWordChar (w.isWord c hc)

/-- The angle brackets of a field are those of its value. -/
theorem openAngles_entryText (key : Word) (value : Text) :
    openAngles (entryText key value) = openAngles value := by
  rw [entryText_eq, (nested_word key).isPiece.openAngles_append (openAngles_word key) rfl rfl,
    Code.openAngles_space_cons]

/-- What a reader finds in a list of fields. As long as an angle bracket is open, a field is part of
the value before it. -/
def mergedFields (key : Word) (value : Text) : List Entry → List Field
  | [] => [.valued key.text (trim value)]
  | e :: es =>
    if openAngles value = 0 then .valued key.text (trim value) :: mergedFields e.key e.value es
    else mergedFields key (value ++ ',' :: ' ' :: e.text) es

theorem filterMap_joined (key : Word) (value : Text) (es : List Entry) :
    (joined (entryText key value) (es.map Entry.text)).filterMap field? = mergedFields key value es := by
  induction es generalizing key value with
  | nil => simp [joined, mergedFields, entryText, field?_fieldText, Key.text]
  | cons e es ih =>
    rw [List.map_cons, joined, mergedFields, openAngles_entryText]
    split
    · rw [List.filterMap_cons, entryText, field?_fieldText]
      exact congrArg (List.cons _) (ih e.key e.value)
    · have hjoin : entryText key value ++ ',' :: ' ' :: e.text =
          entryText key (value ++ ',' :: ' ' :: e.text) := by
        simp [entryText_eq]
      rw [hjoin, ih]

/-- The key that a field is shown with. -/
def Field.key : Field → Text
  | .named key => key
  | .valued key _ => key

theorem length_mergedFields_le (key : Word) (value : Text) (es : List Entry) :
    (mergedFields key value es).length ≤ es.length + 1 := by
  induction es generalizing key value with
  | nil => exact Nat.le_refl 1
  | cons e es ih =>
    rw [mergedFields]
    split
    · exact Nat.succ_le_succ (ih e.key e.value)
    · exact Nat.le_succ_of_le (ih key _)

theorem length_mergedFields_eq_iff (e : Entry) (es : List Entry) :
    (mergedFields e.key e.value es).length = es.length + 1 ↔
      ∀ f ∈ (e :: es).dropLast, openAngles f.value = 0 := by
  induction es generalizing e with
  | nil => simp [mergedFields]
  | cons f es ih =>
    rw [List.dropLast_cons_cons, List.forall_mem_cons, ← ih, mergedFields]
    split
    · rename_i hclosed
      simp [hclosed]
    · -- what is left of the list is one field shorter, so the keys cannot all be there
      rename_i hopen
      have hle := length_mergedFields_le e.key (e.value ++ ',' :: ' ' :: f.text) es
      simp only [hopen, List.length_cons, false_and, iff_false]
      omega

theorem map_key_mergedFields {e : Entry} {es : List Entry}
    (h : ∀ f ∈ (e :: es).dropLast, openAngles f.value = 0) :
    (mergedFields e.key e.value es).map Field.key = (e :: es).map (·.key.text) := by
  induction es generalizing e with
  | nil => rfl
  | cons f es ih =>
    rw [List.dropLast_cons_cons, List.forall_mem_cons] at h
    rw [mergedFields, if_pos h.1, List.map_cons, ih h.2]
    rfl

/-- **Which fields of an object survive**: a field is declared on its own unless an angle bracket is
open where it starts; then it is lost in the value before it. All keys are kept, in order, exactly
when no value but the last leaves one open. -/
theorem declare?_entries (fallback : Fallback) (comment : Option Text) (exported : Bool)
    (keyword : Keyword) (name : Word) (e : Entry) (es : List Entry)
    (hcomments : stripComments (objectConstant keyword name ((e :: es).map Entry.text)) =
      objectConstant keyword name ((e :: es).map Entry.text)) :
    declare? fallback
        { comment
          body := objectConstant keyword name ((e :: es).map Entry.text)
          kind := .value keyword
          exported } =
      some
        { kind := .value
          comment
          text := "export declare " ++ keyword.text ++ [' '] ++ name.text ++ ": " ++
            braces 0 ((mergedFields e.key e.value es).map (fieldType fallback 0)) ++ [';'] } ∧
      ((mergedFields e.key e.value es).map Field.key = (e :: es).map (·.key.text) ↔
        ∀ f ∈ (e :: es).dropLast, openAngles f.value = 0) := by
  have hnested : ∀ t ∈ (e :: es).map Entry.text, Nested isItemChar t :=
    List.forall_mem_map.2 fun f _ => f.nested_text
  have hfields : objectFields (objectLiteral ((e :: es).map Entry.text)) =
      mergedFields e.key e.value es := by
    rw [List.map_cons] at hnested ⊢
    rw [objectFields_objectLiteral hnested]
    exact filterMap_joined e.key e.value es
  refine ⟨declare?_of_objectFields fallback comment exported keyword name hcomments hfields, ?_, ?_⟩
  · intro hkeys
    refine (length_mergedFields_eq_iff e es).1 ?_
    simpa using congrArg List.length hkeys
  · exact map_key_mergedFields

def comparisonEntry : Entry where
  key := ⟨"a", by decide, by decide⟩
  value := "1 < 2"
  nested := ⟨by decide +kernel, by decide +kernel⟩

def numberEntry : Entry where
  key := ⟨"b", by decide, by decide⟩
  value := "3"
  nested := ⟨by decide +kernel, by decide +kernel⟩

/-- A comparison swallows the field behind it. -/
theorem declare?_entries_comparison :
    declare? .any
        { comment := none
          body := "export const X = \x7b a: 1 < 2, b: 3 \x7d"
          kind := .value .constKeyword
          exported := true } =
      some
        { kind := .value
          comment := none
          text := "export declare const X: \x7b\n  a: any;\n\x7d;" } := by
  have h := (declare?_entries .any none true .constKeyword ⟨"X", by decide, by decide⟩ comparisonEntry
    [numberEntry] (by decide +kernel)).1
  have hbody : objectConstant .constKeyword ⟨"X", by decide, by decide⟩
      ([comparisonEntry, numberEntry].map Entry.text) = "export const X = \x7b a: 1 < 2, b: 3 \x7d" := by
    decide +kernel
  rw [hbody] at h
  exact h.trans (by decide +kernel)

/-! ## Methods -/

/-- What stands between the brackets of a method. Its own brackets match, and no line comment starts
in it and no angle bracket opens in it. -/
structure Enclosed where
  text : Text
  nested : Nested (fun _ => true) text
  slashes : ¬ ['/', '/'] <:+: text
  angle : '<' ∉ Code.codeText text

/-- A field whose value is not written behind a colon: a shorthand, or a method that a word such as
`async` or `get` may mark. -/
inductive Property where
  | shorthand (key : Word)
  | method (mark : Option Word) (key : Word) (params body : Enclosed)

/-- A method behind its name. -/
def methodTail (params body : Enclosed) : Text :=
  '(' :: (params.text ++ [')']) ++ ' ' :: '{' :: (body.text ++ ['}'])

def Property.text : Property → Text
  | .shorthand key => key.text
  | .method none key params body => key.text ++ methodTail params body
  | .method (some mark) key params body =>
    mark.text ++ ' ' :: (key.text ++ methodTail params body)

/-- The name that the type of an object gives a field. -/
def Property.shown : Property → Word
  | .shorthand key | .method none key _ _ => key
  | .method (some mark) _ _ _ => mark

/-- Outside the brackets of a method neither a comma nor a colon stands. -/
def isNameChar (c : Char) : Bool :=
  c != ',' && c != ':'

/-- Texts of fields without a colon. -/
structure Unvalued (t : Text) : Prop where
  nested : Nested isNameChar t
  angle : '<' ∉ Code.codeText t
  slashes : ¬ ['/', '/'] <:+: t

namespace Unvalued

variable {t : Text}

theorem of_forall (h : ∀ c ∈ t, Code.isOrdinary c = true ∧ isNameChar c = true) : Unvalued t := by
  have hordinary : ∀ c ∈ t, Code.isOrdinary c = true := fun c hc => (h c hc).1
  refine ⟨Code.nested_of_forall h, ?_, Code.no_slashes_of_not_mem ?_⟩
  · rw [Code.codeText_of_forall hordinary]
    exact fun hmem => Code.ne_of_isOrdinary (hordinary _ hmem) (by decide) rfl
  · exact fun hmem => Code.ne_of_isOrdinary (hordinary _ hmem) (by decide) rfl

theorem group (h : Unvalued t) (e : Enclosed) {o c : Char} (hpair : Code.closer? o = some c)
    (ho : Code.weight o = 1) : Unvalued (t ++ o :: (e.text ++ [c])) := by
  obtain ⟨hnested, hcode⟩ := h.nested.append_group e.nested hpair ho
  obtain ⟨hoslash, hcslash, hoangle, hcangle⟩ : o ≠ '/' ∧ c ≠ '/' ∧ '<' ≠ o ∧ '<' ≠ c := by
    rcases Code.closer?_cases hpair with ⟨rfl, rfl⟩ | ⟨rfl, rfl⟩ | ⟨rfl, rfl⟩ | ⟨rfl, rfl⟩
    case inr.inr.inr => cases ho
    all_goals decide
  refine ⟨hnested, ?_, ?_⟩
  · rw [hcode]
    simp [h.angle, e.angle, hoangle, hcangle]
  · exact Code.no_slashes_append_cons hoslash h.slashes
      (Code.no_slashes_append_cons hcslash e.slashes (by decide))

theorem concat_space (h : Unvalued t) : Unvalued (t ++ [' ']) where
  nested := h.nested.concat_space rfl
  angle := by
    rw [Code.codeText_concat (by decide) rfl h.nested.mode]
    simp [h.angle]
  slashes := Code.no_slashes_append_cons (by decide) h.slashes (by decide)

theorem method (h : Unvalued t) (params body : Enclosed) : Unvalued (t ++ methodTail params body) := by
  have hbody := ((h.group params (o := '(') rfl rfl).concat_space).group body (o := '{') rfl rfl
  simpa [methodTail] using hbody

end Unvalued

theorem ordinary_of_word (w : Word) : ∀ c ∈ w.text, Code.isOrdinary c = true ∧ isNameChar c = true := by
  intro c hc
  have hne := fun d hd => Code.ne_of_isWordChar (d := d) (w.isWord c hc) hd
  exact ⟨Code.isOrdinary_of_isWordChar (w.isWord c hc),
    by simp [isNameChar, hne ',' (by decide), hne ':' (by decide)]⟩

namespace Property

theorem unvalued (p : Property) : Unvalued p.text := by
  match p with
  | .shorthand key => exact .of_forall (ordinary_of_word key)
  | .method none key params body => exact (Unvalued.of_forall (ordinary_of_word key)).method params body
  | .method (some mark) key params body =>
    have hspace : ∀ c ∈ [' '], Code.isOrdinary c = true ∧ isNameChar c = true := by decide
    have hwords : Unvalued (mark.text ++ ' ' :: key.text) :=
      .of_forall (List.forall_mem_append.2 ⟨ordinary_of_word mark,
        List.forall_mem_append.2 ⟨hspace, ordinary_of_word key⟩⟩)
    have h := hwords.method params body
    rw [List.append_assoc] at h
    exact h

/-- A field starts with the word it is shown by. -/
theorem exists_rest (p : Property) :
    ∃ rest, p.text = p.shown.text ++ rest ∧ ∀ c, rest.head? = some c → isWordChar c = false := by
  have hopen : isWordChar '(' = false := by decide
  have hspace : isWordChar ' ' = false := by decide
  match p with
  | .shorthand key => exact ⟨[], (List.append_nil _).symm, fun c hc => by cases hc⟩
  | .method none key params body =>
    exact ⟨methodTail params body, rfl, fun c hc => Option.some.inj hc ▸ hopen⟩
  | .method (some mark) key params body =>
    exact ⟨' ' :: (key.text ++ methodTail params body), rfl, fun c hc => Option.some.inj hc ▸ hspace⟩

theorem exists_concat (p : Property) : ∃ t c, p.text = t ++ [c] ∧ isBlank c = false := by
  have htail : ∀ (t : Text) (params body : Enclosed),
      t ++ methodTail params body =
        t ++ ('(' :: (params.text ++ [')']) ++ ' ' :: '{' :: body.text) ++ ['}'] := by
    simp [methodTail]
  match p with
  | .shorthand key =>
    obtain ⟨u, c, hcu, hc⟩ := key.getLast
    exact ⟨u, c, hcu, Code.not_isBlank_of_isWordChar hc⟩
  | .method none key params body => exact ⟨_, '}', htail key.text params body, by decide⟩
  | .method (some mark) key params body =>
    have h := htail (mark.text ++ ' ' :: key.text) params body
    rw [List.append_assoc] at h
    exact ⟨_, '}', h, by decide⟩

theorem solid (p : Property) : Solid p.text := by
  obtain ⟨rest, htext, -⟩ := p.exists_rest
  obtain ⟨c, u, hcu, hc⟩ := p.shown.head
  obtain ⟨t, d, htd, hd⟩ := p.exists_concat
  refine ⟨⟨c, u ++ rest, ?_, Code.not_isBlank_of_isWordChar hc⟩, ⟨d, t, htd, hd⟩⟩
  rw [htext, hcu]
  rfl

/-- Of a field without a colon its first word is read. -/
theorem field?_text (p : Property) : field? p.text = some (.named p.shown.text) := by
  obtain ⟨rest, htext, hrest⟩ := p.exists_rest
  obtain ⟨c, u, hcu, hc⟩ := p.shown.head
  have hcons : p.text = c :: (u ++ rest) := by
    rw [htext, hcu]
    rfl
  have hcolon : Code.find? (fun _ d => d == ':') p.text = none := by
    refine Code.find?_eq_none fun x hx => ?_
    have hne : x.2 ≠ ':' := Code.ne_of_mem_topsFrom rfl rfl p.unvalued.nested.due rfl x hx
    simpa using hne
  have hword : leadingWord? p.text = some p.shown.text := by
    rw [htext]
    exact p.shown.leadingWord? hrest
  simp only [field?_of_head (Text.trim_solid p.solid) hcons (Code.ne_of_isWordChar hc (by decide))
    (Code.ne_of_isWordChar hc (by decide)), hcolon, hword, Option.elim_none,
    Option.map_some]

end Property

theorem objectFields_properties (ps : List Property) :
    objectFields (objectLiteral (ps.map Property.text)) = ps.map fun p => .named p.shown.text := by
  cases ps with
  | nil => decide +kernel
  | cons p ps =>
    have hname : ∀ c, isNameChar c = true → isItemChar c = true := fun c hc =>
      (Bool.and_eq_true_iff.1 hc).1
    have hnested : ∀ t ∈ (p :: ps).map Property.text, Nested isItemChar t :=
      List.forall_mem_map.2 fun q _ => q.unvalued.nested.mono hname
    have hclosed : ∀ t ∈ (p :: ps).map Property.text, openAngles t = 0 :=
      List.forall_mem_map.2 fun q _ => Code.openAngles_eq_zero q.unvalued.angle
    rw [List.map_cons] at hnested hclosed ⊢
    have hfields : field? ∘ Property.text = some ∘ fun q => .named q.shown.text :=
      funext Property.field?_text
    rw [objectFields_objectLiteral hnested, Code.joined_of_closed hclosed, ← List.map_cons,
      List.filterMap_map, hfields, List.filterMap_eq_map]

/-- **Of a method only the first word is seen**: every object of shorthands and methods is declared
with one field for each of them, in order, and a method that a word marks goes by that word. -/
theorem declare?_properties (fallback : Fallback) (comment : Option Text) (exported : Bool)
    (keyword : Keyword) (name : Word) (ps : List Property) :
    declare? fallback
        { comment
          body := objectConstant keyword name (ps.map Property.text)
          kind := .value keyword
          exported } =
      some
        { kind := .value
          comment
          text := "export declare " ++ keyword.text ++ [' '] ++ name.text ++ ": " ++
            braces 0 (ps.map fun p => p.shown.text ++ ": " ++ fallback.text ++ [';']) ++ [';'] } := by
  have hslashes : ∀ t ∈ ps.map Property.text, ¬ ['/', '/'] <:+: t :=
    List.forall_mem_map.2 fun p _ => p.unvalued.slashes
  have h := declare?_of_objectFields fallback comment exported keyword name
    (stripComments_objectConstant keyword name hslashes) (objectFields_properties ps)
  rw [List.map_map] at h
  exact h

def asyncMethod : Property :=
  .method (some ⟨"async", by decide, by decide⟩) ⟨"load", by decide, by decide⟩
    ⟨[], ⟨rfl, rfl⟩, by decide, by decide⟩
    ⟨" return 1 ", ⟨by decide +kernel, by decide +kernel⟩, by decide +kernel, by decide +kernel⟩

/-- An asynchronous method goes by its mark and not by its name. -/
theorem declare?_properties_async :
    declare? .any
        { comment := none
          body := "export const X = \x7b async load() \x7b return 1 \x7d \x7d"
          kind := .value .constKeyword
          exported := true } =
      some
        { kind := .value
          comment := none
          text := "export declare const X: \x7b\n  async: any;\n\x7d;" } := by
  have h := declare?_properties .any none true .constKeyword ⟨"X", by decide, by decide⟩ [asyncMethod]
  have hbody : objectConstant .constKeyword ⟨"X", by decide, by decide⟩
      ([asyncMethod].map Property.text) =
      "export const X = \x7b async load() \x7b return 1 \x7d \x7d" := by
    decide +kernel
  rw [hbody] at h
  exact h.trans (by decide +kernel)

end Ambient.Declaration
