/-
The type of an object literal, however the literal is laid out.

A `Literal` is a tree of objects, lists and scalars together with the blanks between its tokens, and
`Literal.text` prints it with them. `Literal.type` is the type it should get, which does not look at
the blanks. Each search of `objectType` finds its sign where the printer put it, on every level of the
tree, because the parts before the sign are balanced (`objectFields_text`). So a printed literal gets
its type, at every nesting depth (`Literal.typeOf_text`).
-/
import Ambient.Declaration.Object
import Ambient.Proofs.Code.Token
import Mathlib.Data.List.TakeWhile

namespace Ambient.Declaration

open Code (Balanced Digits Gap Lacks Quoted Scalar Word)
open Text (Solid isBlank isWordChar isDigit trim trimEnd startsWith)

/-! ## Scalars and lists -/

theorem bare_concat {t : Text} {c : Char} (hsolid : Solid (t ++ [c])) (hc : isBlank c = false)
    (hsemicolon : c ≠ ';') (ht : c ≠ 't') : bare (t ++ [c]) = t ++ [c] := by
  have hnone : Text.before? (t ++ [c]) (("as cons" : Text) ++ ['t']) = none :=
    Text.before?_eq_none ht
  have hword : ("as const" : Text) = ("as cons" : Text) ++ ['t'] := by decide
  rw [bare, Text.trim_solid hsolid, Text.trimEndWhile_concat (by simpa using hsemicolon),
    Text.trimEnd_concat hc, hword]
  simp only [hnone]

theorem isUnsignedNumeral_digits (n : Digits) : isUnsignedNumeral n.text = true := by
  have hdigits : ∀ c ∈ n.text, isDigit c = true := fun c hc => Code.isDigit_of_isDigit (n.isDigits c hc)
  obtain ⟨c, u, hcu, -⟩ := n.word.head
  have hcu : n.text = c :: u := hcu
  rw [hcu] at hdigits ⊢
  obtain ⟨hc, hu⟩ := List.forall_mem_cons.1 hdigits
  have hdot : c ≠ '.' := by
    rintro rfl
    exact absurd hc (by decide)
  have hrest : u.dropWhile isDigitOrGap = [] := by
    rw [List.dropWhile_eq_nil_iff]
    intro d hd
    simp [isDigitOrGap, hu d hd]
  have hmantissa : afterMantissa? (c :: u) = some [] := by
    unfold afterMantissa?
    split
    · rename_i heq
      cases heq
      exact absurd rfl hdot
    · rename_i heq
      cases heq
      simp [hc, hrest]
    · rename_i heq
      cases heq
  simp [isUnsignedNumeral, hmantissa, afterExponent, isNumeralEnd]

theorem not_isNumeral_of_head {c : Char} {t : Text} (hminus : c ≠ '-') (hdot : c ≠ '.')
    (hdigit : isDigit c = false) : isNumeral (c :: t) = false := by
  have hmantissa : afterMantissa? (c :: t) = none := by
    unfold afterMantissa?
    split
    · rename_i heq
      cases heq
      exact absurd rfl hdot
    · rename_i heq
      cases heq
      simp [hdigit]
    · rfl
  have hzero : c ≠ '0' := by
    rintro rfl
    exact absurd hdigit (by decide)
  unfold isNumeral
  split
  · rename_i heq
    cases heq
    exact absurd rfl hminus
  · simp [isUnsignedNumeral, hmantissa, hzero]

theorem isString_quoted (q : Quoted) : isString q.text = true := by
  have hsize : 2 ≤ Text.size q.text := by
    have := q.mark.utf8Size_pos
    simp only [Quoted.text, Text.size, Text.size_append]
    omega
  have hmark : (q.mark == '\'' || q.mark == '"') = true := by
    simpa using q.isMark
  have hlast : q.text.getLast? = some q.mark :=
    List.getLast?_concat (l := q.mark :: q.body)
  show ((q.mark == '\'' || q.mark == '"') && decide (2 ≤ Text.size q.text) &&
    q.text.getLast? == some q.mark && (Code.chars q.text).isEmpty) = true
  simp [hmark, hsize, hlast, q.chars_eq_nil]

theorem isNumeral_integer (negative : Bool) (digits : Digits) :
    isNumeral (Scalar.integer negative digits).text = true := by
  have h := isUnsignedNumeral_digits digits
  cases negative with
  | true => exact h
  | false =>
    obtain ⟨c, u, hcu, -⟩ := digits.word.head
    have hcu : digits.text = c :: u := hcu
    have hminus : c ≠ '-' := by
      rintro rfl
      exact absurd (digits.isDigits '-' (by simp [hcu])) (by decide)
    show isNumeral digits.text = true
    rw [hcu] at h ⊢
    unfold isNumeral
    split
    · rename_i heq
      cases heq
      exact absurd rfl hminus
    · exact h

/-- A scalar has its own text for its type. -/
theorem literalType?_scalar (s : Scalar) : literalType? s.text = some s.text := by
  cases s with
  | truth b => cases b <;> decide
  | integer negative digits =>
    obtain ⟨c, u, hcu, hc⟩ := digits.word.solid.last
    have hdigit : c.isDigit = true := by
      have hcu : digits.text = u ++ [c] := hcu
      exact digits.isDigits c (by simp [hcu])
    have htext : (Scalar.integer negative digits).text =
        (if negative then ['-'] else []) ++ u ++ [c] := by
      rw [List.append_assoc]
      exact congrArg (_ ++ ·) hcu
    have hsolid := (Scalar.integer negative digits).solid
    have hbare : bare (Scalar.integer negative digits).text = (Scalar.integer negative digits).text := by
      rw [htext] at hsolid ⊢
      refine bare_concat hsolid hc ?_ ?_ <;> (rintro rfl; exact absurd hdigit (by decide))
    rw [literalType?, hbare]
    simp [isNumeral_integer]
  | string q =>
    have hne : q.mark ≠ ';' ∧ q.mark ≠ 't' := by
      rcases q.isMark with h | h <;> rw [h] <;> decide
    have hbare : bare q.text = q.text :=
      bare_concat (t := q.mark :: q.body) q.solid q.not_isBlank_mark hne.1 hne.2
    rw [literalType?]
    simp only [Scalar.text, hbare, isString_quoted, or_true, if_true]

/-- A list has the type of any list, whatever it holds. -/
theorem literalType?_brackets (t : Text) : literalType? ('[' :: (t ++ [']'])) = some "any[]" := by
  have hbracket : Solid ['['] := .singleton (by decide)
  have hsolid : Solid ('[' :: t ++ [']']) := hbracket.append t (.singleton (by decide))
  have hbare : bare ('[' :: (t ++ [']'])) = '[' :: (t ++ [']']) :=
    bare_concat (t := '[' :: t) hsolid (by decide) (by decide) (by decide)
  have hnumeral : isNumeral ('[' :: (t ++ [']'])) = false :=
    not_isNumeral_of_head (by decide) (by decide) (by decide)
  have hends : Text.endsWith ('[' :: (t ++ [']'])) [']'] = true := by
    rw [Text.endsWith, List.isSuffixOf_iff_suffix]
    exact ⟨'[' :: t, rfl⟩
  rw [literalType?, hbare]
  simp [hnumeral, isString, startsWith, hends]

/-! ## Literals as they are printed -/

/-- The name of a field. -/
inductive Key where
  | word (w : Word)
  | string (q : Quoted)

/-- The elements of a list, with the blanks around them. A comma may follow the last one. -/
inductive Items where
  | none (gap : Gap)
  | one (before : Gap) (item : Scalar) (after : Gap)
  | more (before : Gap) (item : Scalar) (after : Gap) (rest : Items)

mutual

/-- A tree of objects, lists and scalars, with the blanks between its tokens. -/
inductive Literal where
  | scalar (s : Scalar)
  | list (items : Items)
  | object (fields : Fields)

/-- The fields of an object. A comma may follow the last one. -/
inductive Fields where
  | none (gap : Gap)
  | one (before : Gap) (key : Key) (beforeColon afterColon : Gap) (value : Literal) (after : Gap)
  | more (before : Gap) (key : Key) (beforeColon afterColon : Gap) (value : Literal) (after : Gap)
      (rest : Fields)

end

def Key.text : Key → Text
  | .word w => w.text
  | .string q => q.text

def Items.text : Items → Text
  | .none gap => gap.text
  | .one before item after => before.text ++ (item.text ++ after.text)
  | .more before item after rest => before.text ++ (item.text ++ after.text) ++ ',' :: rest.text

/-- A field between its blanks. -/
def fieldText (key : Key) (beforeColon afterColon : Gap) (value : Text) : Text :=
  key.text ++ beforeColon.text ++ ':' :: (afterColon.text ++ value)

mutual

def Literal.text : Literal → Text
  | .scalar s => s.text
  | .list items => '[' :: (items.text ++ [']'])
  | .object fields => '{' :: (fields.text ++ ['}'])

def Fields.text : Fields → Text
  | .none gap => gap.text
  | .one before key beforeColon afterColon value after =>
    before.text ++ (fieldText key beforeColon afterColon value.text ++ after.text)
  | .more before key beforeColon afterColon value after rest =>
    before.text ++ (fieldText key beforeColon afterColon value.text ++ after.text) ++ ',' :: rest.text

end

mutual

/-- The type of a literal at a nesting depth. The blanks play no role. -/
def Literal.type (depth : Nat) : Literal → Text
  | .scalar s => s.text
  | .list _ => "any[]"
  | .object fields =>
    match fields.lines (depth + 1) with
    | [] => "\x7b\x7d"
    | lines => "\x7b\n" ++ lines.flatten ++ indent depth ++ ['}']

/-- The lines for the fields of an object, one for each. -/
def Fields.lines (depth : Nat) : Fields → List Text
  | .none _ => []
  | .one _ key _ _ value _ => [indent depth ++ key.text ++ ": " ++ value.type depth ++ ";\n"]
  | .more _ key _ _ value _ rest =>
    (indent depth ++ key.text ++ ": " ++ value.type depth ++ ";\n") :: rest.lines depth

end

/-! ## Printed literals are balanced -/

namespace Key

theorem balanced : (k : Key) → Balanced k.text
  | .word w => w.balanced
  | .string q => q.balanced

theorem solid : (k : Key) → Solid k.text
  | .word w => w.solid
  | .string q => q.solid

theorem lacks {d : Char} (hd : isWordChar d = false) : (k : Key) → Lacks d k.text
  | .word w => w.lacks hd
  | .string q => q.lacks d

/-- A field starts neither as a comment nor as a spread. -/
theorem head (k : Key) : ∃ c u, k.text = c :: u ∧ c ≠ '/' ∧ c ≠ '.' := by
  cases k with
  | word w =>
    obtain ⟨c, u, hcu, hc⟩ := w.head
    exact ⟨c, u, hcu, Code.ne_of_isWordChar hc (by decide), Code.ne_of_isWordChar hc (by decide)⟩
  | string q =>
    refine ⟨q.mark, q.body ++ [q.mark], rfl, ?_⟩
    rcases q.isMark with h | h <;> rw [h] <;> decide

end Key

theorem Items.balanced : (items : Items) → Balanced items.text
  | .none gap => gap.balanced
  | .one before item after => before.balanced.append (item.balanced.append after.balanced)
  | .more before item after rest =>
    (before.balanced.append (item.balanced.append after.balanced)).append
      (.char (by decide) rest.balanced)

theorem balanced_fieldText (key : Key) (beforeColon afterColon : Gap) {value : Text}
    (hvalue : Balanced value) : Balanced (fieldText key beforeColon afterColon value) :=
  (key.balanced.append beforeColon.balanced).append
    (.char (by decide) (afterColon.balanced.append hvalue))

mutual

theorem Literal.balanced : (v : Literal) → Balanced v.text
  | .scalar s => by
    rw [Literal.text]
    exact s.balanced
  | .list items => by
    rw [Literal.text]
    exact items.balanced.wrap rfl
  | .object fields => by
    rw [Literal.text]
    exact fields.balanced.wrap rfl

theorem Fields.balanced : (fields : Fields) → Balanced fields.text
  | .none gap => by
    rw [Fields.text]
    exact gap.balanced
  | .one before key beforeColon afterColon value after => by
    rw [Fields.text]
    exact before.balanced.append
      ((balanced_fieldText key beforeColon afterColon value.balanced).append after.balanced)
  | .more before key beforeColon afterColon value after rest => by
    rw [Fields.text]
    exact (before.balanced.append ((balanced_fieldText key beforeColon afterColon
      value.balanced).append after.balanced)).append (.char (by decide) rest.balanced)

end

namespace Literal

theorem solid (v : Literal) : Solid v.text := by
  have hsquare : ∀ t, Solid ('[' :: (t ++ [']'])) := fun t =>
    (Solid.singleton (by decide)).append t (.singleton (by decide))
  have hcurly : ∀ t, Solid ('{' :: (t ++ ['}'])) := fun t =>
    (Solid.singleton (by decide)).append t (.singleton (by decide))
  cases v with
  | scalar s =>
    rw [text]
    exact s.solid
  | list items =>
    rw [text]
    exact hsquare items.text
  | object fields =>
    rw [text]
    exact hcurly fields.text

theorem lacks_comma (v : Literal) : Lacks ',' v.text := by
  cases v with
  | scalar s =>
    rw [text]
    exact s.lacks (by decide) (by decide)
  | list items =>
    rw [text]
    exact .group rfl items.balanced (by decide) .nil .nil
  | object fields =>
    rw [text]
    exact .group rfl fields.balanced (by decide) .nil .nil

end Literal

theorem solid_fieldText (key : Key) (beforeColon afterColon : Gap) {value : Text}
    (hvalue : Solid value) : Solid (fieldText key beforeColon afterColon value) := by
  have h := key.solid.append (beforeColon.text ++ ':' :: afterColon.text) hvalue
  simpa [fieldText] using h

theorem lacks_comma_fieldText (key : Key) (beforeColon afterColon : Gap) {value : Text}
    (hvalue : Balanced value) (hlacks : Lacks ',' value) :
    Lacks ',' (fieldText key beforeColon afterColon value) := by
  have hbefore : Lacks ',' (key.text ++ beforeColon.text) :=
    .append key.balanced beforeColon.balanced (key.lacks (by decide)) (beforeColon.lacks (by decide))
  have hafter : Lacks ',' (afterColon.text ++ value) :=
    .append afterColon.balanced hvalue (afterColon.lacks (by decide)) hlacks
  exact .append (key.balanced.append beforeColon.balanced)
    (.char (by decide) (afterColon.balanced.append hvalue)) hbefore
    (.char (by decide) (by decide) (afterColon.balanced.append hvalue) hafter)

/-- A field with the blanks around it. -/
theorem lacks_comma_padded (before after : Gap) {t : Text} (ht : Balanced t) (hlacks : Lacks ',' t) :
    Lacks ',' (before.text ++ (t ++ after.text)) :=
  .append before.balanced (ht.append after.balanced) (before.lacks (by decide))
    (.append ht after.balanced hlacks (after.lacks (by decide)))

/-! ## Reading the fields back -/

/-- The fields that a reader of the printed object should find. -/
def Fields.entries : Fields → List (Key × Literal)
  | .none _ => []
  | .one _ key _ _ value _ => [(key, value)]
  | .more _ key _ _ value _ rest => (key, value) :: rest.entries

/-- The printed fields without the blanks around them. -/
def Fields.parts : Fields → List Text
  | .none _ => []
  | .one _ key beforeColon afterColon value _ => [fieldText key beforeColon afterColon value.text]
  | .more _ key beforeColon afterColon value _ rest =>
    fieldText key beforeColon afterColon value.text :: rest.parts

theorem Fields.split_text : (fields : Fields) → Code.split ',' fields.text = fields.parts
  | .none gap => by
    rw [Fields.text, Code.split_of_blank gap.blank (gap.lacks (by decide)), Fields.parts]
  | .one before key beforeColon afterColon value after => by
    have hlacks := lacks_comma_fieldText key beforeColon afterColon value.balanced value.lacks_comma
    have hbalanced := balanced_fieldText key beforeColon afterColon value.balanced
    rw [Fields.text, Code.split_of_solid before.blank
      (solid_fieldText key beforeColon afterColon value.solid) after.blank
      (lacks_comma_padded before after hbalanced hlacks), Fields.parts]
  | .more before key beforeColon afterColon value after rest => by
    have hlacks := lacks_comma_fieldText key beforeColon afterColon value.balanced value.lacks_comma
    have hbalanced := balanced_fieldText key beforeColon afterColon value.balanced
    have hpadded := lacks_comma_padded before after hbalanced hlacks
    rw [Fields.text, Code.split_append_cons (before.balanced.append (hbalanced.append after.balanced))
      hpadded rest.balanced, Code.split_of_solid before.blank
      (solid_fieldText key beforeColon afterColon value.solid) after.blank hpadded, rest.split_text,
      Fields.parts]
    rfl

theorem skipComments_of_head {c : Char} {t : Text} (hslash : c ≠ '/') :
    skipComments (c :: t) = c :: t := by
  have hstart : startsWith (c :: t) "/*" = false := Text.startsWith_eq_false hslash t ['*']
  rw [skipComments, hstart]
  rfl

/-- A field ends with the last character of its value that is no blank. -/
theorem trim_fieldText (key : Key) (beforeColon afterColon : Gap) (value : Text) :
    trim (fieldText key beforeColon afterColon value) =
      key.text ++ beforeColon.text ++ ':' :: trimEnd (afterColon.text ++ value) := by
  rw [trim, fieldText, List.append_assoc, key.solid.trimStart, ← List.append_assoc,
    Text.trimEnd_append_cons (by decide)]

/-- A text that starts neither as a comment nor as a spread is a field as it stands. -/
theorem field?_of_head {t u v : Text} {c : Char} (htrim : trim t = u) (hcons : u = c :: v)
    (hslash : c ≠ '/') (hdot : c ≠ '.') :
    field? t = (Code.find? (fun _ c => c == ':') u).elim ((Text.leadingWord? u).map .named)
      fun colon =>
        some (.valued (trim (Text.takeBytes u colon)) (trim (Text.dropBytes u (colon + 1)))) := by
  have hskip : skipComments u = u := by rw [hcons, skipComments_of_head hslash]
  have hspread : startsWith u "..." = false := by
    rw [hcons]
    exact Text.startsWith_eq_false hdot v ['.', '.']
  have hempty : u.isEmpty = false := by
    rw [hcons]
    rfl
  rw [field?, htrim]
  simp only [hskip, hempty, hspread, Bool.or_self, Bool.false_eq_true, if_false]
  cases Code.find? (fun _ c => c == ':') u with
  | none => rfl
  | some colon => rfl

/-- The key and the value of a printed field are what a reader finds around the colon. -/
theorem field?_fieldText (key : Key) (beforeColon afterColon : Gap) (value : Text) :
    field? (fieldText key beforeColon afterColon value) = some (.valued key.text (trim value)) := by
  obtain ⟨c, u, hcu, hslash, hdot⟩ := key.head
  have hcons : key.text ++ beforeColon.text ++ ':' :: trimEnd (afterColon.text ++ value) =
      c :: (u ++ beforeColon.text ++ ':' :: trimEnd (afterColon.text ++ value)) := by
    rw [hcu]
    rfl
  have hcolon : Lacks ':' (key.text ++ beforeColon.text) :=
    .append key.balanced beforeColon.balanced (key.lacks (by decide)) (beforeColon.lacks (by decide))
  have hfind : Code.find? (fun _ d => d == ':')
      (key.text ++ beforeColon.text ++ ':' :: trimEnd (afterColon.text ++ value)) =
      some (Text.size (key.text ++ beforeColon.text)) :=
    Code.find?_append_cons (key.balanced.append beforeColon.balanced)
      (fun x hx => by simpa using hcolon 0 x hx) (by decide) (by decide) rfl _
  have hkey : trim (key.text ++ beforeColon.text) = key.text :=
    Text.trim_of_solid .nil key.solid beforeColon.blank
  have hdrop := Text.dropBytes_append_cons (key.text ++ beforeColon.text) ':'
    (trimEnd (afterColon.text ++ value))
  rw [show ':'.utf8Size = 1 by decide] at hdrop
  simp only [field?_of_head (trim_fieldText key beforeColon afterColon value) hcons hslash hdot, hfind,
    Option.elim_some]
  rw [Text.takeBytes_append, hdrop, hkey, Text.trim_trimEnd, Text.trim_blank_append afterColon.blank]

theorem Fields.map_field? : (fields : Fields) → fields.parts.filterMap field? =
    fields.entries.map fun e => .valued e.1.text e.2.text
  | .none _ => rfl
  | .one _ key beforeColon afterColon value _ => by
    simp [Fields.parts, Fields.entries, field?_fieldText, Text.trim_solid value.solid]
  | .more _ key beforeColon afterColon value _ rest => by
    simp [Fields.parts, Fields.entries, field?_fieldText, Text.trim_solid value.solid, rest.map_field?]

/-- **The fields of a printed object** are read back as they were. -/
theorem objectFields_text (fields : Fields) :
    objectFields (Literal.object fields).text =
      fields.entries.map fun e => .valued e.1.text e.2.text := by
  have hclose : Code.close? ('{' :: (fields.text ++ ['}'])) = some (1 + Text.size fields.text) :=
    Code.close?_group rfl fields.balanced []
  have hinner : objectInner ('{' :: (fields.text ++ ['}'])) = fields.text := by
    rw [objectInner, hclose]
    show Text.takeBytes (fields.text ++ ['}']) (1 + Text.size fields.text - 1) = fields.text
    rw [Nat.add_sub_cancel_left, Text.takeBytes_append]
  rw [Literal.text, objectFields, hinner, fields.split_text, fields.map_field?]

/-! ## Types -/

/-- The type of a value in an object, at the nesting depth of the value. -/
def typeOf (fallback : Fallback) (depth : Nat) (value : Text) : Text :=
  if startsWith value ['{'] then objectType fallback depth value else valueType fallback value

/-- What an object at nesting depth `depth` shows of a field. -/
def fieldType (fallback : Fallback) (depth : Nat) : Field → Text
  | .named key => key ++ ": " ++ fallback.text ++ [';']
  | .valued key value => key ++ ": " ++ typeOf fallback (depth + 1) value ++ [';']

theorem objectType_eq (fallback : Fallback) (depth : Nat) (literal : Text) :
    objectType fallback depth literal =
      braces depth ((objectFields literal).map (fieldType fallback depth)) := by
  have hattach : (objectFields literal).map (fieldType fallback depth) =
      (objectFields literal).attach.map fun x => fieldType fallback depth x.1 := by
    rw [List.attach_map_val]
  rw [objectType, hattach]
  congr 1
  refine List.map_congr_left fun x _ => ?_
  obtain ⟨field, -⟩ := x
  cases field <;> rfl

/-- Lines of fields, with a line feed behind each and not between them. -/
theorem braces_eq (depth : Nat) {fields : List Text} (hne : fields ≠ []) :
    braces depth fields =
      "\x7b\n" ++ (fields.map fun f => indent (depth + 1) ++ f ++ ['\n']).flatten ++ indent depth ++
        ['}'] := by
  have hlines : ∀ ls : List Text, ls ≠ [] →
      Text.joinLines ls ++ ['\n'] = (ls.map (· ++ ['\n'])).flatten := by
    intro ls
    induction ls with
    | nil => exact fun h => absurd rfl h
    | cons l ls ih =>
      intro _
      cases ls with
      | nil => simp [Text.joinLines]
      | cons l' ls =>
        rw [List.map_cons, List.flatten_cons, ← ih (List.cons_ne_nil l' ls), Text.joinLines,
          List.intercalate_cons_cons]
        simp [Text.joinLines]
  have h := hlines (fields.map (indent (depth + 1) ++ ·)) (by simpa using hne)
  rw [List.map_map] at h
  have hflatten : (fields.map fun f => indent (depth + 1) ++ f ++ ['\n']).flatten =
      Text.joinLines (fields.map (indent (depth + 1) ++ ·)) ++ ['\n'] := h.symm
  rw [braces, if_neg (by simpa using hne), hflatten, ← List.append_assoc]
  rfl

mutual

/-- **The type of a printed literal**, at every nesting depth. -/
theorem Literal.typeOf_text (fallback : Fallback) (depth : Nat) :
    (v : Literal) → typeOf fallback depth v.text = v.type depth
  | .scalar s => by
    obtain ⟨c, u, hcu, hc⟩ := s.head
    have hstart : startsWith s.text ['{'] = false := by
      rw [hcu]
      exact Text.startsWith_eq_false hc u []
    rw [Literal.text, Literal.type, typeOf, hstart, valueType, literalType?_scalar]
    rfl
  | .list items => by
    have hstart : startsWith ('[' :: (items.text ++ [']'])) ['{'] = false :=
      Text.startsWith_eq_false (by decide) _ []
    rw [Literal.text, Literal.type, typeOf, hstart, valueType, literalType?_brackets]
    rfl
  | .object fields => by
    have hstart : startsWith (Literal.object fields).text ['{'] = true := by
      rw [Literal.text]
      rfl
    have hlines := fields.map_fieldType fallback depth
    rw [typeOf, hstart, if_pos rfl, objectType_eq, objectFields_text, List.map_map, Literal.type,
      ← hlines]
    cases hentries : fields.entries with
    | nil => rfl
    | cons e entries =>
      rw [braces_eq depth (by simp)]
      simp [Function.comp_def]

theorem Fields.map_fieldType (fallback : Fallback) (depth : Nat) : (fields : Fields) →
    (fields.entries.map fun e =>
      indent (depth + 1) ++ fieldType fallback depth (.valued e.1.text e.2.text) ++ ['\n']) =
      fields.lines (depth + 1)
  | .none _ => by
    rw [Fields.entries, Fields.lines]
    rfl
  | .one _ key _ _ value _ => by
    rw [Fields.entries, Fields.lines]
    simp [fieldType, value.typeOf_text fallback (depth + 1)]
  | .more _ key _ _ value _ rest => by
    rw [Fields.entries, Fields.lines, List.map_cons, rest.map_fieldType fallback depth]
    simp [fieldType, value.typeOf_text fallback (depth + 1)]

end

end Ambient.Declaration
