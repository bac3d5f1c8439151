/-
The structural type of an object literal: one line for each field, and the fields of an inner object
one level deeper.
-/
import Ambient.Code.Nesting
import Ambient.Declaration.Literal

namespace Ambient.Declaration

open Text (trim trimStart startsWith leadingWord?)

/-- What the text of a field shows. -/
inductive Field where
  /-- A shorthand or a method: only its name is seen. -/
  | named (key : Text)
  | valued (key value : Text)
deriving DecidableEq, Repr

theorem length_trimStart_lt_of_splitFirst? {sep t a rest : Text} (hs : sep ≠ [])
    (h : Text.splitFirst? sep t = some (a, rest)) : (trimStart rest).length < t.length := by
  have h1 := congrArg List.length (Text.eq_append_of_splitFirst? h)
  have h2 := Text.length_trimStart_le rest
  have h3 := List.length_pos_iff.mpr hs
  simp only [List.length_append] at h1
  omega

/-- A trimmed text without the block comments it starts with; nothing is left when one does not
end. -/
def skipComments (t : Text) : Text :=
  if startsWith t "/*" then
    match h : Text.splitFirst? "*/" t with
    | some (_, rest) =>
      have := length_trimStart_lt_of_splitFirst? (by decide) h
      skipComments (trimStart rest)
    | none => []
  else t
termination_by t.length

theorem length_skipComments_le (t : Text) : (skipComments t).length ≤ t.length := by
  fun_induction skipComments t with
  | case1 t _ a rest h _ ih =>
    exact Nat.le_trans ih (Nat.le_of_lt (length_trimStart_lt_of_splitFirst? (by decide) h))
  | case2 => simp
  | case3 => simp

/-- A field of an object literal. What is spread into the object, and what has no name, gives
none. -/
def field? (t : Text) : Option Field :=
  let t := skipComments (trim t)
  if t.isEmpty || startsWith t "..." then none
  else
    match Code.find? (fun _ c => c == ':') t with
    | none => (leadingWord? t).map .named
    | some colon =>
      some (.valued (trim (Text.takeBytes t colon)) (trim (Text.dropBytes t (colon + 1))))

/-- What an object literal holds between its braces, or behind the first when the last is missing. -/
def objectInner (literal : Text) : Text :=
  match Code.close? literal with
  | some close => Text.takeBytes literal.tail (close - 1)
  | none => literal.tail

def objectFields (literal : Text) : List Field :=
  (Code.split ',' (objectInner literal)).filterMap field?

theorem length_objectInner_le (literal : Text) :
    (objectInner literal).length ≤ literal.length - 1 := by
  have h : literal.tail.length = literal.length - 1 := by simp
  unfold objectInner
  split
  · exact h ▸ Text.length_takeBytes_le literal.tail _
  · exact Nat.le_of_eq h

theorem length_le_of_field? {t key value : Text} (h : field? t = some (.valued key value)) :
    value.length ≤ t.length := by
  simp only [field?] at h
  split at h
  · simp at h
  · split at h
    · simp at h
    · simp only [Option.some.injEq, Field.valued.injEq] at h
      obtain ⟨_, rfl⟩ := h
      exact Nat.le_trans (Text.length_trim_le _) (Nat.le_trans (Text.length_dropBytes_le _ _)
        (Nat.le_trans (length_skipComments_le _) (Text.length_trim_le t)))

/-- A value in an object literal is shorter than the literal. -/
theorem length_lt_of_mem_objectFields {literal key value : Text}
    (h : .valued key value ∈ objectFields literal) : value.length < literal.length := by
  simp only [objectFields, List.mem_filterMap] at h
  obtain ⟨t, ht, h⟩ := h
  have h1 := Code.length_le_of_mem_split ht
  have h2 := List.length_pos_iff.mpr (Code.ne_nil_of_mem_split ht)
  have h3 := length_objectInner_le literal
  have h4 := length_le_of_field? h
  omega

/-- The indentation at a nesting depth. -/
def indent (depth : Nat) : Text :=
  List.replicate (2 * depth) ' '

/-- The lines of fields in braces, for an object at nesting depth `depth`. -/
def braces (depth : Nat) (fields : List Text) : Text :=
  if fields.isEmpty then "\x7b\x7d"
  else "\x7b\n" ++ Text.joinLines (fields.map (indent (depth + 1) ++ ·)) ++ ("\n" : Text) ++ indent depth ++ ['}']

/-- The structural type of an object literal at nesting depth `depth`. -/
def objectType (fallback : Fallback) (depth : Nat) (literal : Text) : Text :=
  braces depth <| (objectFields literal).attach.map fun
    | ⟨.named key, _⟩ => key ++ (": " : Text) ++ fallback.text ++ [';']
    | ⟨.valued key value, h⟩ =>
      have := length_lt_of_mem_objectFields h
      let type := if startsWith value ['{'] then objectType fallback (depth + 1) value
        else valueType fallback value
      key ++ (": " : Text) ++ type ++ [';']
termination_by literal.length

end Ambient.Declaration
