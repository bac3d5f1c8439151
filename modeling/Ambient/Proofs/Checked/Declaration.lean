/-
Declarations read with their cuts checked.

A declaration is cut at signs that are found in it as code, at brackets that close, and behind words
and comments that it starts with. The type of an object is read from the literals inside it; going
into one is checked too, to be going into a shorter text (`objectType_eq`).
-/
import Ambient.Declaration.Symbol
import Ambient.Proofs.Checked.Code
import Ambient.Proofs.Declaration.ObjectLiteral
import Mathlib.Data.Option.Basic

namespace Ambient.Checked

open Declaration (Binding Fallback Field Symbol SymbolKind fieldType)
open Source (Block Keyword)
open Text (size isBoundary takeBytes dropBytes trim trimStart trimEnd trimEndWhile startsWith
  collapse)

/-! ## Objects -/

/-- Goes from a text into one that has to be shorter. -/
def descend {α : Type} (outer inner : Text) (read : inner.length < outer.length → Checked α) :
    Checked α :=
  if h : inner.length < outer.length then read h else throw (.descent outer inner)

theorem descend_of_lt {α : Type} {outer inner : Text}
    {read : inner.length < outer.length → Checked α} (h : inner.length < outer.length) :
    descend outer inner read = read h :=
  dif_pos h

def skipComments (t : Text) : Checked Text :=
  if startsWith t "/*" then
    match Text.splitFirst? "*/" t with
    | some (comment, _) => do
      let rest := trimStart (← behind t (size comment + 2))
      descend t rest fun _ => skipComments rest
    | none => pure []
  else pure t
termination_by t.length

def field? (t : Text) : Checked (Option Field) := do
  let t ← skipComments (trim t)
  if t.isEmpty || startsWith t "..." then return none
  else
    match ← find? (fun _ c => pure (c == ':')) t with
    | none => return (← leadingWord? t).map .named
    | some colon =>
      return some (.valued (trim (← before t colon)) (trim (← behind t (colon + 1))))

def objectInner (literal : Text) : Checked Text := do
  match ← closeAt? literal 0 with
  | some close => slice literal 1 close
  | none => behind literal 1

def objectType (fallback : Fallback) (depth : Nat) (literal : Text) : Checked Text := do
  let inner ← objectInner literal
  let texts ← split ',' inner
  let fields ← texts.mapM fun text => do
    match ← field? text with
    | none => return none
    | some (.named key) => return some (key ++ ": " ++ fallback.text ++ [';'])
    | some (.valued key value) =>
      let type ← if startsWith value ['{'] then
          descend literal value fun _ => objectType fallback (depth + 1) value
        else pure (Declaration.valueType fallback value)
      return some (key ++ ": " ++ type ++ [';'])
  return Declaration.braces depth (fields.filterMap id)
termination_by literal.length

theorem behind_splitFirst {t comment rest : Text}
    (h : Text.splitFirst? "*/" t = some (comment, rest)) :
    behind t (size comment + 2) = pure rest := by
  have hsize : size comment + 2 = size (comment ++ ("*/" : Text)) := by
    rw [Text.size_append]
    rfl
  rw [hsize, Text.eq_append_of_splitFirst? h, behind_append]

theorem skipComments_eq (t : Text) : skipComments t = pure (Declaration.skipComments t) := by
  fun_induction Declaration.skipComments t with
  | case1 t hstart comment rest hsplit hlt ih =>
    rw [skipComments, if_pos hstart, hsplit]
    simp only [behind_splitFirst hsplit, pure_bind]
    rw [descend_of_lt hlt, ih]
  | case2 t hstart hsplit =>
    rw [skipComments, if_pos hstart, hsplit]
  | case3 t hstart => rw [skipComments, if_neg hstart]

theorem isBoundary_of_colon {t : Text} {i : Nat} (h : Code.find? (fun _ c => c == ':') t = some i) :
    isBoundary t i = true ∧ isBoundary t (i + 1) = true := by
  refine isBoundary_of_find? h fun i c hc => ?_
  rw [beq_iff_eq.1 hc]
  rfl

theorem find?_colon_eq (t : Text) :
    find? (fun _ c => pure (c == ':')) t = pure (Code.find? (fun _ c => c == ':') t) :=
  find?_eq fun _ _ _ => rfl

theorem field?_eq (t : Text) : field? t = pure (Declaration.field? t) := by
  rw [field?, skipComments_eq, pure_bind, Declaration.field?, apply_ite pure, find?_colon_eq,
    pure_bind]
  congr 1
  cases hcolon : Code.find? (fun _ c => c == ':') (Declaration.skipComments (trim t)) with
  | none => rw [leadingWord?_eq, pure_bind]
  | some colon =>
    have hcut := isBoundary_of_colon hcolon
    simp only [before_eq hcut.1, behind_eq hcut.2, pure_bind]

theorem objectInner_eq {literal : Text} (h : startsWith literal ['{'] = true) :
    objectInner literal = pure (Declaration.objectInner literal) := by
  rw [objectInner, closeAt?_zero, pure_bind, Declaration.objectInner]
  cases hclose : Code.close? literal with
  | some close => exact slice_of_close? hclose
  | none =>
    obtain ⟨rest, rfl⟩ := List.isPrefixOf_iff_prefix.1 h
    exact behind_append ['{'] rest

/-- **The type of an object** is read without a fault, and the reader goes into shorter literals
only. -/
theorem objectType_eq (fallback : Fallback) (depth : Nat) {literal : Text}
    (h : startsWith literal ['{'] = true) :
    objectType fallback depth literal = pure (Declaration.objectType fallback depth literal) := by
  rw [objectType, objectInner_eq h, pure_bind, split_eq, pure_bind,
    mapM_eq_pure (g := fun text => (Declaration.field? text).map (fieldType fallback depth)) ?_,
    pure_bind, Declaration.objectType_eq, Declaration.objectFields]
  · rw [List.filterMap_map, List.map_filterMap]
    rfl
  · intro text htext
    rw [field?_eq, pure_bind]
    cases hfield : Declaration.field? text with
    | none => rfl
    | some field =>
      cases field with
      | named key => rfl
      | valued key value =>
        have hmem : .valued key value ∈ Declaration.objectFields literal :=
          List.mem_filterMap.2 ⟨text, htext, hfield⟩
        have hlt := Declaration.length_lt_of_mem_objectFields hmem
        simp only [Option.map_some, fieldType, Declaration.typeOf]
        by_cases hvalue : startsWith value ['{'] = true
        · have hinner := objectType_eq fallback (depth + 1) hvalue
          rw [if_pos hvalue, if_pos hvalue, descend_of_lt hlt, hinner, pure_bind]
        · rw [if_neg hvalue, if_neg hvalue, pure_bind]
termination_by literal.length

/-! ## Values -/

/-- What stands before and behind the sign at a byte. -/
def around (t : Text) : Option Nat → Checked (Text × Option Text)
  | some i => do return (← before t i, some (trim (← behind t (i + 1))))
  | none => pure (t, none)

def readBinding (t : Text) : Checked Binding := do
  let (target, initializer) ← around t (← assignment? t)
  let (name, annotation) ← around target (← find? (fun _ c => pure (c == ':')) target)
  return { name := trimEndWhile (· == '!') (trim name)
           annotation := annotation.filter (!·.isEmpty)
           initializer := initializer.filter (!·.isEmpty) }

def bindingType (fallback : Fallback) (b : Binding) : Checked Text :=
  match b.initializer with
  | none => pure (b.annotation.getD "any")
  | some init =>
    if startsWith init ['{'] then objectType fallback 0 init
    else pure (((Declaration.literalType? init).or b.annotation).getD fallback.text)

def valueText? (keyword : Keyword) (fallback : Fallback) (body : Text) : Checked (Option Text) := do
  match Declaration.declarationHead? (← stripComments body) keyword.text with
  | none => return none
  | some head =>
    let rest := trimEnd head
    let b ← readBinding ((Text.before? rest [';']).getD rest)
    if (← leadingWord? b.name) = some b.name then
      return some (("export declare " : Text) ++ keyword.text ++ [' '] ++ b.name ++ (": " : Text) ++
        (← bindingType fallback b) ++ [';'])
    else return none

theorem around_some {t : Text} {i : Nat}
    (h : isBoundary t i = true ∧ isBoundary t (i + 1) = true) :
    around t (some i) = pure (takeBytes t i, some (trim (dropBytes t (i + 1)))) := by
  simp only [around, before_eq h.1, behind_eq h.2, pure_bind]

theorem around_assignment_eq (t : Text) :
    around t (Code.assignment? t) = pure (match Code.assignment? t with
      | some eq => (takeBytes t eq, some (trim (dropBytes t (eq + 1))))
      | none => (t, none)) := by
  cases hassign : Code.assignment? t with
  | none => rfl
  | some eq => exact around_some (isBoundary_of_assignment? hassign)

theorem around_colon_eq (t : Text) :
    around t (Code.find? (fun _ c => c == ':') t) =
      pure (match Code.find? (fun _ c => c == ':') t with
        | some colon => (takeBytes t colon, some (trim (dropBytes t (colon + 1))))
        | none => (t, none)) := by
  cases hcolon : Code.find? (fun _ c => c == ':') t with
  | none => rfl
  | some colon => exact around_some (isBoundary_of_colon hcolon)

theorem readBinding_eq (t : Text) : readBinding t = pure (Declaration.readBinding t) := by
  simp only [readBinding, assignment?_eq, around_assignment_eq, find?_colon_eq, around_colon_eq,
    pure_bind, Declaration.readBinding]
  cases Code.assignment? t with
  | none => cases Code.find? (fun _ c => c == ':') t <;> rfl
  | some eq => cases Code.find? (fun _ c => c == ':') (takeBytes t eq) <;> rfl

theorem bindingType_eq (fallback : Fallback) (b : Binding) :
    bindingType fallback b = pure (b.type fallback) := by
  rw [bindingType, Binding.type]
  cases b.initializer with
  | none => rfl
  | some init =>
    by_cases hinit : startsWith init ['{'] = true
    · simp only [if_pos hinit, objectType_eq fallback 0 hinit]
    · simp only [if_neg hinit]

theorem valueText?_eq (keyword : Keyword) (fallback : Fallback) (body : Text) :
    valueText? keyword fallback body = pure (Declaration.valueText? keyword fallback body) := by
  rw [valueText?, stripComments_eq, pure_bind, Declaration.valueText?]
  cases Declaration.declarationHead? (Code.stripComments body) keyword.text with
  | none => rfl
  | some head =>
    simp only [readBinding_eq, leadingWord?_eq, bindingType_eq, pure_bind, Option.bind_eq_bind,
      Option.bind_some]
    exact (apply_ite pure _ _ _).symm

/-! ## Functions -/

def stripDefault (param : Text) : Checked Text := do
  match ← assignment? param with
  | some eq => return trimEnd (← before param eq)
  | none => return param

def returnType (t : Text) : Checked Text := do
  let ends (i : Nat) (c : Char) : Checked Bool :=
    if c = ';' then pure true
    else if c = '{' then do return Declaration.opensBody (← before t i)
    else pure false
  return collapse (← before t ((← find? ends t).getD (size t)))

def typeParameters? (t : Text) : Checked (Option (Text × Text)) := do
  if startsWith t ['<'] then
    match ← closeAt? t 0 with
    | some close => return some (← before t (close + 1), trimStart (← behind t (close + 1)))
    | none => return none
  else return some ([], t)

def returns? (t : Text) : Checked (Option Text) :=
  match Text.after? t [':'] with
  | some type => do return some (← returnType type)
  | none => pure none

def functionText? (body : Text) : Checked (Option Text) := do
  match Declaration.declarationHead? (← stripComments body) "function" with
  | none => return none
  | some head =>
    let head := trimStart (head.dropWhile (· == '*'))
    match ← leadingWord? head with
    | none => return none
    | some name =>
      match ← typeParameters? (trimStart (← behind head (size name))) with
      | none => return none
      | some (generics, rest) =>
        if startsWith rest ['('] then
          match ← closeAt? rest 0 with
          | none => return none
          | some close =>
            let params ← (← split ',' (← slice rest 1 close)).mapM stripDefault
            let returns := (← returns? (trimStart (← behind rest (close + 1)))).filter (!·.isEmpty)
            return some (("export declare function " : Text) ++ name ++ collapse generics ++
              ['('] ++ List.intercalate ", " (params.map collapse) ++ [')'] ++
              (returns.map ((": " : Text) ++ ·)).getD [] ++ [';'])
        else return none

theorem stripDefault_eq (param : Text) :
    stripDefault param = pure (Declaration.stripDefault param) := by
  rw [stripDefault, assignment?_eq, pure_bind, Declaration.stripDefault]
  cases hassign : Code.assignment? param with
  | none => rfl
  | some eq => simp only [before_eq (isBoundary_of_assignment? hassign).1, pure_bind]

theorem returnType_eq (t : Text) : returnType t = pure (Declaration.returnType t) := by
  have hfind : find? (fun i c =>
        if c = ';' then pure true
        else if c = '{' then do return Declaration.opensBody (← before t i)
        else pure false) t =
      pure (Code.find?
        (fun i c => c == ';' || (c == '{' && Declaration.opensBody (takeBytes t i))) t) := by
    refine find?_eq fun i c hc => ?_
    rw [before_eq (isBoundary_of_mem_chars hc).1, pure_bind]
    by_cases hsemicolon : c = ';'
    · rw [if_pos hsemicolon, beq_iff_eq.2 hsemicolon, Bool.true_or]
    · rw [if_neg hsemicolon, beq_eq_false_iff_ne.2 hsemicolon, Bool.false_or]
      by_cases hbrace : c = '{'
      · rw [if_pos hbrace, beq_iff_eq.2 hbrace, Bool.true_and]
      · rw [if_neg hbrace, beq_eq_false_iff_ne.2 hbrace, Bool.false_and]
  rw [returnType, hfind, pure_bind, Declaration.returnType]
  cases hstop : Code.find?
      (fun i c => c == ';' || (c == '{' && Declaration.opensBody (takeBytes t i))) t with
  | none =>
    have hall := before_append t []
    rw [List.append_nil] at hall
    rw [Option.getD_none, hall, pure_bind]
  | some stop =>
    obtain ⟨c, hc, -⟩ := Code.mem_of_findFrom? hstop
    rw [Option.getD_some, before_eq (isBoundary_of_mem_chars hc).1, pure_bind]

theorem typeParameters?_eq (t : Text) :
    typeParameters? t = pure (Declaration.typeParameters? t) := by
  rw [typeParameters?, Declaration.typeParameters?, closeAt?_zero, pure_bind, apply_ite pure]
  congr 1
  cases hclose : Code.close? t with
  | none => rfl
  | some close =>
    have hcut := (isBoundary_of_close? hclose).2
    simp only [before_eq hcut, behind_eq hcut, pure_bind, Option.map_some]

theorem returns?_eq (t : Text) :
    returns? t = pure ((Text.after? t [':']).map Declaration.returnType) := by
  rw [returns?]
  cases Text.after? t [':'] with
  | none => rfl
  | some type => simp only [returnType_eq, pure_bind, Option.map_some]

theorem functionText?_eq (body : Text) :
    functionText? body = pure (Declaration.functionText? body) := by
  rw [functionText?, stripComments_eq, pure_bind, Declaration.functionText?]
  cases Declaration.declarationHead? (Code.stripComments body) "function" with
  | none => rfl
  | some head =>
    simp only [leadingWord?_eq, pure_bind, Option.bind_eq_bind, Option.bind_some]
    cases hname : Text.leadingWord? (trimStart (head.dropWhile (· == '*'))) with
    | none => rfl
    | some name =>
      simp only [behind_leadingWord hname, typeParameters?_eq, pure_bind, Option.bind_some]
      cases Declaration.typeParameters? (trimStart
          ((trimStart (head.dropWhile (· == '*'))).drop name.length)) with
      | none => rfl
      | some parts =>
        obtain ⟨generics, rest⟩ := parts
        simp only [Option.bind_some, guard, closeAt?_zero, pure_bind]
        by_cases hopen : startsWith rest ['('] = true
        · rw [if_pos hopen, if_pos hopen]
          cases hclose : Code.close? rest with
          | none => rfl
          | some close =>
            have hcut := (isBoundary_of_close? hclose).2
            have hparams : ∀ param ∈ Code.split ',' (takeBytes rest.tail (close - 1)),
                stripDefault param = pure (Declaration.stripDefault param) :=
              fun param _ => stripDefault_eq param
            simp only [slice_of_close? hclose, behind_eq hcut, split_eq, mapM_eq_pure hparams,
              returns?_eq, pure_bind, List.map_map]
            rfl
        · rw [if_neg hopen, if_neg hopen]
          rfl

/-! ## Symbols -/

def declare? (fallback : Fallback) (b : Block) : Checked (Option Symbol) := do
  let symbol (kind : SymbolKind) (text : Text) : Symbol := ⟨kind, b.comment, text⟩
  match b.kind with
  | .value keyword => return (← valueText? keyword fallback b.body).map (symbol .value)
  | .function => return (← functionText? b.body).map (symbol .function)
  | .interface =>
    return if b.exported then (Declaration.ambientText? b.body).map (symbol .interface) else none
  | .typeAlias =>
    return if b.exported then (Declaration.ambientText? b.body).map (symbol .typeAlias) else none
  | .reExport => return some (symbol .reExport b.body)
  | .other => return some (symbol .other (Declaration.terminated b.body))

theorem declare?_eq (fallback : Fallback) (b : Block) :
    declare? fallback b = pure (Declaration.declare? fallback b) := by
  rw [declare?, Declaration.declare?]
  cases b.kind with
  | value keyword => simp only [valueText?_eq, pure_bind]
  | function => simp only [functionText?_eq, pure_bind]
  | _ => rfl

end Ambient.Checked
