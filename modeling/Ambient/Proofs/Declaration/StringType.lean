/-
String literals as the types of a signature.

The blanks of each parameter and of the return type are collapsed, and those inside a string literal
are no exception. So a literal is declared with its blanks collapsed (`declare?_stringFunction`), and
it stays as it is exactly when its only blanks are single spaces.
-/
import Ambient.Proofs.Declaration.Signature

namespace Ambient.Declaration

open Code (Balanced Lacks Quoted Word)
open Text (Neat Solid collapse)

/-! ## Functions as they are printed -/

/-- The name of a function, its parameters with their types, and its return type. -/
def typedSignature (name : Word) (params : List (Word × Text)) (returns : Text) : Text :=
  name.text ++ '(' :: (List.intercalate ", " (params.map fun p => memberText p.1 p.2) ++
    ')' :: ':' :: ' ' :: returns)

/-- The declaration of a function with literals for its types. -/
def declaredFunction (name : Word) (params : List (Word × Text)) (returns : Text) : Text :=
  "export declare function " ++ typedSignature name params returns ++ [';']

/-- A function with literals for its types. Nothing is asked of the text behind the brace. -/
def stringFunction (async : Bool) (name : Word) (params : List (Word × Quoted)) (returns : Quoted)
    (body : Text) : Text :=
  "export " ++ (if async then "async " else "") ++ "function " ++
    typedSignature name (params.map fun p => (p.1, p.2.text)) returns.text ++ " \x7b" ++ body

/-! ## Literals of a signature -/

section Literals

variable (name : Word) (q : Quoted)

theorem balanced_member : Balanced (memberText name q.text) :=
  name.balanced.append (.char (by decide) (.char (by decide) q.balanced))

theorem solid_member : Solid (memberText name q.text) :=
  name.solid.append [':', ' '] q.solid

theorem lacks_member {d : Char} (hword : Text.isWordChar d = false) (hcolon : ':' ≠ d) (hspace : ' ' ≠ d) :
    Lacks d (memberText name q.text) := by
  have hbalanced : Balanced (' ' :: q.text) := .char (by decide) q.balanced
  exact .append name.balanced (.char (by decide) hbalanced) (name.lacks hword)
    (.char (by decide) hcolon hbalanced (.char (by decide) hspace q.balanced (q.lacks d)))

theorem stripDefault_member : stripDefault (memberText name q.text) = memberText name q.text := by
  rw [stripDefault, Code.assignment?_eq_none
    (.of_lacks (lacks_member name q (by decide) (by decide) (by decide)))]

theorem collapse_member : collapse (memberText name q.text) = memberText name (collapse q.text) := by
  have hcolon : Neat (name.text ++ [':']) := name.neat.append (.singleton (by decide))
  have hcut : memberText name q.text = name.text ++ [':'] ++ ' ' :: q.text := by simp [memberText]
  rw [hcut, Text.collapse_append_space hcolon.solid q.solid, Text.collapse_of_neat hcolon, memberText]
  simp

theorem collapse_quoted_ne_nil : collapse q.text ≠ [] :=
  (Text.neat_collapse q.solid).solid.ne_nil

theorem returns?_quoted (rest : Text) :
    returns? (':' :: ' ' :: q.text ++ ' ' :: '{' :: rest) = some (collapse q.text) := by
  have hbodiless : Bodiless q.text := .of_lacks (q.lacks '{') (q.lacks ';')
  have htrim : Text.trimStart (':' :: ' ' :: q.text ++ ' ' :: '{' :: rest) =
      [':'] ++ (' ' :: (q.text ++ [' ']) ++ '{' :: rest) := by
    have hcut : ':' :: ' ' :: q.text ++ ' ' :: '{' :: rest =
        ':' :: (' ' :: (q.text ++ [' ']) ++ '{' :: rest) := by simp
    rw [hcut]
    exact Text.trimStart_cons (by decide) _
  rw [returns?, htrim, Text.after?_append, Option.map_some,
    returnType_eq_collapse q.balanced hbodiless (opensBody_quoted q)]
  simp [collapse_quoted_ne_nil q]

end Literals

/-- The parameters of a signature, each with its literal collapsed. -/
theorem map_collapse_members (params : List (Word × Quoted)) :
    (params.map fun p => memberText p.1 p.2.text).map (collapse ∘ stripDefault) =
      params.map fun p => memberText p.1 (collapse p.2.text) := by
  rw [List.map_map]
  refine List.map_congr_left fun p _ => ?_
  show collapse (stripDefault (memberText p.1 p.2.text)) = _
  rw [stripDefault_member, collapse_member]

theorem functionText?_stringFunction (async : Bool) (name : Word) (params : List (Word × Quoted))
    (returns : Quoted) (body : Text) :
    functionText? (stringFunction async name params returns body) =
      some (declaredFunction name (params.map fun p => (p.1, collapse p.2.text))
        (collapse returns.text)) := by
  have hreturns : Balanced (':' :: ' ' :: returns.text) :=
    .char (by decide) (.char (by decide) returns.balanced)
  have hbalanced : ∀ t ∈ params.map fun p => memberText p.1 p.2.text, Balanced t :=
    List.forall_mem_map.2 fun p _ => balanced_member p.1 p.2
  have hsolid : ∀ t ∈ params.map fun p => memberText p.1 p.2.text, Solid t :=
    List.forall_mem_map.2 fun p _ => solid_member p.1 p.2
  have hcomma : ∀ t ∈ params.map fun p => memberText p.1 p.2.text, Lacks ',' t :=
    List.forall_mem_map.2 fun p _ => lacks_member p.1 p.2 (by decide) (by decide) (by decide)
  obtain ⟨rest, h⟩ := functionText?_functionHead async name hbalanced hsolid hcomma hreturns body
  have hprint : stringFunction async name params returns body =
      functionHead async (typedSignature name (params.map fun p => (p.1, p.2.text)) returns.text) ++
        '{' :: body :=
    print_eq_functionHead async _ body
  have hsource : ((params.map fun p => (p.1, p.2.text)).map fun p => memberText p.1 p.2) =
      params.map fun p => memberText p.1 p.2.text := List.map_map
  have hdeclared : ((params.map fun p => (p.1, collapse p.2.text)).map fun p => memberText p.1 p.2) =
      params.map fun p => memberText p.1 (collapse p.2.text) := List.map_map
  have hcolon : ((some (collapse returns.text)).map ((": " : Text) ++ ·)).getD [] =
      ':' :: ' ' :: collapse returns.text := rfl
  rw [hprint, typedSignature, hsource, h, map_collapse_members, returns?_quoted, hcolon]
  unfold declaredFunction typedSignature
  rw [hdeclared]

/-! ## Literals that are kept -/

section Kept

variable {name : Word} {params : List (Word × Text)} {returns : Text}

theorem neat_declaredFunction (hparams : ∀ p ∈ params, Neat p.2) (hreturns : Neat returns) :
    Neat (declaredFunction name params returns) := by
  have hexport : Neat ("export" : Text) := .of_forall (by decide) (by decide)
  have hdeclare : Neat ("declare" : Text) := .of_forall (by decide) (by decide)
  have hfunction : Neat ("function" : Text) := .of_forall (by decide) (by decide)
  have hmembers : ∀ t ∈ params.map fun p => memberText p.1 p.2, Neat t := by
    refine List.forall_mem_map.2 fun p hp => ?_
    have hcolon : Neat (p.1.text ++ [':']) := p.1.neat.append (.singleton (by decide))
    simpa [memberText] using hcolon.append_space (hparams p hp)
  have hlist : Neat ('(' :: (List.intercalate ", " (params.map fun p => memberText p.1 p.2) ++ [')'])) := by
    cases params with
    | nil => exact .wrap (by decide) (by decide) (.inl rfl)
    | cons p params =>
      exact .wrap (by decide) (by decide) (.inr (.intercalate (by decide) (List.cons_ne_nil _ _) hmembers))
  have hhead : Neat (name.text ++ '(' ::
      (List.intercalate ", " (params.map fun p => memberText p.1 p.2) ++ [')']) ++ [':']) :=
    (name.neat.append hlist).append (.singleton (by decide))
  have hsignature : Neat (typedSignature name params returns ++ [';']) := by
    have h := (hhead.append_space hreturns).append (.singleton (by decide : Text.isBlank ';' = false))
    simpa [typedSignature] using h
  have hcut : declaredFunction name params returns =
      ("export" ++ ' ' :: "declare" ++ ' ' :: "function" : Text) ++
        ' ' :: (typedSignature name params returns ++ [';']) := rfl
  rw [hcut]
  exact ((hexport.append_space hdeclare).append_space hfunction).append_space hsignature

theorem infix_intercalate {sep t : Text} {ts : List Text} (h : t ∈ ts) :
    t <:+: List.intercalate sep ts := by
  induction ts with
  | nil => cases h
  | cons u ts ih =>
    cases ts with
    | nil =>
      rw [List.mem_singleton.1 h]
      exact ⟨[], [], by simp⟩
    | cons v ts =>
      rw [List.intercalate_cons_cons]
      rcases List.mem_cons.1 h with rfl | h
      · exact ⟨[], sep ++ List.intercalate sep (v :: ts), by simp⟩
      · exact (ih h).trans ⟨u ++ sep, [], by simp⟩

/-- The types of a signature stand in its declaration. -/
theorem infix_declaredFunction {p : Word × Text} (hp : p ∈ params) :
    p.2 <:+: declaredFunction name params returns := by
  have hmember : p.2 <:+: memberText p.1 p.2 := ⟨p.1.text ++ [':', ' '], [], by simp [memberText]⟩
  have hlist : memberText p.1 p.2 <:+:
      List.intercalate (", " : Text) (params.map fun p => memberText p.1 p.2) :=
    infix_intercalate (List.mem_map.2 ⟨p, hp, rfl⟩)
  refine (hmember.trans hlist).trans ⟨"export declare function " ++ name.text ++ ['('],
    ')' :: ':' :: ' ' :: (returns ++ [';']), ?_⟩
  unfold declaredFunction typedSignature
  simp only [List.append_assoc, List.cons_append, List.nil_append]

theorem infix_declaredFunction_returns : returns <:+: declaredFunction name params returns := by
  refine ⟨"export declare function " ++ name.text ++
    '(' :: (List.intercalate ", " (params.map fun p => memberText p.1 p.2) ++ [')', ':', ' ']), [';'], ?_⟩
  unfold declaredFunction typedSignature
  simp only [List.append_assoc, List.cons_append, List.nil_append]

end Kept

theorem declaredFunction_eq_iff (name : Word) (params : List (Word × Quoted)) (returns : Quoted) :
    declaredFunction name (params.map fun p => (p.1, collapse p.2.text)) (collapse returns.text) =
      declaredFunction name (params.map fun p => (p.1, p.2.text)) returns.text ↔
    (∀ p ∈ params, Neat p.2.text) ∧ Neat returns.text := by
  constructor
  · intro h
    have hneat : Neat (declaredFunction name (params.map fun p => (p.1, p.2.text)) returns.text) := by
      rw [← h]
      exact neat_declaredFunction (List.forall_mem_map.2 fun p _ => Text.neat_collapse p.2.solid)
        (Text.neat_collapse returns.solid)
    refine ⟨fun p hp => ?_, hneat.of_part returns.solid infix_declaredFunction_returns⟩
    have hmem : (p.1, p.2.text) ∈ params.map fun p => (p.1, p.2.text) :=
      List.mem_map.2 ⟨p, hp, rfl⟩
    exact hneat.of_part p.2.solid (infix_declaredFunction hmem)
  · rintro ⟨hparams, hreturns⟩
    have hmap : (params.map fun p => (p.1, collapse p.2.text)) = params.map fun p => (p.1, p.2.text) :=
      List.map_congr_left fun p hp => by rw [Text.collapse_of_neat (hparams p hp)]
    rw [hmap, Text.collapse_of_neat hreturns]

/-- **String literals in a signature** are declared with their blanks collapsed, for all parameters and
bodies, and the declaration has them as they are exactly when their only blanks are single spaces. -/
theorem declare?_stringFunction (fallback : Fallback) (comment : Option Text) (exported async : Bool)
    (name : Word) (params : List (Word × Quoted)) (returns : Quoted) (body : Text) :
    ∃ text,
      declare? fallback
          { comment
            body := stringFunction async name params returns body
            kind := .function
            exported } = some { kind := .function, comment, text } ∧
      text = declaredFunction name (params.map fun p => (p.1, collapse p.2.text))
        (collapse returns.text) ∧
      (text = declaredFunction name (params.map fun p => (p.1, p.2.text)) returns.text ↔
        (∀ p ∈ params, Neat p.2.text) ∧ Neat returns.text) := by
  refine ⟨_, ?_, rfl, declaredFunction_eq_iff name params returns⟩
  exact congrArg (Option.map fun text => Symbol.mk .function comment text)
    (functionText?_stringFunction async name params returns body)

/-- Two spaces inside a literal become one. -/
theorem declare?_stringFunction_two_spaces :
    let name : Word := ⟨"f", by decide, by decide⟩
    let param : Word := ⟨"p", by decide, by decide⟩
    let type : Quoted := ⟨'\'', "a  b", .inl rfl, by decide⟩
    let result : Quoted := ⟨'\'', "c", .inl rfl, by decide⟩
    let block : Source.Block := ⟨none, "export function f(p: 'a  b'): 'c' \x7b\x7d", .function, true⟩
    stringFunction false name [(param, type)] result "\x7d" = block.body ∧
      declare? .any block =
        some ⟨.function, none, "export declare function f(p: 'a b'): 'c';"⟩ ∧
      ¬ Neat type.text := by
  intro name param type result block
  obtain ⟨text, hdeclare, htext, hiff⟩ :=
    declare?_stringFunction .any none true false name [(param, type)] result "\x7d"
  have hbody : stringFunction false name [(param, type)] result "\x7d" = block.body := by decide
  have hvalue : text = "export declare function f(p: 'a b'): 'c';" := by
    rw [htext]
    decide
  subst hvalue
  rw [hbody] at hdeclare
  refine ⟨hbody, hdeclare, fun hneat => ?_⟩
  have hresult : Neat result.text := .of_forall (by decide) (by decide)
  have hsame := hiff.2 ⟨by simpa using hneat, hresult⟩
  exact absurd hsame (by decide)

end Ambient.Declaration
