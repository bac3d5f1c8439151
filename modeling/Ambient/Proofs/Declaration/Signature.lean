/-
The signature of a function, for all parameters, default values, return types and bodies.

Of the body nothing is known, not even that its brackets match, so nothing behind the brace that opens
it may be looked at: the comments before it are stripped as if it were not there, the parentheses close
before it, and the return type ends at it (`returnType_type`). The declaration is then the signature
without the default values.
-/
import Ambient.Proofs.Code.Prefix
import Ambient.Proofs.Declaration.Head
import Ambient.Proofs.Declaration.TypeTerm
import Mathlib.Data.Option.Basic

namespace Ambient.Declaration

open Code (Balanced Gap Lacks Plain Scalar Word)
open Text (Solid collapse size trimEnd trimStart)

/-! ## Parameters as they are printed -/

/-- The default values of parameters. -/
inductive Default where
  | scalar (s : Scalar)
  | emptyList
  | emptyObject
  | name (w : Word)
  | call (w : Word)

def Default.text : Default → Text
  | .scalar s => s.text
  | .emptyList => ['[', ']']
  | .emptyObject => ['{', '}']
  | .name w => w.text
  | .call w => w.text ++ ['(', ')']

inductive Parameter where
  | required (name : Word) (type : Option TypeTerm) (default : Option Default)
  | optional (name : Word) (type : TypeTerm)
  | rest (name : Word) (type : TypeTerm)

namespace Parameter

/-- A parameter without its default value. -/
def declared : Parameter → Text
  | required name none _ => name.text
  | required name (some type) _ => memberText name type.text
  | optional name type => name.text ++ '?' :: ':' :: ' ' :: type.text
  | rest name type => '.' :: '.' :: '.' :: memberText name type.text

def default? : Parameter → Option Default
  | required _ _ default => default
  | optional _ _ => none
  | rest _ _ => none

def text (p : Parameter) : Text :=
  match p.default? with
  | none => p.declared
  | some default => p.declared ++ ' ' :: '=' :: ' ' :: default.text

end Parameter

namespace Default

theorem balanced : (d : Default) → Balanced d.text
  | scalar s => s.balanced
  | emptyList => .wrap rfl .nil
  | emptyObject => .wrap rfl .nil
  | name w => w.balanced
  | call w => w.balanced.append (.wrap rfl .nil)

theorem solid : (d : Default) → Solid d.text
  | scalar s => s.solid
  | emptyList => .of_forall (by decide) (by decide)
  | emptyObject => .of_forall (by decide) (by decide)
  | name w => w.solid
  | call w => w.solid.append ['('] (.singleton (by decide))

theorem lacks_comma : (d : Default) → Lacks ',' d.text
  | scalar s => s.lacks (by decide) (by decide)
  | emptyList => .group rfl .nil (by decide) .nil .nil
  | emptyObject => .group rfl .nil (by decide) .nil .nil
  | name w => w.lacks (by decide)
  | call w =>
    .append w.balanced (.wrap rfl .nil) (w.lacks (by decide))
      (.group rfl .nil (by decide) .nil .nil)

end Default

namespace Parameter

theorem isPart (p : Parameter) : IsPart p.declared := by
  have hsigns : ∀ t : Text, t ≠ [] → (∀ c ∈ t, c = '.' ∨ c = '?' ∨ c = ':') → IsPart t := by
    intro t hne h
    refine .of_forall hne fun c hc => ?_
    rcases h c hc with rfl | rfl | rfl <;> decide
  cases p with
  | required name type _ =>
    cases type with
    | none => exact .word name
    | some type => exact .member name type.isType.toIsPart
  | optional name type =>
    have hmark := (IsPart.word name).append (hsigns ['?', ':'] (by simp) (by simp))
    have h := hmark.append_space type.isType.toIsPart
    simpa [declared] using h
  | rest name type =>
    exact (hsigns ['.', '.', '.'] (by simp) (by simp)).append
      (.member name type.isType.toIsPart)

theorem balanced (p : Parameter) : Balanced p.text := by
  rw [text]
  cases p.default? with
  | none => exact p.isPart.balanced
  | some d =>
    exact p.isPart.balanced.append (.char (by decide) (.equals rfl d.balanced))

theorem solid (p : Parameter) : Solid p.text := by
  rw [text]
  cases p.default? with
  | none => exact p.isPart.neat.solid
  | some d => exact p.isPart.neat.solid.append [' ', '=', ' '] d.solid

theorem lacks_comma (p : Parameter) : Lacks ',' p.text := by
  rw [text]
  cases p.default? with
  | none => exact p.isPart.comma
  | some d =>
    have hequals : Balanced ('=' :: ' ' :: d.text) := .equals rfl d.balanced
    exact .append p.isPart.balanced (.char (by decide) hequals) p.isPart.comma
      (.char (by decide) (by decide) hequals
        (.equals rfl (by decide) (by decide) d.balanced d.lacks_comma))

/-- **Without its default value** a parameter is what it declares. -/
theorem stripDefault_text (p : Parameter) : stripDefault p.text = p.declared := by
  have hdeclared := p.isPart
  rw [text]
  cases p.default? with
  | none =>
    rw [stripDefault, Code.assignment?_eq_none hdeclared.unassigned]
  | some d =>
    have hspace : Balanced [' '] := .of_forall (by decide)
    have hassign := Code.assignment?_append_cons (u := ' ' :: d.text)
      (hdeclared.balanced.append hspace)
      (.append hdeclared.balanced hspace hdeclared.unassigned (.of_lacks (.of_forall (by decide))))
      (by rw [List.getLast?_concat]; rfl)
    have hcut : p.declared ++ ' ' :: '=' :: ' ' :: d.text =
        p.declared ++ [' '] ++ '=' :: ' ' :: d.text := by simp
    show stripDefault (p.declared ++ ' ' :: '=' :: ' ' :: d.text) = p.declared
    rw [hcut, stripDefault, hassign]
    show trimEnd (Text.takeBytes _ _) = p.declared
    rw [Text.takeBytes_append, Text.trimEnd_append_blank .space]
    exact hdeclared.neat.solid.trimEnd []

end Parameter

/-! ## Return types -/

/-- **A return type** ends at the brace that opens the body, whatever the body is. -/
theorem returnType_eq_collapse {t : Text} (ht : Balanced t) (hbodiless : Bodiless t)
    (hfinishes : ∀ u, opensBody (u ++ t) = true) (body : Text) :
    returnType (' ' :: (t ++ [' ']) ++ '{' :: body) = collapse t := by
  have hspace : Balanced [' '] := .of_forall (by decide)
  have hbalanced : Balanced (' ' :: (t ++ [' '])) := .char (by decide) (ht.append hspace)
  have hmiss : ∀ x ∈ Code.tops 0 (' ' :: (t ++ [' '])),
      (x.2 == ';' || (x.2 == '{' &&
        opensBody (Text.takeBytes (' ' :: (t ++ [' ']) ++ '{' :: body) x.1))) = false := by
    intro x hx
    rw [Code.tops_char (by decide) (ht.append hspace), Code.tops_append ht hspace,
      Code.tops_char (by decide) .nil] at hx
    rcases List.mem_cons.1 hx with rfl | hx
    · rfl
    rcases List.mem_append.1 hx with hx | hx
    · obtain ⟨hsemicolon, hbrace⟩ := hbodiless _ x hx
      by_cases hx : x.2 = '{'
      · obtain ⟨u, v, rfl, hi, hawaits⟩ := hbrace hx
        have htake : Text.takeBytes (' ' :: (u ++ '{' :: v ++ [' ']) ++ '{' :: body) x.1 = ' ' :: u := by
          have hcut := Text.takeBytes_append (' ' :: u) ('{' :: v ++ [' '] ++ '{' :: body)
          rw [hi, Nat.zero_add]
          simpa [size] using hcut
        rw [htake, opensBody_of_awaits hawaits]
        simpa using hsemicolon
      · simp [hsemicolon, hx]
    · rw [List.mem_singleton.1 hx]
      rfl
  have hopens : opensBody (' ' :: (t ++ [' '])) = true := by
    have hopens := hfinishes [' ']
    rw [← opensBody_append_space] at hopens
    simpa using hopens
  have hfind := Code.find?_append_cons (p := fun i c => c == ';' || (c == '{' &&
      opensBody (Text.takeBytes (' ' :: (t ++ [' ']) ++ '{' :: body) i))) hbalanced hmiss
    (c := '{') (by decide) (by decide)
    (by rw [Text.takeBytes_append, hopens]; rfl) body
  have hcollapse : collapse (' ' :: (t ++ [' '])) = collapse t :=
    Text.collapse_blanks .space t .space
  simp only [returnType, hfind, Text.takeBytes_append, hcollapse]

theorem returnType_type {t : Text} (h : IsType t) (body : Text) :
    returnType (' ' :: (t ++ [' ']) ++ '{' :: body) = t := by
  rw [returnType_eq_collapse h.balanced h.bodiless h.finishes, Text.collapse_of_neat h.neat]

def returnText : Option TypeTerm → Text
  | none => []
  | some type => ':' :: ' ' :: type.text

theorem balanced_returnText (returns : Option TypeTerm) : Balanced (returnText returns) := by
  cases returns with
  | none => exact .nil
  | some type => exact .char (by decide) (.char (by decide) type.isType.balanced)

/-- The return type that stands behind the parentheses, if one does. -/
def returns? (t : Text) : Option Text :=
  ((Text.after? (trimStart t) [':']).map returnType).filter (!·.isEmpty)

/-- Between the parentheses and the body stands the return type, or nothing. -/
theorem returns?_returnText (returns : Option TypeTerm) (body : Text) :
    returns? (returnText returns ++ ' ' :: '{' :: body) = returns.map TypeTerm.text := by
  rw [returns?]
  cases returns with
  | none =>
    have htrim : trimStart (' ' :: '{' :: body) = '{' :: body :=
      (Text.trimStart_blank_append .space _).trans (Text.trimStart_cons (by decide) body)
    have hafter : Text.after? ('{' :: body) [':'] = none := Text.after?_eq_none (by decide)
    rw [returnText, List.nil_append, htrim, hafter]
    rfl
  | some type =>
    have htrim : trimStart (returnText (some type) ++ ' ' :: '{' :: body) =
        [':'] ++ (' ' :: (type.text ++ [' ']) ++ '{' :: body) := by
      have hcut : returnText (some type) ++ ' ' :: '{' :: body =
          ':' :: (' ' :: (type.text ++ [' ']) ++ '{' :: body) := by simp [returnText]
      rw [hcut]
      exact Text.trimStart_cons (by decide) _
    have hne : type.text ≠ [] := type.isType.neat.solid.ne_nil
    rw [htrim, Text.after?_append, Option.map_some, returnType_type type.isType]
    simp [hne]

/-! ## Functions -/

/-- The name of a function, its parameters, and its return type. -/
def signatureText (name : Word) (params : List Text) (returns : Option TypeTerm) : Text :=
  name.text ++ '(' :: (List.intercalate ", " params ++ ')' :: returnText returns)

/-- The declaration of a function. Nothing is asked of the text behind the brace. -/
def printFunction (async : Bool) (name : Word) (params : List Parameter) (returns : Option TypeTerm)
    (body : Text) : Text :=
  "export " ++ (if async then "async " else "") ++ "function " ++
    signatureText name (params.map Parameter.text) returns ++ " \x7b" ++ body

/-- The declaration of a function up to the brace. -/
def functionHead (async : Bool) (signature : Text) : Text :=
  "export" ++ (Gap.space.text ++ (asyncText (if async then some .space else none) ++ ("function" ++
    (Gap.space.text ++ (signature ++ [' '])))))

theorem print_eq_functionHead (async : Bool) (signature body : Text) :
    ("export " ++ (if async then "async " else "") ++ "function " ++ signature ++ " \x7b" ++ body : Text) =
      functionHead async signature ++ '{' :: body := by
  have hnone : asyncText none = [] := rfl
  have hsome : asyncText (some .space) = "async " := rfl
  have hspace : Gap.space.text = [' '] := rfl
  unfold functionHead
  cases async <;> simp [hnone, hsome, hspace]

/-- The declaration of a function up to the brace is read as if the body were not there. -/
theorem stripComments_functionHead (async : Bool) {signature : Text} (h : Balanced signature)
    (body : Text) :
    ∃ rest, Code.stripComments (functionHead async signature ++ '{' :: body) =
      functionHead async signature ++ '{' :: rest := by
  have hexport : Balanced ("export" : Text) := .of_forall (by decide)
  have hspace : Balanced [' '] := .of_forall (by decide)
  have hplain : Plain (functionHead async signature) :=
    (hexport.append (hspace.append ((balanced_asyncText _).append (isKeyword_function.balanced.append
      (hspace.append (h.append hspace)))))).plain
  exact Code.exists_stripComments_append hplain (by decide) (by decide) (by decide) body

/-- **The parts of a signature** are found between its parentheses and behind them, whatever the
parameters and the return type are. -/
theorem functionText?_functionHead (async : Bool) (name : Word) {params : List Text}
    (hbalanced : ∀ t ∈ params, Balanced t) (hsolid : ∀ t ∈ params, Solid t)
    (hcomma : ∀ t ∈ params, Lacks ',' t) {returns : Text} (hreturns : Balanced returns)
    (body : Text) :
    ∃ rest, functionText? (functionHead async
        (name.text ++ '(' :: (List.intercalate ", " params ++ ')' :: returns)) ++ '{' :: body) =
      some ("export declare function " ++
        (name.text ++ '(' :: (List.intercalate ", " (params.map (collapse ∘ stripDefault)) ++
          ')' :: ((returns? (returns ++ ' ' :: '{' :: rest)).map ((": " : Text) ++ ·)).getD [])) ++
        [';']) := by
  have hinner : Balanced (List.intercalate (", " : Text) params) :=
    .intercalate (.of_forall (by decide)) hbalanced
  have hsignature :
      Balanced (name.text ++ '(' :: (List.intercalate ", " params ++ ')' :: returns)) :=
    name.balanced.append (.group rfl hinner hreturns)
  obtain ⟨rest, hstrip⟩ := stripComments_functionHead async hsignature body
  refine ⟨rest, ?_⟩
  have hhead : declarationHead? (functionHead async
      (name.text ++ '(' :: (List.intercalate ", " params ++ ')' :: returns)) ++ '{' :: rest)
      "function" =
      some (name.text ++ '(' :: (List.intercalate ", " params ++
        ')' :: (returns ++ ' ' :: '{' :: rest))) := by
    have h := declarationHead?_print isKeyword_function (if async then some .space else none) .space
      .space name.solid ('(' :: (List.intercalate ", " params ++
        ')' :: (returns ++ ' ' :: '{' :: rest)))
    unfold functionHead
    simpa only [List.append_assoc, List.cons_append, List.nil_append] using h
  have hsplit : Code.split ',' (List.intercalate ", " params) = params := by
    simpa [Gap.none] using Code.split_intercalate hbalanced hsolid hcomma .none .none
  generalize List.intercalate (", " : Text) params = inner at *
  generalize hafter : returns ++ ' ' :: '{' :: rest = after at *
  have hword : Text.leadingWord? (name.text ++ '(' :: (inner ++ ')' :: after)) = some name.text :=
    name.leadingWord? (by rintro c ⟨⟩; decide)
  have hstars : (name.text ++ '(' :: (inner ++ ')' :: after)).dropWhile (· == '*') =
      name.text ++ '(' :: (inner ++ ')' :: after) := by
    obtain ⟨c, u, hcu, hc⟩ := name.head
    have hne : c ≠ '*' := Code.ne_of_isWordChar hc (by decide)
    rw [hcu]
    exact List.dropWhile_cons_of_neg (by simpa using hne)
  have hopen : trimStart ('(' :: (inner ++ ')' :: after)) = '(' :: (inner ++ ')' :: after) :=
    Text.trimStart_cons (by decide) _
  have hclose : Code.close? ('(' :: (inner ++ ')' :: after)) = some (1 + size inner) :=
    Code.close?_group rfl hinner after
  have hinside : Text.takeBytes ('(' :: (inner ++ ')' :: after)).tail (1 + size inner - 1) = inner := by
    rw [List.tail_cons, Nat.add_sub_cancel_left, Text.takeBytes_append]
  have hrest : Text.dropBytes ('(' :: (inner ++ ')' :: after)) (1 + size inner + 1) = after :=
    Text.dropBytes_append_cons ('(' :: inner) ')' after
  have hgenerics : typeParameters? ('(' :: (inner ++ ')' :: after)) =
      some ([], '(' :: (inner ++ ')' :: after)) := rfl
  have hguard : (guard (Text.startsWith ('(' :: (inner ++ ')' :: after)) ['('] = true) : Option Unit) =
      some () := rfl
  have hnone : collapse [] = [] := rfl
  unfold functionText?
  rw [hstrip, hhead]
  simp only [Option.bind_eq_bind, Option.bind_some, hstars, name.solid.trimStart, hword,
    List.drop_left, hopen, hgenerics, hguard, hclose, hinside, hsplit, hrest, hnone, returns?]
  simp

theorem map_stripDefault_params (params : List Parameter) :
    (params.map Parameter.text).map (collapse ∘ stripDefault) = params.map Parameter.declared := by
  rw [List.map_map]
  refine List.map_congr_left fun p _ => ?_
  show collapse (stripDefault p.text) = p.declared
  rw [p.stripDefault_text, Text.collapse_of_neat p.isPart.neat]

theorem functionText?_printFunction (async : Bool) (name : Word) (params : List Parameter)
    (returns : Option TypeTerm) (body : Text) :
    functionText? (printFunction async name params returns body) =
      some ("export declare function " ++
        signatureText name (params.map Parameter.declared) returns ++ [';']) := by
  obtain ⟨rest, h⟩ := functionText?_functionHead async name
    (List.forall_mem_map.2 fun p (_ : p ∈ params) => p.balanced)
    (List.forall_mem_map.2 fun p _ => p.solid) (List.forall_mem_map.2 fun p _ => p.lacks_comma)
    (balanced_returnText returns) body
  have htype : (Option.map (fun t => (": " : Text) ++ t) (returns.map TypeTerm.text)).getD [] =
      returnText returns := by
    cases returns <;> rfl
  have hprint : printFunction async name params returns body =
      functionHead async (signatureText name (params.map Parameter.text) returns) ++ '{' :: body :=
    print_eq_functionHead async _ body
  rw [hprint, signatureText, h, map_stripDefault_params, returns?_returnText, htype, signatureText]

/-- **The declaration of a function**, for all parameters, return types and bodies: the signature is
kept, and nothing of the default values and of the body. -/
theorem declare?_function (fallback : Fallback) (comment : Option Text) (exported async : Bool)
    (name : Word) (params : List Parameter) (returns : Option TypeTerm) (body : Text) :
    declare? fallback
        { comment
          body := printFunction async name params returns body
          kind := .function
          exported } =
      some
        { kind := .function
          comment
          text := "export declare function " ++
            signatureText name (params.map Parameter.declared) returns ++ [';'] } :=
  congrArg (Option.map fun text => Symbol.mk .function comment text)
    (functionText?_printFunction async name params returns body)

end Ambient.Declaration
