/-
Functions with the same head and different bodies.

A declaration is read from left to right, and each search in it ends at or before the brace that opens
the body: for the name, for the brackets that close the type parameters and the parameters, and for
the end of the return type (`typeParameters?_append`, `ReachesBody.returns_append`). So nothing behind
that brace is ever looked at, whatever quotes, comment marks and brackets stand there, and two functions
that differ in their bodies alone have the same declaration.
-/
import Ambient.Declaration.Symbol
import Ambient.Proofs.Code.Closing
import Mathlib.Data.Option.Basic

namespace Ambient.Declaration

open Code (close? stripComments)
open Text (Blank collapse dropBytes isBlank leadingWord? size startsWith takeBytes trimStart)

/-! ## The parts of a function -/

/-- The name of a declared function, and what follows it. -/
def named? (code : Text) : Option (Text × Text) := do
  let head ← declarationHead? code "function"
  let head := trimStart (head.dropWhile (· == '*'))
  let name ← leadingWord? head
  some (name, trimStart (head.drop name.length))

/-- The declaration of a function from what follows its name. -/
def signature? (name rest : Text) : Option Text := do
  let (generics, rest) ← typeParameters? rest
  guard (startsWith rest ['('])
  let close ← close? rest
  let params := (Code.split ',' (takeBytes rest.tail (close - 1))).map (collapse ∘ stripDefault)
  let returns := ((Text.after? (trimStart (dropBytes rest (close + 1))) [':']).map returnType).filter
    (!·.isEmpty)
  some (("export declare function " : Text) ++ name ++ collapse generics ++ ['('] ++
    List.intercalate ", " params ++ [')'] ++ (returns.map ((": " : Text) ++ ·)).getD [] ++ [';'])

theorem functionText?_eq_bind (body : Text) :
    functionText? body = (named? (stripComments body)).bind fun p => signature? p.1 p.2 := by
  unfold functionText? named?
  cases declarationHead? (stripComments body) "function" with
  | none => rfl
  | some head =>
    simp only [Option.bind_eq_bind, Option.bind_some]
    cases leadingWord? (trimStart (head.dropWhile (· == '*'))) with
    | none => rfl
    | some name => rfl

/-- Where a return type ends: at a semicolon, or at the brace that opens the body. -/
def typeEnd? (t : Text) : Option Nat :=
  Code.find? (fun i c => c == ';' || (c == '{' && opensBody (takeBytes t i))) t

/-- What stands behind the parameters, up to the brace that opens the body. When a colon follows the
parameters, the body opens where the return type ends, and otherwise at the first brace. -/
inductive ReachesBody : Text → Prop where
  | untyped {t : Text} (hcolon : (trimStart t).head? ≠ some ':') (hfirst : '{' ∉ t) :
      ReachesBody (t ++ ['{'])
  | typed {g t : Text} (hg : Blank g) (hstop : typeEnd? (t ++ ['{']) = some (size t)) :
      ReachesBody (g ++ ':' :: (t ++ ['{']))

/-- The text of a function up to the brace that opens its body. Where no name or no parameters are
found, so that the text declares nothing, any brace will do. -/
structure UpToBody (code : Text) : Prop where
  brace : code.getLast? = some '{'
  parameters : ∀ {name rest}, named? code = some (name, rest) →
    ∃ generics list, typeParameters? rest = some (generics, list) ∧
      (startsWith list ['('] = true →
        ∃ close, close? list = some close ∧ ReachesBody (dropBytes list (close + 1)))

/-! ## What follows the brace -/

theorem declarationHead?_append_cons {keyword : Text} (hkeyword : '{' ∉ keyword) (t u : Text) :
    declarationHead? (t ++ '{' :: u) keyword =
      (declarationHead? t keyword).map (· ++ '{' :: u) := by
  have hexport : '{' ∉ ("export" : Text) := by decide
  have hasync : '{' ∉ ("async" : Text) := by decide
  have hblank : isBlank '{' = false := by decide
  unfold declarationHead?
  rw [Text.trimStart_append_cons hblank, Text.after?_append_cons hexport]
  cases Text.after? (trimStart t) "export" with
  | none => rfl
  | some rest =>
    simp only [Option.map_some, Option.bind_eq_bind, Option.bind_some,
      Text.trimStart_append_cons hblank, Text.after?_append_cons hasync]
    cases Text.after? (trimStart rest) "async" with
    | none =>
      simp only [Option.map_none, Option.getD_none, Text.after?_append_cons hkeyword]
      cases Text.after? (trimStart rest) keyword with
      | none => rfl
      | some rest => simp [Text.trimStart_append_cons hblank]
    | some rest =>
      simp only [Option.map_some, Option.getD_some, Text.trimStart_append_cons hblank,
        Text.after?_append_cons hkeyword]
      cases Text.after? (trimStart rest) keyword with
      | none => rfl
      | some rest => simp [Text.trimStart_append_cons hblank]

theorem named?_append_cons (t u : Text) :
    named? (t ++ '{' :: u) = (named? t).map fun p => (p.1, p.2 ++ '{' :: u) := by
  have hblank : isBlank '{' = false := by decide
  have hword : Text.isWordChar '{' = false := by decide
  unfold named?
  rw [declarationHead?_append_cons (by decide)]
  cases declarationHead? t "function" with
  | none => rfl
  | some head =>
    simp only [Option.map_some, Option.bind_eq_bind, Option.bind_some,
      Text.dropWhile_append_cons (p := (· == '*')) (c := '{') rfl, Text.trimStart_append_cons hblank,
      Text.leadingWord?_append_cons hword]
    cases hname : leadingWord? (trimStart (head.dropWhile (· == '*'))) with
    | none => rfl
    | some name =>
      have hle := (Text.prefix_of_leadingWord? hname).length_le
      simp only [Option.bind_some, Option.map_some, List.drop_append_of_le_length hle,
        Text.trimStart_append_cons hblank]

theorem startsWith_append {t : Text} (hne : t ≠ []) (c : Char) (u : Text) :
    startsWith (t ++ u) [c] = startsWith t [c] := by
  cases t with
  | nil => exact absurd rfl hne
  | cons d t => rfl

theorem ne_nil_of_getLast? {t : Text} {c : Char} (h : t.getLast? = some c) : t ≠ [] := by
  rintro rfl
  cases h

/-- The bracket at the start of a text, from it to the one that closes it, and what follows. -/
theorem exists_group_of_close? {t : Text} {i : Nat} (h : close? t = some i)
    (hlast : t.getLast? = some '{') :
    ∃ group rest, t = group ++ rest ∧ i + 1 = size group ∧ rest.getLast? = some '{' := by
  obtain ⟨o, inner, c, rest, rfl, hpair, rfl⟩ := Code.exists_of_close? h
  obtain ⟨⟨-, -, hopen⟩, -, -, hclose⟩ := Code.plain_of_closer? hpair
  have hc : c ≠ '{' := by
    rcases Code.closer?_cases hpair with ⟨-, rfl⟩ | ⟨-, rfl⟩ | ⟨-, rfl⟩ | ⟨-, rfl⟩ <;> decide
  refine ⟨o :: (inner ++ [c]), rest, by simp, ?_, ?_⟩
  · simp only [size, Text.size_append, hopen, hclose]
    omega
  · cases rest with
    | nil =>
      rw [← List.cons_append, List.getLast?_concat] at hlast
      exact absurd (Option.some.inj hlast) hc
    | cons d rest =>
      have hsplit : o :: (inner ++ c :: d :: rest) = o :: (inner ++ [c]) ++ d :: rest := by simp
      rw [hsplit, List.getLast?_append, List.getLast?_cons, Option.some_or] at hlast
      rw [List.getLast?_cons, hlast]

/-- Type parameters that are closed are read alike whatever follows. -/
theorem typeParameters?_append {t generics list : Text} (hlast : t.getLast? = some '{')
    (h : typeParameters? t = some (generics, list)) (u : Text) :
    typeParameters? (t ++ u) = some (generics, list ++ u) ∧ list.getLast? = some '{' := by
  have hstart := startsWith_append (ne_nil_of_getLast? hlast) '<' u
  unfold typeParameters? at h ⊢
  rw [hstart]
  split at h
  · rename_i hangle
    rw [if_pos hangle]
    obtain ⟨close, hclose, hparts⟩ := Option.map_eq_some_iff.1 h
    obtain ⟨group, rest, rfl, hsize, hrest⟩ := exists_group_of_close? hclose hlast
    obtain ⟨before, rfl⟩ := List.getLast?_eq_some_iff.1 hrest
    have hblank : isBlank '{' = false := by decide
    have hmore : group ++ (before ++ ['{']) ++ u = group ++ (before ++ '{' :: u) := by simp
    rw [hsize, Text.takeBytes_append, Text.dropBytes_append, Prod.mk.injEq,
      Text.trimStart_append_cons hblank] at hparts
    obtain ⟨rfl, rfl⟩ := hparts
    rw [Code.close?_append_of_some (by decide) hlast hclose u, Option.map_some, hmore, hsize,
      Text.takeBytes_append, Text.dropBytes_append, Text.trimStart_append_cons hblank]
    exact ⟨by simp, List.getLast?_concat⟩
  · rename_i hangle
    rw [if_neg hangle]
    cases h
    exact ⟨rfl, hlast⟩

theorem returnType_append_of_typeEnd? {t : Text} (h : typeEnd? (t ++ ['{']) = some (size t))
    (u : Text) : returnType (t ++ '{' :: u) = collapse t := by
  have hcut : t ++ '{' :: u = t ++ ['{'] ++ u := by simp
  have hfind : typeEnd? (t ++ ['{'] ++ u) = some (size t) := by
    -- whether a brace opens the body depends on the text before it, which stays the same
    refine Code.find?_append_of_some (by decide) List.getLast?_concat u (fun j d hd => ?_) h
    obtain ⟨v, w, hsplit, rfl⟩ := Code.exists_of_mem_chars hd
    rw [hsplit, List.append_assoc, Text.takeBytes_append, Text.takeBytes_append]
  rw [typeEnd?, ← hcut] at hfind
  simp only [returnType, hfind, Text.takeBytes_append]

/-- The return type ends before the body. -/
theorem ReachesBody.returns_append {t : Text} (h : ReachesBody t) (u : Text) :
    (Text.after? (trimStart (t ++ u)) [':']).map returnType =
      (Text.after? (trimStart t) [':']).map returnType := by
  have hblank : isBlank '{' = false := by decide
  cases h with
  | @untyped t hcolon =>
    have hnone : Text.after? (trimStart t) [':'] = none := by
      cases hhead : trimStart t with
      | nil => rfl
      | cons c rest =>
        have hc : c ≠ ':' := by
          rintro rfl
          exact hcolon (by rw [hhead]; rfl)
        exact Text.after?_eq_none hc
    rw [List.append_assoc, List.singleton_append, Text.trimStart_append_cons hblank,
      Text.trimStart_append_cons hblank, Text.after?_append_cons (by decide),
      Text.after?_append_cons (by decide), hnone]
    rfl
  | @typed g t hg hstop =>
    have htype : ∀ u, (Text.after? (trimStart (g ++ ':' :: (t ++ '{' :: u))) [':']).map returnType =
        some (collapse t) := by
      intro u
      rw [Text.trimStart_blank_append hg, Text.trimStart_cons (by decide), ← List.singleton_append,
        Text.after?_append, Option.map_some, returnType_append_of_typeEnd? hstop]
    rw [List.append_assoc, List.cons_append, List.append_assoc, List.singleton_append, htype, htype]

theorem signature?_append (name : Text) {t generics list : Text} (hlast : t.getLast? = some '{')
    (hgenerics : typeParameters? t = some (generics, list))
    (hlist : startsWith list ['('] = true →
      ∃ close, close? list = some close ∧ ReachesBody (dropBytes list (close + 1))) (u : Text) :
    signature? name (t ++ u) = signature? name t := by
  obtain ⟨hmore, hbrace⟩ := typeParameters?_append hlast hgenerics u
  have hstart := startsWith_append (ne_nil_of_getLast? hbrace) '(' u
  unfold signature?
  simp only [hgenerics, hmore, Option.bind_eq_bind, Option.bind_some, hstart]
  by_cases hopen : startsWith list ['('] = true
  · obtain ⟨close, hclose, hreaches⟩ := hlist hopen
    obtain ⟨o, inner, c, rest, hsplit, -, rfl⟩ := Code.exists_of_close? hclose
    obtain ⟨group, rest', hgroup, hsize, -⟩ := exists_group_of_close? hclose hbrace
    have hinner : takeBytes (list ++ u).tail (1 + size inner - 1) =
        takeBytes list.tail (1 + size inner - 1) := by
      rw [hsplit, List.cons_append, List.tail_cons, List.tail_cons, List.append_assoc,
        Nat.add_sub_cancel_left, Text.takeBytes_append, Text.takeBytes_append]
    have hbehind : dropBytes (list ++ u) (1 + size inner + 1) =
        dropBytes list (1 + size inner + 1) ++ u := by
      rw [hsize, hgroup, List.append_assoc, Text.dropBytes_append, Text.dropBytes_append]
    simp only [hclose, Code.close?_append_of_some (by decide) hbrace hclose u, Option.bind_some, hinner,
      hbehind, hreaches.returns_append]
  · simp only [Bool.not_eq_true] at hopen
    rw [hopen]
    rfl

/-- What follows the brace plays no role. -/
theorem UpToBody.signature_append {code : Text} (h : UpToBody code) (u : Text) :
    ((named? (code ++ u)).bind fun p => signature? p.1 p.2) =
      (named? code).bind fun p => signature? p.1 p.2 := by
  obtain ⟨t, rfl⟩ := List.getLast?_eq_some_iff.1 h.brace
  have hcut : t ++ ['{'] ++ u = t ++ '{' :: u := by simp
  have hparameters := @h.parameters
  rw [hcut, named?_append_cons, named?_append_cons]
  rw [named?_append_cons] at hparameters
  cases hnamed : named? t with
  | none => rfl
  | some p =>
    obtain ⟨name, rest⟩ := p
    obtain ⟨generics, list, hgenerics, hlist⟩ := hparameters (by rw [hnamed]; rfl)
    have hsame := signature?_append name List.getLast?_concat hgenerics hlist u
    rw [List.append_assoc, List.singleton_append] at hsame
    exact hsame

/-- **The body of a function plays no role**: with the same text up to the brace that opens the body, two
functions have the same declaration, or none, whatever texts follow. -/
theorem declare?_of_same_head (fallback : Fallback) (comment : Option Text) (exported : Bool)
    {head : Text} (hbrace : head.getLast? = some '{') (hhead : UpToBody (stripComments head))
    (body₁ body₂ : Text) :
    declare? fallback { comment, body := head ++ body₁, kind := .function, exported } =
      declare? fallback { comment, body := head ++ body₂, kind := .function, exported } := by
  have htext : ∀ body, functionText? (head ++ body) = functionText? head := by
    intro body
    obtain ⟨t, rfl⟩ := List.getLast?_eq_some_iff.1 hbrace
    obtain ⟨rest, hstrip⟩ :=
      Code.exists_stripComments_append_of_last (c := '{') (by decide) (by decide) t body
    have hcut : t ++ ['{'] ++ body = t ++ '{' :: body := by simp
    rw [functionText?_eq_bind, functionText?_eq_bind, hcut, hstrip, hhead.signature_append]
  have hdeclare : ∀ body, declare? fallback
      { comment, body := head ++ body, kind := .function, exported } =
      (functionText? head).map fun text => Symbol.mk .function comment text := by
    intro body
    rw [← htext body]
    rfl
  rw [hdeclare, hdeclare]

/-- A head with type parameters, a default value, a comment and a return type with braces. -/
def loadHead : Text :=
  "export function load<T>(key = \"\x7b\", // the key\n  retry = 1): Promise<\x7b it: T \x7d> \x7b"

theorem upToBody_loadHead : UpToBody (stripComments loadHead) where
  brace := by decide +kernel
  parameters := by
    intro name rest hnamed
    let list : Text := "(key = \"\x7b\",\n  retry = 1): Promise<\x7b it: T \x7d> \x7b"
    have hrest : (named? (stripComments loadHead)).map Prod.snd = some ("<T>" ++ list) := by
      decide +kernel
    have hgenerics : typeParameters? ("<T>" ++ list) = some (("<T>" : Text), list) := by
      decide +kernel
    have hclose : close? list = some 23 := by decide +kernel
    rw [hnamed] at hrest
    obtain rfl := Option.some.inj hrest
    refine ⟨"<T>", list, hgenerics, fun _ => ⟨23, hclose, ?_⟩⟩
    exact .typed (g := []) (t := " Promise<\x7b it: T \x7d> ") .nil (by decide +kernel)

theorem declare?_loadHead :
    UpToBody (stripComments loadHead) ∧ ∀ body₁ body₂ : Text,
      declare? .any ⟨none, loadHead ++ body₁, .function, true⟩ =
        declare? .any ⟨none, loadHead ++ body₂, .function, true⟩ :=
  ⟨upToBody_loadHead, declare?_of_same_head .any none true (by decide) upToBody_loadHead⟩

end Ambient.Declaration
