/-
Declarations of values, from their keyword to their initializer.

A printed declaration is plain, so no comment is stripped from it; what stands before `=` is a word
and blanks, so the name and the initializer are read back as they were (`readBinding_initializer`).
With the type of a literal, this gives the declaration of a value whose initializer is an object
literal.
-/
import Ambient.Proofs.Declaration.Head
import Ambient.Proofs.Declaration.ObjectLiteral

namespace Ambient.Declaration

open Code (Balanced Gap Lacks Plain Word)
open Source (Keyword)
open Text (Solid isBlank isWordChar trim trimEnd trimEndWhile startsWith)

/-! ## Names and initializers -/

/-- Between a word with blanks behind it and an initializer, `=` assigns. -/
theorem joinsEquals_eq_false (name : Word) (g₃ g₄ : Gap) {c : Char} (init : Text) (harrow : c ≠ '>')
    (hequals : c ≠ '=') :
    Code.joinsEquals (name.text ++ g₃.text).getLast? (g₄.text ++ c :: init).head? = false := by
  have hbefore : ∀ d ∈ name.text ++ g₃.text, d ≠ '=' ∧ d ≠ '!' ∧ d ≠ '<' ∧ d ≠ '>' := by
    intro d hd
    rcases List.mem_append.1 hd with hd | hd
    · have hne := fun e he => Code.ne_of_isWordChar (d := e) (name.isWord d hd) he
      exact ⟨hne _ (by decide), hne _ (by decide), hne _ (by decide), hne _ (by decide)⟩
    · have hne := fun e he => Code.State.ne_of_isBlank (d := e) (g₃.blank d hd) he
      exact ⟨hne _ (by decide), hne _ (by decide), hne _ (by decide), hne _ (by decide)⟩
  have hafter : ∀ d, (g₄.text ++ c :: init).head? = some d → d ≠ '>' ∧ d ≠ '=' := by
    intro d hd
    cases hg : g₄.text with
    | nil =>
      rw [hg] at hd
      cases hd
      exact ⟨harrow, hequals⟩
    | cons e g =>
      rw [hg] at hd
      obtain rfl : e = d := by simpa using hd
      have hblank : isBlank e = true := g₄.blank e (by simp [hg])
      exact ⟨Code.State.ne_of_isBlank hblank (by decide), Code.State.ne_of_isBlank hblank (by decide)⟩
  rw [Code.joinsEquals, Bool.or_eq_false_iff]
  constructor
  · cases hhead : (g₄.text ++ c :: init).head? with
    | none => rfl
    | some d => simp [hafter d hhead]
  · cases hlast : (name.text ++ g₃.text).getLast? with
    | none => rfl
    | some d => simp [hbefore d (List.mem_of_getLast? hlast)]

theorem trimEndWhile_bang (name : Word) : trimEndWhile (· == '!') name.text = name.text := by
  obtain ⟨u, d, hud, hd⟩ := name.getLast
  rw [hud]
  exact Text.trimEndWhile_concat (by simpa using Code.ne_of_isWordChar hd (by decide)) u

theorem readBinding_initializer (name : Word) (g₃ g₄ : Gap) {c : Char} {init : Text}
    (hinit : Solid (c :: init)) (harrow : c ≠ '>') (hequals : c ≠ '=') :
    readBinding (name.text ++ g₃.text ++ '=' :: (g₄.text ++ c :: init)) =
      ⟨name.text, none, some (c :: init)⟩ := by
  have hbalanced : Balanced (name.text ++ g₃.text) := name.balanced.append g₃.balanced
  have hlacks : ∀ {d : Char}, isWordChar d = false → isBlank d = false →
      Lacks d (name.text ++ g₃.text) := fun hword hblank =>
    .append name.balanced g₃.balanced (name.lacks hword) (g₃.lacks hblank)
  have hassign : Code.assignment? (name.text ++ g₃.text ++ '=' :: (g₄.text ++ c :: init)) =
      some (Text.size (name.text ++ g₃.text)) :=
    Code.assignment?_append_cons hbalanced (.of_lacks (hlacks (by decide) (by decide)))
      (joinsEquals_eq_false name g₃ g₄ init harrow hequals)
  have hcolon : Code.find? (fun _ d => d == ':') (name.text ++ g₃.text) = none :=
    Code.find?_eq_none fun x hx => by simpa using hlacks (by decide) (by decide) 0 x hx
  have hdrop := Text.dropBytes_append_cons (name.text ++ g₃.text) '=' (g₄.text ++ c :: init)
  rw [show '='.utf8Size = 1 by decide] at hdrop
  have hname : trim (name.text ++ g₃.text) = name.text :=
    Text.trim_of_solid .nil name.solid g₃.blank
  have hvalue : trim (g₄.text ++ c :: init) = c :: init := by
    simpa using Text.trim_of_solid g₄.blank hinit .nil
  simp only [readBinding, hassign, Text.takeBytes_append, hdrop, hcolon, hname, trimEndWhile_bang,
    hvalue]
  rfl

/-! ## Declarations -/

/-- The declaration of a value with an initializer, with the blanks between its parts. -/
def printValue (keyword : Keyword) (name : Word) (g₁ g₂ g₃ g₄ : Gap) (init : Text) : Text :=
  "export" ++ (g₁.text ++ (keyword.text ++ (g₂.text ++
    (name.text ++ g₃.text ++ '=' :: (g₄.text ++ init)))))

theorem plain_printValue (keyword : Keyword) (name : Word) (g₁ g₂ g₃ g₄ : Gap) {init : Text}
    (hinit : Plain init) : Plain (printValue keyword name g₁ g₂ g₃ g₄ init) := by
  have hexport : Balanced ("export" : Text) := .of_forall (by decide)
  have htarget : Plain (name.text ++ g₃.text) := (name.balanced.append g₃.balanced).plain
  have hequals : Plain ('=' :: (g₄.text ++ init)) :=
    .char (by decide) (by decide) (g₄.balanced.plain.append hinit)
  exact hexport.plain.append (g₁.balanced.plain.append ((isKeyword_text keyword).balanced.plain.append
    (g₂.balanced.plain.append (htarget.append hequals))))

/-- The declaration of a value, from what is read behind its keyword. -/
theorem valueText?_of_readBinding (fallback : Fallback) (keyword : Keyword) (name : Word) (g₁ g₂ g : Gap)
    {rest value body : Text} {type initializer : Option Text}
    (hbody : body = "export" ++ (g₁.text ++ (keyword.text ++ (g₂.text ++
      (name.text ++ (rest ++ (value ++ g.text)))))))
    (hstrip : Code.stripComments body = body) (hvalue : Solid value)
    (hsemicolon : value.getLast? ≠ some ';')
    (hread : readBinding (name.text ++ (rest ++ value)) = ⟨name.text, type, initializer⟩) :
    valueText? keyword fallback body =
      some ("export declare " ++ keyword.text ++ [' '] ++ name.text ++ ": " ++
        (Binding.mk name.text type initializer).type fallback ++ [';']) := by
  have hhead : declarationHead? body keyword.text =
      some (name.text ++ (rest ++ (value ++ g.text))) := by
    rw [hbody]
    exact declarationHead?_print (isKeyword_text keyword) .none g₁ g₂ name.solid _
  have hend : trimEnd (name.text ++ (rest ++ (value ++ g.text))) = name.text ++ (rest ++ value) := by
    have htrim := Text.trimEnd_append_blank g.blank (name.text ++ rest ++ value)
    rw [hvalue.trimEnd] at htrim
    simpa using htrim
  have hopen : Text.before? (name.text ++ (rest ++ value)) [';'] = none := by
    obtain ⟨d, u, hud, -⟩ := hvalue.last
    have hd : d ≠ ';' := by simpa [hud] using hsemicolon
    have h : Text.before? (name.text ++ (rest ++ u) ++ [d]) ([] ++ [';']) = none :=
      Text.before?_eq_none hd
    simpa [hud] using h
  have hword : Text.leadingWord? name.text = some name.text := by
    simpa using name.leadingWord? (u := []) (by simp)
  rw [valueText?, hstrip, hhead]
  simp only [Option.bind_eq_bind, Option.bind_some, hend, hopen, Option.getD_none, hread, hword, if_true]

/-- A value without an annotation has the type of its initializer, in every layout. -/
theorem valueText?_printValue (fallback : Fallback) (keyword : Keyword) (name : Word)
    (g₁ g₂ g₃ g₄ : Gap) {c d : Char} {init t : Text}
    (hstrip : Code.stripComments (printValue keyword name g₁ g₂ g₃ g₄ (c :: init)) =
      printValue keyword name g₁ g₂ g₃ g₄ (c :: init))
    (hlast : c :: init = t ++ [d]) (hc : isBlank c = false) (hd : isBlank d = false) (harrow : c ≠ '>')
    (hequals : c ≠ '=') (hsemicolon : d ≠ ';') :
    valueText? keyword fallback (printValue keyword name g₁ g₂ g₃ g₄ (c :: init)) =
      some ("export declare " ++ keyword.text ++ [' '] ++ name.text ++ ": " ++
        (Binding.mk name.text none (some (c :: init))).type fallback ++ [';']) := by
  have hsolid : Solid (c :: init) := ⟨⟨c, init, rfl, hc⟩, ⟨d, t, hlast, hd⟩⟩
  have hread := readBinding_initializer name g₃ g₄ hsolid harrow hequals
  have hcut : name.text ++ g₃.text ++ '=' :: (g₄.text ++ c :: init) =
      name.text ++ (g₃.text ++ '=' :: g₄.text ++ c :: init) := by simp
  rw [hcut] at hread
  have hnone : Gap.none.text = [] := rfl
  refine valueText?_of_readBinding fallback keyword name g₁ g₂ .none ?_ hstrip hsolid ?_ hread
  · unfold printValue
    rw [hcut, hnone, List.append_nil]
  · rw [hlast, List.getLast?_concat]
    simpa using hsemicolon

/-- **The declaration of a value whose initializer is an object literal**, for every tree of fields,
every layout and every keyword: the value is declared with the type of the literal, which lists all
fields in order. -/
theorem declare?_objectLiteral (fallback : Fallback) (comment : Option Text) (exported : Bool)
    (keyword : Keyword) (name : Word) (g₁ g₂ g₃ g₄ : Gap) (fields : Fields) :
    declare? fallback
        { comment
          body := printValue keyword name g₁ g₂ g₃ g₄ (Literal.object fields).text
          kind := .value keyword
          exported } =
      some
        { kind := .value
          comment
          text := "export declare " ++ keyword.text ++ [' '] ++ name.text ++ ": " ++
            (Literal.object fields).type 0 ++ [';'] } := by
  have htext : (Literal.object fields).text = '{' :: (fields.text ++ ['}']) := by rw [Literal.text]
  have hopen : startsWith (Literal.object fields).text ['{'] = true := by
    rw [htext]
    rfl
  have htype : (Binding.mk name.text none (some (Literal.object fields).text)).type fallback =
      (Literal.object fields).type 0 := by
    have hof := (Literal.object fields).typeOf_text fallback 0
    rw [typeOf, if_pos hopen] at hof
    rw [Binding.type, ← hof]
    exact if_pos hopen
  have hvalue : valueText? keyword fallback
      (printValue keyword name g₁ g₂ g₃ g₄ (Literal.object fields).text) =
      some ("export declare " ++ keyword.text ++ [' '] ++ name.text ++ ": " ++
        (Literal.object fields).type 0 ++ [';']) := by
    have hstrip := Code.stripComments_of_plain
      (plain_printValue keyword name g₁ g₂ g₃ g₄ (Literal.object fields).balanced.plain)
    rw [htext] at hstrip
    have h := valueText?_printValue fallback keyword name g₁ g₂ g₃ g₄ (t := '{' :: fields.text)
      hstrip rfl (by decide) (by decide) (by decide) (by decide) (by decide)
    rw [← htext, htype] at h
    exact h
  exact congrArg (Option.map fun text => Symbol.mk .value comment text) hvalue

end Ambient.Declaration
