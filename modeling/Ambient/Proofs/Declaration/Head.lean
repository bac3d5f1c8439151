/-
What follows the keyword of a printed declaration, with any blanks between its first words.
-/
import Ambient.Declaration.Symbol
import Ambient.Proofs.Code.Token

namespace Ambient.Declaration

open Code (Balanced Gap)
open Source (Keyword)
open Text (Solid isWordChar)

/-- The words that declare something. The one word that may stand before them starts with `a`. -/
structure IsKeyword (keyword : Text) : Prop where
  isWord : ∀ c ∈ keyword, isWordChar c = true
  head : ∃ c t, keyword = c :: t ∧ c ≠ 'a'

theorem isKeyword_text (keyword : Keyword) : IsKeyword keyword.text := by
  cases keyword with
  | constKeyword => exact ⟨by decide, 'c', "onst", by decide⟩
  | letKeyword => exact ⟨by decide, 'l', "et", by decide⟩
  | varKeyword => exact ⟨by decide, 'v', "ar", by decide⟩

theorem isKeyword_function : IsKeyword "function" :=
  ⟨by decide, 'f', "unction", by decide⟩

namespace IsKeyword

variable {keyword : Text}

theorem trimStart (h : IsKeyword keyword) (t : Text) : Text.trimStart (keyword ++ t) = keyword ++ t := by
  obtain ⟨c, u, rfl, -⟩ := h.head
  exact Text.trimStart_cons (Code.not_isBlank_of_isWordChar (h.isWord c (by simp))) (u ++ t)

theorem after?_async (h : IsKeyword keyword) (t : Text) : Text.after? (keyword ++ t) "async" = none := by
  obtain ⟨c, u, rfl, hc⟩ := h.head
  exact Text.after?_eq_none hc

theorem balanced (h : IsKeyword keyword) : Balanced keyword :=
  .of_forall fun c hc => Code.isOrdinary_of_isWordChar (h.isWord c hc)

end IsKeyword

/-- The mark of an asynchronous function, with the blanks behind it. -/
def asyncText : Option Gap → Text
  | none => []
  | some gap => "async" ++ gap.text

theorem balanced_asyncText (async : Option Gap) : Balanced (asyncText async) := by
  cases async with
  | none => exact .nil
  | some gap =>
    have hasync : Balanced ("async" : Text) := .of_forall (by decide)
    exact hasync.append gap.balanced

theorem declarationHead?_print {keyword : Text} (h : IsKeyword keyword) (async : Option Gap)
    (g₁ g₂ : Gap) {t : Text} (ht : Solid t) (u : Text) :
    declarationHead?
        ("export" ++ (g₁.text ++ (asyncText async ++ (keyword ++ (g₂.text ++ (t ++ u)))))) keyword =
      some (t ++ u) := by
  have hexport : ∀ v : Text, Text.trimStart (("export" : Text) ++ v) = "export" ++ v :=
    fun v => Text.trimStart_cons (by decide) _
  have hkeyword := Text.trimStart_blank_append g₂.blank (t ++ u)
  rw [declarationHead?, hexport, Text.after?_append]
  cases async with
  | none =>
    have hnone : asyncText none = [] := rfl
    simp only [hnone, List.nil_append, Option.bind_eq_bind, Option.bind_some,
      Text.trimStart_blank_append g₁.blank, h.trimStart, h.after?_async, Option.map_none,
      Option.getD_none, Text.after?_append, Option.map_eq_map, Option.map_some, hkeyword, ht.trimStart]
  | some gap =>
    have hasync : ∀ v : Text, Text.trimStart (("async" : Text) ++ v) = "async" ++ v :=
      fun v => Text.trimStart_cons (by decide) _
    have hsome : asyncText (some gap) = "async" ++ gap.text := rfl
    simp only [hsome, List.append_assoc, Option.bind_eq_bind, Option.bind_some,
      Text.trimStart_blank_append g₁.blank, hasync, Text.after?_append, Option.map_some,
      Option.getD_some, Text.trimStart_blank_append gap.blank, h.trimStart, Option.map_eq_map,
      hkeyword, ht.trimStart]

end Ambient.Declaration
