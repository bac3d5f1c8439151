/-
What is exported, and what a source without exports declares.

The body of a block is its first line, trimmed, and what follows that behind a blank (`text_eq`). So
the word `export` starts the body exactly where it starts the line (`exported_iff`), whatever the block
takes in behind it. A block that is not exported is an interface or a type alias and declares nothing
(`declare?_of_not_exported`), and the declaration file is empty exactly when no exported block declares
anything (`Document.generate_without_exports`).
-/
import Ambient.Document
import Ambient.Proofs.Code.Token
import Ambient.Proofs.Source.Spans
import Ambient.Proofs.Text.Lines
import Ambient.Proofs.Text.Spacing

namespace Ambient.Source

open Text (trim trimEnd isBlank isWordChar)

/-! ## Texts that start with a word -/

/-- A text starts with a word, and the word ends there. -/
def StartsWithWord (t word : Text) : Prop :=
  ∃ rest, t = word ++ rest ∧ ∀ c, rest.head? = some c → isWordChar c = false

theorem startsWithKeyword_iff {t word : Text} :
    startsWithKeyword t word = true ↔ StartsWithWord t word := by
  simp only [startsWithKeyword, afterKeyword?, Option.isSome_iff_exists, Option.bind_eq_bind,
    Option.bind_eq_some_iff]
  constructor
  · rintro ⟨_, rest, hrest, hends⟩
    refine ⟨rest, Text.eq_append_of_after? hrest, fun c hc => ?_⟩
    rw [hc, Option.any_some] at hends
    split at hends
    · cases hends
    · rename_i hword
      exact Bool.eq_false_iff.2 hword
  · rintro ⟨rest, rfl, hends⟩
    refine ⟨Text.trimStart rest, rest, Text.after?_append word rest, ?_⟩
    cases hhead : rest.head? with
    | none => simp
    | some c => simp [hends c hhead]

instance (t word : Text) : Decidable (StartsWithWord t word) :=
  decidable_of_iff _ startsWithKeyword_iff

/-- Whether a text starts with a word is not changed by what follows the text behind a blank. -/
theorem startsWithWord_append {t u word : Text} (hword : ∀ c ∈ word, isBlank c = false)
    (hu : ∀ c, u.head? = some c → isBlank c = true) :
    StartsWithWord (t ++ u) word ↔ StartsWithWord t word := by
  constructor
  · rintro ⟨rest, heq, hends⟩
    rcases List.append_eq_append_iff.1 heq with ⟨more, hmore, hrest⟩ | ⟨more, hmore, hrest⟩
    · -- the word would reach over the end of `t`, but there a blank stands
      cases more with
      | nil => exact ⟨[], by simpa using hmore.symm, by simp⟩
      | cons c more =>
        have hblank := hu c (by simp [hrest])
        rw [hword c (by simp [hmore])] at hblank
        cases hblank
    · refine ⟨more, hmore, fun c hc => hends c ?_⟩
      rw [hrest, List.head?_append, hc, Option.some_or]
  · rintro ⟨rest, rfl, hends⟩
    refine ⟨rest ++ u, List.append_assoc word rest u, fun c hc => ?_⟩
    cases rest with
    | nil =>
      rw [Bool.eq_false_iff]
      intro hw
      have hblank := hu c hc
      rw [Code.not_isBlank_of_isWordChar hw] at hblank
      cases hblank
    | cons d rest => exact hends c hc

/-! ## The body of a block -/

theorem ne_nil_of_opening? {t : Text} {opening : Opening} (h : opening? t = some opening) :
    t ≠ [] := by
  rintro rfl
  cases h

theorem exists_joinLines_cons (line : Text) (rest : List Text) :
    ∃ tail, Text.joinLines (line :: rest) = line ++ tail ∧
      ∀ c, tail.head? = some c → isBlank c = true := by
  cases rest with
  | nil => exact ⟨[], by simp [Text.joinLines], by simp⟩
  | cons next rest =>
    refine ⟨'\n' :: Text.joinLines (next :: rest), ?_, ?_⟩
    · simp [Text.joinLines, List.intercalate_cons_cons]
    · rintro c hc
      cases hc
      decide

theorem between_of_le {ls : List Text} {i k : Nat} (hik : i ≤ k) (hk : k < ls.length) :
    ∃ rest, between ls i (k + 1) = lineAt ls i :: rest := by
  have hi : i < (ls.take (k + 1)).length := by
    rw [List.length_take]
    omega
  refine ⟨(ls.take (k + 1)).drop (i + 1), ?_⟩
  rw [between, List.drop_eq_getElem_cons hi, List.getElem_take,
    lineAt_eq (List.getElem?_eq_getElem (by omega))]

/-- The text of a span is its first line, trimmed, and what follows that behind a blank. -/
theorem Span.Describes.text_eq {ls : List Text} {span : Span} {item : Item}
    (h : span.Describes ls item) :
    ∃ tail, item.body = trim (lineAt ls span.first) ++ tail ∧
      ∀ c, tail.head? = some c → isBlank c = true := by
  obtain ⟨rest, hrest⟩ := between_of_le h.first_le_last h.last_lt
  obtain ⟨tail, htail, hblank⟩ := exists_joinLines_cons (lineAt ls span.first) rest
  obtain ⟨g, hg, htrim⟩ := Text.trim_append (ne_nil_of_opening? h.opening) tail
  refine ⟨trimEnd (g ++ tail), ?_, fun c hc => ?_⟩
  · rw [h.body, Span.text, hrest, htail, htrim]
  · have hhead := Text.head?_of_head?_trimEnd hc
    cases g with
    | nil => exact hblank c hhead
    | cons d g =>
      cases hhead
      exact hg c (by simp)

theorem Span.Describes.startsWithWord_iff {ls : List Text} {span : Span} {item : Item}
    (h : span.Describes ls item) {word : Text} (hword : ∀ c ∈ word, isBlank c = false) :
    StartsWithWord item.body word ↔ StartsWithWord (trim (lineAt ls span.first)) word := by
  obtain ⟨tail, hbody, htail⟩ := h.text_eq
  rw [hbody, startsWithWord_append hword htail]

/-! ## Blocks that are exported -/

theorem Scanner.exists_item_of_step {s : Scanner} {line : Text} {next : Option Text} {item : Item}
    (h : (s.step line next).2 = some item) : ∃ b, item = s.item b := by
  cases htaking : s.taking? line with
  | none =>
    rw [(step_of_not_taking htaking).1] at h
    cases h
  | some b =>
    rw [step_of_taking htaking] at h
    by_cases hon : (b.push line).goesOn line next = true
    · rw [extend_of_goesOn hon] at h
      cases h
    · rw [extend_of_not_goesOn hon] at h
      exact ⟨b.push line, (Option.some.inj h).symm⟩

theorem Scanner.exists_item_of_mem_located {s : Scanner} {k : Nat} {ls : List Text} {p : Span × Item}
    (h : p ∈ s.located k ls) : ∃ (s' : Scanner) (b : OpenBlock), p.2 = s'.item b := by
  induction ls generalizing s k with
  | nil =>
    cases hphase : s.phase with
    | block b =>
      simp only [located, hphase, List.mem_singleton] at h
      exact ⟨s, b, by rw [h]⟩
    | idle => simp [located, hphase] at h
    | comment doc => simp [located, hphase] at h
  | cons line rest ih =>
    simp only [located, List.mem_append, List.mem_map, Option.mem_toList] at h
    rcases h with ⟨item, hitem, rfl⟩ | h
    · obtain ⟨b, hb⟩ := exists_item_of_step hitem
      exact ⟨s, b, hb⟩
    · exact ih h

/-- The kind of a block, and whether it is exported, follow from its body. -/
theorem blockKind_of_mem_located {source : Text} {p : Span × Item} (hp : p ∈ located source)
    {b : Block} (hb : p.2 = .declaration b) : blockKind b.body = (b.kind, b.exported) := by
  obtain ⟨s, o, hitem⟩ := Scanner.exists_item_of_mem_located hp
  exact (Scanner.of_item_declaration (hb.symm.trans hitem)).2

theorem snd_blockKind (body : Text) : (blockKind body).2 = startsWithKeyword body "export" := by
  unfold blockKind startsWithKeyword
  cases afterKeyword? body "export" <;> rfl

/-- **A block is exported exactly when its first line starts with `export`.** -/
theorem exported_iff {source : Text} {p : Span × Item} (hp : p ∈ located source) {b : Block}
    (hb : p.2 = .declaration b) :
    b.exported = true ↔ StartsWithWord (trim (lineAt (Text.lines source) p.1.first)) "export" := by
  have hdescribes := ((standsAt_zero (Text.lines source)).describes hp).2
  have hbody : p.2.body = b.body := by rw [hb]; rfl
  have hexported : b.exported = startsWithKeyword b.body "export" := by
    rw [← snd_blockKind, blockKind_of_mem_located hp hb]
  rw [hexported, startsWithKeyword_iff, ← hbody]
  exact hdescribes.startsWithWord_iff (by decide)

/-- A block that is not exported declares nothing. -/
theorem declare?_of_not_exported {source : Text} {p : Span × Item} (hp : p ∈ located source)
    {b : Block} (hb : p.2 = .declaration b) (h : ¬ b.exported = true)
    (fallback : Declaration.Fallback) : Declaration.declare? fallback b = none := by
  have hkind := blockKind_of_mem_located hp hb
  unfold blockKind at hkind
  split at hkind
  · exact absurd (Prod.mk.inj hkind).2.symm h
  · obtain ⟨hkind, -⟩ := Prod.mk.inj hkind
    unfold Declaration.declare?
    split at hkind <;> simp [← hkind, h]

theorem mem_blocks_iff {source : Text} {b : Block} :
    b ∈ blocks source ↔ ∃ p ∈ located source, p.2 = .declaration b := by
  have hscan : scan source = (located source).map Prod.snd :=
    (Scanner.map_snd_located {} 0 (Text.lines source)).symm
  have hdeclaration : ∀ item : Item, item.declaration? = some b ↔ item = .declaration b := by
    intro item
    cases item <;> simp [Item.declaration?]
  simp only [blocks, hscan, List.mem_filterMap, List.mem_map, hdeclaration]
  constructor
  · rintro ⟨_, ⟨p, hp, rfl⟩, hb⟩
    exact ⟨p, hp, hb⟩
  · rintro ⟨p, hp, hb⟩
    exact ⟨p.2, ⟨p, hp, rfl⟩, hb⟩

end Ambient.Source

namespace Ambient.Document

open Source (StartsWithWord located lineAt)

/-- A declaration file is empty when no block declares anything. With a declaration it has a line end
at least. -/
theorem generate_eq_nil_iff {options : Options} {source : Text} :
    generate options source = [] ↔
      ∀ b ∈ Source.blocks source, Declaration.declare? options.fallback b = none := by
  have hsymbols : symbols options source = [] ↔
      ∀ b ∈ Source.blocks source, Declaration.declare? options.fallback b = none := by
    rw [symbols, List.map_eq_nil_iff, List.filterMap_eq_nil_iff]
  rw [← hsymbols, generate]
  split
  · rename_i hnone
    exact ⟨fun _ => hnone, fun _ => rfl⟩
  · rename_i hsome
    refine ⟨fun h => ?_, fun h => absurd h hsome⟩
    simp [compose] at h

/-- **No exports, no declarations.** A source in which no line starts with `export` has the empty
declaration file. More exactly, the file is empty when and only when no block whose first line starts
with `export` declares anything. -/
theorem generate_without_exports (options : Options) (source : Text) :
    ((∀ line ∈ Text.lines source, ¬ StartsWithWord (Text.trim line) "export") →
        generate options source = []) ∧
      (generate options source = [] ↔
        ∀ p ∈ located source, ∀ b, p.2 = .declaration b →
          StartsWithWord (Text.trim (lineAt (Text.lines source) p.1.first)) "export" →
            Declaration.declare? options.fallback b = none) := by
  have hexact : generate options source = [] ↔
      ∀ p ∈ located source, ∀ b, p.2 = .declaration b →
        StartsWithWord (Text.trim (lineAt (Text.lines source) p.1.first)) "export" →
          Declaration.declare? options.fallback b = none := by
    rw [generate_eq_nil_iff]
    constructor
    · intro h p hp b hb _
      exact h b (Source.mem_blocks_iff.2 ⟨p, hp, hb⟩)
    · intro h b hmem
      obtain ⟨p, hp, hb⟩ := Source.mem_blocks_iff.1 hmem
      by_cases hexported : b.exported = true
      · exact h p hp b hb ((Source.exported_iff hp hb).1 hexported)
      · exact Source.declare?_of_not_exported hp hb hexported _
  refine ⟨fun h => hexact.2 fun p hp b _ hword => ?_, hexact⟩
  have hlast := ((Source.standsAt_zero (Text.lines source)).describes hp).2
  have hfirst : p.1.first < (Text.lines source).length :=
    Nat.lt_of_le_of_lt hlast.first_le_last hlast.last_lt
  rw [Source.lineAt_eq (List.getElem?_eq_getElem hfirst)] at hword
  exact absurd hword (h _ (List.getElem_mem hfirst))

/-- Imports, local types over several lines, words that only start like `export`, and a template that
is left open. -/
theorem generate_without_exports_local :
    let source : Text := "import \x7b A \x7d from './a'\n/** Doc. */\n" ++
      "interface Local \x7b\n  exported: A\n\x7d\n" ++
      "  type Pair<T> =\n  | [T, T]\nexports.a = 1\n$export\nconst t = `open\n"
    let options : Options := { fallback := .any, keepComments := true }
    (∀ line ∈ Text.lines source, ¬ StartsWithWord (Text.trim line) "export") ∧
      (Source.blocks source).length = 2 ∧ generate options source = [] := by
  intro source options
  have hlines : ∀ line ∈ Text.lines source, ¬ StartsWithWord (Text.trim line) "export" := by
    decide +kernel
  exact ⟨hlines, by decide +kernel, (generate_without_exports options source).1 hlines⟩

end Ambient.Document
