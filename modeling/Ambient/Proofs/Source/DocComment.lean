/-
The doc comment of a declaration.

Going up from a line outside, over blank lines, line comments and plain comments, one may meet the
last line of a doc comment first (`DocAbove`). What waits for a declaration before that line is then
the text of this doc comment, and nothing waits otherwise (`pending_eq_some_iff`). A block keeps what
waited before its first line (`comment_of_mem_located`), and so a declaration has the doc comment
above it, and no declaration has the doc comment of another one (`scan_attaches`).
-/
import Ambient.Proofs.Source.Parts

namespace Ambient.Source

open Text (lines)

/-! ## Going up -/

/-- The parts that do not part a doc comment from what follows them. -/
def Part.isSkipped : Part → Bool
  | .note | .comment false => true
  | .code | .comment true | .item _ => false

/-- Going up from line `k`, over parts that are skipped, the first other thing is the doc comment
`region`. -/
inductive DocAbove (ls : List Text) : Nat → Span → Prop where
  | here {region : Span} (outside : Outside ls region.first)
      (spans : Part.Spans ls (.comment true) region) : DocAbove ls (region.last + 1) region
  | skip {part : Part} {span region : Span} (outside : Outside ls span.first)
      (spans : part.Spans ls span) (skipped : part.isSkipped = true)
      (above : DocAbove ls span.first region) : DocAbove ls (span.last + 1) region

section DocAbove

variable {ls : List Text} {k : Nat} {region region' : Span}

theorem DocAbove.outside_region (h : DocAbove ls k region) : Outside ls region.first := by
  induction h with
  | here hout _ => exact hout
  | skip _ _ _ _ ih => exact ih

theorem DocAbove.spans_region (h : DocAbove ls k region) :
    Part.Spans ls (.comment true) region := by
  induction h with
  | here _ hspans => exact hspans
  | skip _ _ _ _ ih => exact ih

theorem DocAbove.last_lt (h : DocAbove ls k region) : region.last < k := by
  induction h with
  | here => exact Nat.lt_succ_self _
  | skip _ hspans _ _ ih =>
    have := hspans.first_le_last
    omega

/-- Only parts that are skipped stand between a doc comment and the line it is above. -/
theorem DocAbove.isSkipped_of_between (h : DocAbove ls k region) {part : Part} {span : Span}
    (hout : Outside ls span.first) (hspans : part.Spans ls span) (hafter : region.last < span.first)
    (hbefore : span.first < k) : part.isSkipped = true := by
  induction h with
  | here => omega
  | @skip part' span' region hout' hspans' hskipped habove ih =>
    rcases hspans.disjoint hspans' hout hout' with ⟨rfl, -⟩ | hlt | hlt
    · exact hskipped
    · have := hspans.first_le_last
      exact ih hafter (by omega)
    · omega

theorem DocAbove.unique (h : DocAbove ls k region) (h' : DocAbove ls k region') :
    region = region' := by
  have hle := h.spans_region.first_le_last
  have hle' := h'.spans_region.first_le_last
  have hlast := h.last_lt
  have hlast' := h'.last_lt
  -- the later of two doc comments would stand between the earlier one and line `k`
  rcases h.spans_region.disjoint h'.spans_region h.outside_region h'.outside_region with
    ⟨-, heq⟩ | hlt | hlt
  · exact heq
  · have hskipped := h.isSkipped_of_between h'.outside_region h'.spans_region hlt (by omega)
    cases hskipped
  · have hskipped := h'.isSkipped_of_between h.outside_region h.spans_region hlt (by omega)
    cases hskipped

/-- **What waits before a line outside** is the doc comment above it. -/
theorem pending_eq_some_iff (hout : Outside ls k) {c : Text} :
    (Scanner.before {} ls k).pending = some c ↔
      ∃ region, DocAbove ls k region ∧ c = region.joined ls := by
  constructor
  · intro hpending
    induction hout with
    | start => cases ls <;> cases hpending
    | @behind part span hout hspans ih =>
      rw [hspans.before hout.phaseAt_eq] at hpending
      match part, hspans, hpending with
      | .note, hspans, hpending | .comment false, hspans, hpending =>
        obtain ⟨region, habove, hc⟩ := ih hpending
        exact ⟨region, .skip hout hspans rfl habove, hc⟩
      | .comment true, hspans, hpending =>
        exact ⟨span, .here hout hspans, (Option.some.inj hpending).symm⟩
      | .code, _, hpending | .item _, _, hpending => cases hpending
  · rintro ⟨region, habove, rfl⟩
    clear hout
    induction habove with
    | here hout hspans =>
      rw [hspans.before hout.phaseAt_eq]
      rfl
    | @skip part span region hout hspans hskipped _ ih =>
      rw [hspans.before hout.phaseAt_eq]
      match part, hskipped with
      | .note, _ | .comment false, _ => exact ih

end DocAbove

/-! ## What blocks keep -/

section Blocks

variable {ls : List Text} {k : Nat} {s : Scanner} {rest : List Text} {p : Span × Item}

theorem pending_of_block {b : OpenBlock} (hk : k < ls.length) (h : phaseAt ls (k + 1) = .block b) :
    (Scanner.before {} ls (k + 1)).pending = (Scanner.before {} ls k).pending := by
  rw [phaseAt, before_lineAt hk] at h
  rw [before_lineAt hk]
  cases htaking : (Scanner.before {} ls k).taking? (lineAt ls k) with
  | none => exact absurd h ((Scanner.step_of_not_taking htaking).2 b)
  | some b₀ =>
    rw [Scanner.step_of_taking htaking] at h ⊢
    by_cases hon : (b₀.push (lineAt ls k)).goesOn (lineAt ls k) ls[k + 1]? = true
    · rw [Scanner.extend_of_goesOn hon]
    · rw [Scanner.extend_of_not_goesOn hon] at h
      cases h

theorem pending_of_inside {i : Nat} (hik : i ≤ k) (hk : k ≤ ls.length)
    (h : ∀ j, i < j → j ≤ k → ∃ b, phaseAt ls j = .block b) :
    (Scanner.before {} ls k).pending = (Scanner.before {} ls i).pending := by
  induction hik with
  | refl => rfl
  | @step k hik ih =>
    have hik : i ≤ k := hik
    obtain ⟨b, hb⟩ := h (k + 1) (by omega) (Nat.le_refl _)
    rw [pending_of_block hk hb]
    exact ih (by omega) fun j hij hj => h j hij (by omega)

/-- The item of a span is made by the state before some line, up to which the block is open. -/
theorem StandsAt.exists_item (h : StandsAt ls k s rest) (hp : p ∈ s.located k rest) :
    ∃ j b, p.1.first ≤ j ∧ j ≤ ls.length ∧ p.2 = (Scanner.before {} ls j).item b ∧
      ∀ i, p.1.first < i → i ≤ j → ∃ b, phaseAt ls i = .block b := by
  induction rest generalizing k s with
  | nil =>
    cases hphase : s.phase with
    | idle => simp [Scanner.located, hphase] at hp
    | comment doc => simp [Scanner.located, hphase] at hp
    | block b =>
      simp only [Scanner.located, hphase, List.mem_singleton] at hp
      obtain rfl := h.eq_length
      have hopen : phaseAt ls ls.length = .block b := by rw [phaseAt, h.state, hphase]
      obtain ⟨hheld, -⟩ := held_of_phaseAt (Nat.le_refl _) hopen
      subst hp
      exact ⟨ls.length, b, hheld.start_le, Nat.le_refl _, by rw [h.state], hheld.inside⟩
  | cons line rest ih =>
    cases h.lineCase with
    | skipped s' htaking hidle hlocated hnext =>
      rw [hlocated] at hp
      exact ih hnext hp
    | goesOn b htaking hlocated hnext =>
      rw [hlocated] at hp
      exact ih hnext hp
    | ends b htaking hoff hlocated hnext =>
      rw [hlocated] at hp
      rcases List.mem_cons.1 hp with rfl | hp
      · have hheld := h.held_of_taking htaking
        exact ⟨k, b.push line, hheld.start_le, h.le, by rw [h.state], hheld.inside⟩
      · exact ih hnext hp

/-- A declaration takes what waited before its first line. -/
theorem comment_of_mem_located {source : Text} (hp : p ∈ located source) {b : Block}
    (hb : p.2 = .declaration b) :
    b.comment = (Scanner.before {} (lines source) p.1.first).pending := by
  obtain ⟨j, o, hfirst, hj, hitem, hinside⟩ := (standsAt_zero (lines source)).exists_item hp
  rw [← pending_of_inside hfirst hj hinside]
  exact (Scanner.of_item_declaration (hb.symm.trans hitem)).1

theorem outside_of_mem_located {source : Text} (hp : p ∈ located source) :
    Outside (lines source) p.1.first := by
  have hdescribes := ((standsAt_zero (lines source)).describes hp).2
  have hle := hdescribes.first_le_last
  have hlt := hdescribes.last_lt
  exact (outside_iff (by omega)).2 hdescribes.idle

/-- The span of an item before some line is a part. -/
theorem spans_of_mem_located {source : Text} (hp : p ∈ located source)
    (hlast : p.1.last + 1 < (lines source).length) :
    Part.Spans (lines source) (.item p.2.opening) p.1 := by
  have h := ((standsAt_zero (lines source)).describes hp).2
  have hends : ¬ GoesOn (lines source) p.1.first p.1.last :=
    h.closes.resolve_right (Nat.ne_of_lt hlast)
  exact .item h.first_le_last h.last_lt (Bool.eq_false_iff.2 h.not_comment) h.opening h.goesOn hends

theorem eq_or_lt_of_mem_located {source : Text} {q : Span × Item} (hp : p ∈ located source)
    (hq : q ∈ located source) : p = q ∨ p.1.last < q.1.first ∨ q.1.last < p.1.first := by
  have hpairwise : (located source).Pairwise fun p q => p.1.last < q.1.first :=
    (standsAt_zero (lines source)).pairwise
  exact List.Pairwise.forall_of_forall_of_flip
    (R := fun p q : Span × Item => p = q ∨ p.1.last < q.1.first ∨ q.1.last < p.1.first)
    (fun p _ => .inl rfl) (hpairwise.imp fun h => .inr (.inl h))
    (hpairwise.imp fun h => .inr (.inr h)) hp hq

end Blocks

/-! ## Doc comments and declarations -/

/-- Which doc comments a scan attaches to which declarations. -/
structure Attaches (source : Text) : Prop where
  items_eq : (located source).map Prod.snd = scan source
  describes : ∀ p ∈ located source, p.1.Describes (lines source) p.2
  outside_iff : ∀ k ≤ (lines source).length,
    (Outside (lines source) k ↔ phaseAt (lines source) k = .idle)
  /-- A declaration has the doc comment above its first line, with all its lines, or none. -/
  comment_iff : ∀ p ∈ located source, ∀ b, p.2 = .declaration b → ∀ c,
    (b.comment = some c ↔
      ∃ region, DocAbove (lines source) p.1.first region ∧ c = region.joined (lines source))
  unique : ∀ k region region', DocAbove (lines source) k region →
    DocAbove (lines source) k region' → region = region'
  /-- No two items have the same doc comment above them. -/
  one_item : ∀ p ∈ located source, ∀ q ∈ located source, ∀ region,
    DocAbove (lines source) p.1.first region → DocAbove (lines source) q.1.first region → p = q
  /-- No item stands between a doc comment and the item it is above. -/
  no_item : ∀ p ∈ located source, ∀ region, DocAbove (lines source) p.1.first region →
    ∀ q ∈ located source, q.1.last < region.first ∨ p.1.first ≤ q.1.first
  /-- Nor does a line of code, or a later doc comment. -/
  between : ∀ k region, DocAbove (lines source) k region → ∀ part span,
    Outside (lines source) span.first → Part.Spans (lines source) part span →
    region.last < span.first → span.first < k → part = .note ∨ part = .comment false

section Attaches

variable {source : Text} {p q : Span × Item} {region : Span}

theorem no_item_between (hp : p ∈ located source)
    (h : DocAbove (lines source) p.1.first region) (hq : q ∈ located source) :
    q.1.last < region.first ∨ p.1.first ≤ q.1.first := by
  have hdescribes := ((standsAt_zero (lines source)).describes hp).2
  have hlast := hdescribes.last_lt
  have hfirst := hdescribes.first_le_last
  have hregion := h.spans_region.first_le_last
  rcases eq_or_lt_of_mem_located hp hq with rfl | hlt | hlt
  · exact .inr (Nat.le_refl _)
  · exact .inr (by omega)
  · have hspans := spans_of_mem_located hq (by omega)
    have hout := outside_of_mem_located hq
    have hle := hspans.first_le_last
    rcases hspans.disjoint h.spans_region hout h.outside_region with ⟨hpart, -⟩ | hbefore | hafter
    · cases hpart
    · exact .inl hbefore
    · cases h.isSkipped_of_between hout hspans hafter (by omega)

theorem eq_of_docAbove (hp : p ∈ located source) (hq : q ∈ located source)
    (h : DocAbove (lines source) p.1.first region)
    (h' : DocAbove (lines source) q.1.first region) : p = q := by
  have hregion := h.spans_region.first_le_last
  have hp_last := h.last_lt
  have hq_last := h'.last_lt
  have hp_le := ((standsAt_zero (lines source)).describes hp).2.first_le_last
  have hq_le := ((standsAt_zero (lines source)).describes hq).2.first_le_last
  have hpq := no_item_between hp h hq
  have hqp := no_item_between hq h' hp
  rcases eq_or_lt_of_mem_located hp hq with heq | hlt | hlt
  · exact heq
  · omega
  · omega

end Attaches

/-- **A doc comment belongs to the declaration that it immediately precedes**, and to no other. -/
theorem scan_attaches (source : Text) : Attaches source where
  items_eq := Scanner.map_snd_located {} 0 (lines source)
  describes p hp := ((standsAt_zero (lines source)).describes hp).2
  outside_iff k hk := outside_iff hk
  comment_iff p hp b hb c := by
    rw [comment_of_mem_located hp hb]
    exact pending_eq_some_iff (outside_of_mem_located hp)
  unique k region region' h h' := h.unique h'
  one_item p hp q hq region h h' := eq_of_docAbove hp hq h h'
  no_item p hp region h q hq := no_item_between hp h hq
  between k region h part span hout hspans hafter hbefore := by
    have hskipped := h.isSkipped_of_between hout hspans hafter hbefore
    match part, hskipped with
    | .note, _ => exact .inl rfl
    | .comment false, _ => exact .inr rfl

end Ambient.Source
