/-
When two sources have the same declaration file.

The extensions `.ts` and `.tsx` both become `.d.ts`, so two names that differ there alone become one
(`Twins`). Two sources of a run have the same declaration file exactly when they land at the same
place, up to twins (`same_output_iff_clash`). Under a root that is not empty, for sources that do not
climb out of it, that is when they are the same file or twins in one directory.
-/
import Ambient.Proofs.Path.Declared
import Ambient.Store

namespace Ambient.Path

/-! ## Names -/

/-- Names that differ in `.ts` against `.tsx` alone. -/
def Twins (a b : Text) : Prop :=
  ∃ stem : Text, a = stem ++ ".ts".toList ∧ b = stem ++ ".tsx".toList ∨
    a = stem ++ ".tsx".toList ∧ b = stem ++ ".ts".toList

/-- Components that are equal, but for twins at the end. -/
def Clash (as bs : List Component) : Prop :=
  as = bs ∨ ∃ dir a b, as = dir ++ [.name a] ∧ bs = dir ++ [.name b] ∧ Twins a b

theorem Clash.length_eq {as bs : List Component} (h : Clash as bs) : as.length = bs.length := by
  rcases h with rfl | ⟨dir, a, b, rfl, rfl, -⟩
  · rfl
  · simp

/-- A clash does not depend on what both stand behind. -/
theorem clash_append_left {cs as bs : List Component} : Clash (cs ++ as) (cs ++ bs) ↔ Clash as bs := by
  constructor
  · rintro (h | ⟨dir, a, b, ha, hb, htwins⟩)
    · exact .inl (List.append_cancel_left h)
    · rcases List.eq_nil_or_concat as with rfl | ⟨as, x, rfl⟩
      · have hlen := congrArg List.length ha
        have hlen' := congrArg List.length hb
        simp only [List.append_nil, List.length_append, List.length_singleton] at hlen hlen'
        exact .inl (List.length_eq_zero_iff.1 (by omega)).symm
      · rw [List.concat_eq_append, ← List.append_assoc] at ha
        obtain ⟨rfl, hx⟩ := List.append_inj' ha rfl
        rw [List.append_assoc] at hb
        exact .inr ⟨as, a, b, by simp [hx], List.append_cancel_left hb, htwins⟩
  · rintro (rfl | ⟨dir, a, b, rfl, rfl, htwins⟩)
    · exact .inl rfl
    · exact .inr ⟨cs ++ dir, a, b, by simp, by simp, htwins⟩

/-- No ending of a declaration file ends another. -/
theorem append_ending_inj {s₁ s₂ e₁ e₂ : Text} (h₁ : e₁ ∈ declarationEndings)
    (h₂ : e₂ ∈ declarationEndings) (h : s₁ ++ e₁ = s₂ ++ e₂) : s₁ = s₂ ∧ e₁ = e₂ := by
  have hrev := congrArg List.reverse h
  simp only [List.reverse_append] at hrev
  simp only [declarationEndings, List.mem_cons, List.not_mem_nil, or_false] at h₁ h₂
  rcases h₁ with rfl | rfl | rfl <;> rcases h₂ with rfl | rfl | rfl <;> simp_all

/-- Two extensions of sources give the same ending when they are equal, or `ts` and `tsx`. -/
theorem declarationEnding_inj {e₁ e₂ : Text} (h₁ : e₁ ∈ sourceExtensions)
    (h₂ : e₂ ∈ sourceExtensions) : declarationEnding e₁ = declarationEnding e₂ ↔
      e₁ = e₂ ∨ e₁ = "ts".toList ∧ e₂ = "tsx".toList ∨ e₁ = "tsx".toList ∧ e₂ = "ts".toList := by
  have hall : ∀ e₁ ∈ sourceExtensions, ∀ e₂ ∈ sourceExtensions,
      (declarationEnding e₁ = declarationEnding e₂ ↔
        e₁ = e₂ ∨ e₁ = "ts".toList ∧ e₂ = "tsx".toList ∨ e₁ = "tsx".toList ∧ e₂ = "ts".toList) := by
    decide
  exact hall e₁ h₁ e₂ h₂

/-- A name of a source: a stem and one of the extensions of sources. -/
structure IsSourceName (t stem extension : Text) : Prop where
  split : splitLastDot? t = some (stem, extension)
  mem : extension ∈ sourceExtensions

theorem declarationName_eq_iff {a b s₁ s₂ e₁ e₂ : Text} (ha : IsSourceName a s₁ e₁)
    (hb : IsSourceName b s₂ e₂) : declarationName a = declarationName b ↔ a = b ∨ Twins a b := by
  obtain ⟨rfl, hdot₁⟩ := splitLastDot?_eq_some.1 ha.split
  obtain ⟨rfl, hdot₂⟩ := splitLastDot?_eq_some.1 hb.split
  rw [declarationName_of_split ha.split, declarationName_of_split hb.split]
  constructor
  · intro h
    obtain ⟨rfl, hend⟩ := append_ending_inj (declarationEnding_mem _) (declarationEnding_mem _) h
    rcases (declarationEnding_inj ha.mem hb.mem).1 hend with rfl | ⟨rfl, rfl⟩ | ⟨rfl, rfl⟩
    · exact .inl rfl
    · exact .inr ⟨s₁, .inl ⟨rfl, rfl⟩⟩
    · exact .inr ⟨s₁, .inr ⟨rfl, rfl⟩⟩
  · have hparts : ∀ stem e : Text, '.' ∉ e → ∀ s f : Text, '.' ∉ f →
        s ++ '.' :: f = stem ++ '.' :: e → s = stem ∧ f = e := by
      intro stem e he s f hf heq
      have h₁ := splitLastDot?_eq_some.2 ⟨heq, he⟩
      have h₂ := splitLastDot?_eq_some.2 ⟨(rfl : s ++ '.' :: f = _), hf⟩
      rw [h₁] at h₂
      simp only [Option.some.injEq, Prod.mk.injEq] at h₂
      exact ⟨h₂.1.symm, h₂.2.symm⟩
    rintro (h | ⟨stem, ⟨ha', hb'⟩ | ⟨ha', hb'⟩⟩)
    · obtain ⟨rfl, rfl⟩ := hparts _ _ hdot₂ _ _ hdot₁ h
      rfl
    · obtain ⟨rfl, rfl⟩ := hparts stem "ts".toList (by decide) _ _ hdot₁ ha'
      obtain ⟨rfl, rfl⟩ := hparts s₁ "tsx".toList (by decide) _ _ hdot₂ hb'
      rfl
    · obtain ⟨rfl, rfl⟩ := hparts stem "tsx".toList (by decide) _ _ hdot₁ ha'
      obtain ⟨rfl, rfl⟩ := hparts s₁ "ts".toList (by decide) _ _ hdot₂ hb'
      rfl

theorem declared_eq_iff {dir₁ dir₂ : List Component} {a b s₁ s₂ e₁ e₂ : Text}
    (ha : IsSourceName a s₁ e₁) (hb : IsSourceName b s₂ e₂) :
    declared (dir₁ ++ [.name a]) = declared (dir₂ ++ [.name b]) ↔
      Clash (dir₁ ++ [.name a]) (dir₂ ++ [.name b]) := by
  rw [declared_concat, declared_concat]
  constructor
  · intro h
    obtain ⟨rfl, hname⟩ := List.append_inj' h rfl
    simp only [List.cons.injEq, Component.name.injEq, and_true] at hname
    rcases (declarationName_eq_iff ha hb).1 hname with rfl | htwins
    · exact .inl rfl
    · exact .inr ⟨dir₁, a, b, rfl, rfl, htwins⟩
  · rintro (h | ⟨dir, a', b', ha', hb', htwins⟩)
    · obtain ⟨rfl, hname⟩ := List.append_inj' h rfl
      simp only [List.cons.injEq, Component.name.injEq, and_true] at hname
      rw [hname]
    · obtain ⟨rfl, hname⟩ := List.append_inj' ha' rfl
      obtain ⟨rfl, hname'⟩ := List.append_inj' hb' rfl
      simp only [List.cons.injEq, Component.name.injEq, and_true] at hname hname'
      subst hname hname'
      rw [(declarationName_eq_iff ha hb).2 (.inr htwins)]

/-! ## Places -/

theorem mem_behind {root p : Path} {c : Component} (hroot : root.components ≠ [])
    (h : c ∈ behind root p) : c ≠ .root ∧ c ≠ .current := by
  refine mem_tail_components (p := p) ?_
  have hpos := List.length_pos_iff.2 hroot
  rw [behind, show root.components.length = (root.components.length - 1) + 1 by omega,
    ← List.drop_tail] at h
  exact List.mem_of_mem_drop h

/-- Behind a root that is not empty, what does not climb stays as it is. -/
theorem landing_of_stay {out : List Component} {root p : Path} (hroot : root.components ≠ [])
    (hstay : (behind root p).head? ≠ some .parent) : landing out (behind root p) = out ++ behind root p := by
  have hmem := fun c => mem_behind (p := p) (c := c) hroot
  cases hcs : behind root p with
  | nil => rfl
  | cons c cs =>
    rw [hcs] at hmem hstay
    cases c with
    | root => exact absurd rfl (hmem .root (by simp)).1
    | current => exact absurd rfl (hmem .current (by simp)).2
    | parent => simp at hstay
    | name => rfl

theorem getLast?_landing (out : List Component) {cs : List Component} {t : Text}
    (h : cs.getLast? = some (.name t)) :
    (landing out cs).getLast? = some (.name t) := by
  unfold landing
  split
  · exact h
  · simp [h]
  · rename_i cs
    cases cs with
    | nil => simp at h
    | cons c cs =>
      simp only [List.getLast?_cons_cons] at h
      split <;> simp [List.getLast?_append, h]
  · simp [List.getLast?_append, h]

theorem length_declared (cs : List Component) : (declared cs).length = cs.length := by
  unfold declared
  split
  · rename_i t h
    obtain ⟨dir, rfl⟩ := List.getLast?_eq_some_iff.1 h
    simp
  · rfl

theorem declared_eq_iff_of_length_ne {as bs : List Component} (h : as.length ≠ bs.length) :
    declared as = declared bs ↔ Clash as bs := by
  refine ⟨fun heq => absurd ?_ h, fun hclash => absurd hclash.length_eq h⟩
  rw [← length_declared as, heq, length_declared]

theorem length_lt_landing (out : List Component) {root p : Path} (hroot : root.components ≠ [])
    (hne : behind root p ≠ []) : out.length < (landing out (behind root p)).length := by
  by_cases hclimb : (behind root p).head? = some .parent
  · cases hcs : behind root p with
    | nil => exact absurd hcs hne
    | cons c cs =>
      simp only [hcs, List.head?_cons, Option.some.injEq] at hclimb
      subst hclimb
      have hlast := List.getLast?_eq_some_getLast (List.cons_ne_nil Component.parent cs)
      simp [landing, hlast]
  · rw [landing_of_stay hroot hclimb, List.length_append]
    have := List.length_pos_iff.2 hne
    omega

/-! ## Sources of a run -/

/-- A source that has a place under the root. -/
structure IsPlaced (root p : Path) : Prop where
  source : p.isSource = true
  under : ∃ place, p.stripBase? root = some place

theorem IsPlaced.components {root p : Path} (h : IsPlaced root p) :
    p.components = root.components ++ behind root p := by
  obtain ⟨place, hplace⟩ := h.under
  rw [behind, components_stripBase? hplace, List.drop_left]

theorem IsPlaced.components_output {root outdir p : Path} (h : IsPlaced root p) :
    (output root outdir p).components = declared (landing outdir.components (behind root p)) := by
  obtain ⟨place, hplace⟩ := h.under
  obtain ⟨t, -, -, hlast, -⟩ := isSource_iff.1 h.source
  exact components_output_of_place hplace (fileName?_eq_some.2 hlast)

/-- A placed source lands at a name of a source, unless it is the root itself. -/
theorem IsPlaced.landing {root p : Path} (h : IsPlaced root p) (out : List Component) :
    behind root p = [] ∧ root.components ≠ [] ∨
      ∃ dir t stem extension, Path.landing out (behind root p) = dir ++ [.name t] ∧
        behind root p ≠ [] ∧ IsSourceName t stem extension := by
  obtain ⟨t, stem, extension, hlast, hsplit, -, hmem, -⟩ := isSource_iff.1 h.source
  rw [h.components] at hlast
  by_cases hne : behind root p = []
  · refine .inl ⟨hne, ?_⟩
    intro hroot
    simp [hne, hroot] at hlast
  · right
    have hbehind : (behind root p).getLast? = some (.name t) := by
      rw [← hlast, List.getLast?_append, List.getLast?_eq_some_getLast hne, Option.some_or]
    obtain ⟨dir, hdir⟩ := List.getLast?_eq_some_iff.1 (getLast?_landing out hbehind)
    exact ⟨dir, t, stem, extension, hdir, hne, hsplit, hmem⟩

theorem IsPlaced.same_output_iff {root outdir p q : Path} (hp : IsPlaced root p)
    (hq : IsPlaced root q) : (output root outdir p).same (output root outdir q) = true ↔
      Clash (Path.landing outdir.components (behind root p))
        (Path.landing outdir.components (behind root q)) := by
  rw [same_iff, hp.components_output, hq.components_output]
  generalize outdir.components = out
  -- a source that is the root itself lands higher up than any other, so the lengths tell them apart
  rcases hp.landing out with ⟨hp₀, hroot⟩ | ⟨dir₁, a, s₁, e₁, hp₁, hpne, ha⟩
  · rcases hq.landing out with ⟨hq₀, -⟩ | ⟨dir₂, b, s₂, e₂, hq₁, hqne, hb⟩
    · rw [hp₀, hq₀]
      exact ⟨fun _ => .inl rfl, fun _ => rfl⟩
    · refine declared_eq_iff_of_length_ne (Nat.ne_of_lt ?_)
      rw [hp₀]
      simpa [Path.landing] using length_lt_landing out hroot hqne
  · rcases hq.landing out with ⟨hq₀, hroot⟩ | ⟨dir₂, b, s₂, e₂, hq₁, -, hb⟩
    · refine declared_eq_iff_of_length_ne (Nat.ne_of_gt ?_)
      rw [hq₀]
      simpa [Path.landing] using length_lt_landing out hroot hpne
    · rw [hp₁, hq₁]
      exact declared_eq_iff ha hb

/-- In the usual case the place plays no role: the same file, or twins in one directory. -/
theorem IsPlaced.same_output_iff_of_stay {root outdir p q : Path} (hp : IsPlaced root p)
    (hq : IsPlaced root q) (hroot : root.components ≠ [])
    (hpstay : (behind root p).head? ≠ some .parent)
    (hqstay : (behind root q).head? ≠ some .parent) :
    (output root outdir p).same (output root outdir q) = true ↔ Clash p.components q.components := by
  rw [hp.same_output_iff hq, landing_of_stay hroot hpstay, landing_of_stay hroot hqstay,
    clash_append_left, hp.components, hq.components, clash_append_left]

theorem isPlaced_of_mem_sources {store : Store} {root : Path} {entrypoints : List Text}
    {sources : List Path} (h : store.sources root entrypoints = .ok sources) {p : Path}
    (hp : p ∈ sources) : IsPlaced root p := by
  simp only [Store.sources, bind, Except.bind] at h
  split at h
  · cases h
  · rename_i globs hglobs
    cases h
    simp only [List.mem_filter, isSelected, Bool.and_eq_true, Option.any_eq_true] at hp
    obtain ⟨-, hsource, place, hplace, -⟩ := hp
    exact ⟨hsource, place, hplace⟩

/-- **When two sources of a run have the same declaration file**: exactly when they land at the same
place, up to twins. Where the root is not empty and neither climbs out of it, exactly when they are
the same file or twins in one directory. -/
theorem same_output_iff_clash {store : Store} {root outdir : Path} {entrypoints : List Text}
    {sources : List Path} (h : store.sources root entrypoints = .ok sources) {p q : Path}
    (hp : p ∈ sources) (hq : q ∈ sources) :
    ((output root outdir p).same (output root outdir q) = true ↔
      Clash (landing outdir.components (behind root p)) (landing outdir.components (behind root q))) ∧
    (root.components ≠ [] → (behind root p).head? ≠ some .parent →
      (behind root q).head? ≠ some .parent →
      ((output root outdir p).same (output root outdir q) = true ↔
        Clash p.components q.components)) := by
  have hp := isPlaced_of_mem_sources h hp
  have hq := isPlaced_of_mem_sources h hq
  exact ⟨hp.same_output_iff hq, hp.same_output_iff_of_stay hq⟩

/-- A source and its twin are two sources of one run, and have one declaration file. -/
theorem twins_same_output :
    let store : Store := Store.insert (Store.insert {} "./src/a.ts" []) "./src/a.tsx" []
    let p : Path := "./src/a.ts"
    let q : Path := "./src/a.tsx"
    store.sources "./src" ["**/*"] = .ok [p, q] ∧ p.same q = false ∧
      (output "./src" "./dist/types" p).same (output "./src" "./dist/types" q) = true := by
  intro store p q
  have hsources : store.sources "./src" ["**/*"] = .ok [p, q] := by with_unfolding_all rfl
  refine ⟨hsources, by decide, ?_⟩
  have hiff : (output "./src" "./dist/types" p).same (output "./src" "./dist/types" q) = true ↔
      Clash p.components q.components :=
    (same_output_iff_clash hsources (by simp) (by simp)).2 (by decide) (by decide) (by decide)
  exact hiff.2 (.inr ⟨[.current, .name "src".toList], "a.ts".toList, "a.tsx".toList, by decide,
    by decide, "a".toList, .inl ⟨by decide, by decide⟩⟩)

end Ambient.Path
