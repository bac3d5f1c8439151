/-
Normal paths and the prefixes among them.

The components that `resolve` leaves are those of a path written without dots (`IsPlain`), so a normal
path has just these components (`components_normalize`). Names behind other components pass through
`resolve` as they are (`resolve_append_names`): where a path continues another by names, so does its
absolute path continue the other's, by the same names (`components_absolute_append`). So a prefix
between two paths as they are spelled is also one between their absolute paths.
-/
import Ambient.Proofs.Path.Declared

namespace Ambient.Path

/-! ## The path that names components -/

/-- What a path written without dots has behind its root: names and climbs. -/
structure IsStep (c : Component) : Prop where
  segment : segment? false c.text = some c
  noSlash : '/' ∉ c.text

/-- The components of a path written without dots. -/
def IsPlain (cs : List Component) : Prop :=
  ∃ steps, (∀ c ∈ steps, IsStep c) ∧ (cs = steps ∨ cs = .root :: steps)

theorem IsStep.of_mem_components {p : Path} {c : Component} (h : c ∈ p.components)
    (hroot : c ≠ .root) (hcurrent : c ≠ .current) : IsStep c := by
  cases c with
  | root => exact absurd rfl hroot
  | current => exact absurd rfl hcurrent
  | parent => exact ⟨rfl, by decide⟩
  | name t =>
    have hname := IsName.of_mem_components h
    refine ⟨?_, hname.noSlash⟩
    rw [Component.text, ← segment?_true, hname.segment]
    rintro rfl
    simpa [segment?] using hname.segment

theorem IsStep.ne_root {c : Component} (h : IsStep c) : c ≠ .root := by
  rintro rfl
  exact h.noSlash (by decide)

section Steps

variable {steps : List Component} (h : ∀ c ∈ steps, IsStep c)
include h

theorem filterMap_text_steps : (steps.map Component.text).filterMap (segment? false) = steps := by
  induction steps with
  | nil => rfl
  | cons c cs ih =>
    rw [List.map_cons, List.filterMap_cons_some (h c (by simp)).segment,
      ih fun d hd => h d (by simp [hd])]

theorem splitOn_text_steps (hne : steps ≠ []) :
    (['/'].intercalate (steps.map Component.text)).splitOn '/' = steps.map Component.text := by
  refine List.splitOn_intercalate '/' ?_ (by simpa using hne)
  intro t ht
  obtain ⟨c, hc, rfl⟩ := List.mem_map.1 ht
  exact (h c hc).noSlash

theorem components_ofComponents_root : (ofComponents (.root :: steps)).components = .root :: steps := by
  have hsplit : ∀ t : Text, ('/' :: t).splitOn '/' = [] :: t.splitOn '/' :=
    List.splitOn_append_cons_self []
  rw [ofComponents, components_eq, isAbsolute]
  simp only [hsplit, List.head?_cons, BEq.rfl, if_true, List.singleton_append, List.cons.injEq,
    true_and]
  by_cases hne : steps = []
  · subst hne
    rfl
  · rw [splitOn_text_steps h hne]
    exact filterMap_text_steps h

theorem components_ofComponents_steps : (ofComponents steps).components = steps := by
  cases steps with
  | nil => rfl
  | cons c cs =>
    have hplain : ofComponents (c :: cs) = ⟨['/'].intercalate ((c :: cs).map Component.text)⟩ := by
      cases c with
      | root => exact absurd rfl (h .root (by simp)).ne_root
      | _ => rfl
    have hfirst := h c (by simp)
    have hrel : (ofComponents (c :: cs)).isAbsolute = false := by
      obtain ⟨d, t, ht⟩ := List.exists_cons_of_ne_nil (ne_nil_of_segment? hfirst.segment)
      have hslash := hfirst.noSlash
      simp only [ht, List.mem_cons, not_or] at hslash
      simpa [hplain, isAbsolute, ht] using Ne.symm hslash.1
    rw [components_of_relative hrel, hplain, splitOn_text_steps h (by simp), List.map_cons, segments,
      segment?_true_of_some hfirst.segment, filterMap_text_steps fun d hd => h d (by simp [hd])]
    rfl

end Steps

theorem components_ofComponents {cs : List Component} (h : IsPlain cs) :
    (ofComponents cs).components = cs := by
  obtain ⟨steps, hsteps, rfl | rfl⟩ := h
  · exact components_ofComponents_steps hsteps
  · exact components_ofComponents_root hsteps

/-! ## Normal paths -/

theorem IsPlain.concat {cs : List Component} {c : Component} (h : IsPlain cs) (hc : IsStep c) :
    IsPlain (cs ++ [c]) := by
  obtain ⟨steps, hsteps, hcs⟩ := h
  refine ⟨steps ++ [c], ?_, ?_⟩
  · simp only [List.mem_append, List.mem_singleton]
    rintro d (hd | rfl)
    · exact hsteps d hd
    · exact hc
  · rcases hcs with rfl | rfl <;> simp

theorem IsPlain.of_concat {cs : List Component} {c : Component} (h : IsPlain (cs ++ [c])) :
    IsPlain cs := by
  obtain ⟨steps, hsteps, heq | heq⟩ := h
  · exact ⟨cs, fun d hd => hsteps d (by simp [← heq, hd]), .inl rfl⟩
  · cases cs with
    | nil => exact ⟨[], by simp, .inl rfl⟩
    | cons d cs =>
      obtain ⟨rfl, rfl⟩ := List.cons.inj heq
      exact ⟨cs, fun d hd => hsteps d (by simp [hd]), .inr rfl⟩

theorem isPlain_push {stack : List Component} {c : Component} (h : IsPlain stack.reverse)
    (hc : c = .current ∨ IsStep c) : IsPlain (push stack c).reverse := by
  unfold push
  split
  · exact h
  · rw [List.reverse_cons] at h
    exact h.of_concat
  · exact h
  · rename_i hcurrent _ _
    rw [List.reverse_cons]
    exact h.concat (hc.resolve_left fun he => hcurrent he)

theorem isPlain_foldl_push {cs stack : List Component} (h : IsPlain stack.reverse)
    (hcs : ∀ c ∈ cs, c = .current ∨ IsStep c) : IsPlain (cs.foldl push stack).reverse := by
  induction cs generalizing stack with
  | nil => exact h
  | cons c cs ih =>
    exact ih (isPlain_push h (hcs c (by simp))) fun d hd => hcs d (by simp [hd])

theorem isPlain_resolve (p : Path) : IsPlain (resolve p.components) := by
  have hempty : IsPlain [] := ⟨[], by simp, .inl rfl⟩
  cases hp : p.components with
  | nil => exact hempty
  | cons c cs =>
    have hcs : ∀ d ∈ cs, d = .current ∨ IsStep d := by
      intro d hd
      obtain ⟨hroot, hcurrent⟩ := mem_tail_components (p := p) (c := d) (by simpa [hp] using hd)
      exact .inr (.of_mem_components (p := p) (by simp [hp, hd]) hroot hcurrent)
    rw [resolve, List.foldl_cons]
    refine isPlain_foldl_push ?_ hcs
    by_cases hroot : c = .root
    · subst hroot
      exact ⟨[], by simp, .inr rfl⟩
    · refine isPlain_push hempty ?_
      by_cases hcurrent : c = .current
      · exact .inl hcurrent
      · exact .inr (.of_mem_components (p := p) (by simp [hp]) hroot hcurrent)

theorem components_normalize (p : Path) : (normalize p).components = resolve p.components :=
  components_ofComponents (isPlain_resolve p)

/-! ## Names behind other components -/

theorem foldl_push_names {names : List Component} (h : ∀ c ∈ names, c.isName = true)
    (stack : List Component) : names.foldl push stack = names.reverse ++ stack := by
  induction names generalizing stack with
  | nil => rfl
  | cons c names ih =>
    have hpush : push stack c = c :: stack := by
      have hname := h c (by simp)
      cases c <;> simp_all [push, Component.isName]
    rw [List.foldl_cons, hpush, ih fun d hd => h d (by simp [hd])]
    simp

theorem resolve_append_names (cs : List Component) {names : List Component}
    (h : ∀ c ∈ names, c.isName = true) : resolve (cs ++ names) = resolve cs ++ names := by
  rw [resolve, List.foldl_append, foldl_push_names h, List.reverse_append, List.reverse_reverse]
  rfl

/-- Where a path continues another by names, so does its absolute path. -/
theorem components_absolute_append (cwd : Path) {p q : Path} {names : List Component}
    (hp : p.components ≠ []) (hq : q.components = p.components ++ names)
    (h : ∀ c ∈ names, c.isName = true) :
    (absolute cwd q).components = (absolute cwd p).components ++ names := by
  obtain ⟨c, cs, hcs⟩ := List.exists_cons_of_ne_nil hp
  have habs : q.isAbsolute = p.isAbsolute := by
    rw [Bool.eq_iff_iff, isAbsolute_iff, isAbsolute_iff, hq, hcs]
    rfl
  have hjoin : (cwd.join q).components = (cwd.join p).components ++ names := by
    by_cases hstays : q.isAbsolute = true ∨ cwd.text = []
    · have hself : cwd.join q = q ∧ cwd.join p = p := by
        rcases hstays with ha | he
        · simp [join, ha, ← habs]
        · simp [join, he]
      rw [hself.1, hself.2, hq]
    · simp only [not_or, Bool.not_eq_true] at hstays
      have hinner : inner (p.components ++ names) = inner p.components ++ names := by
        cases c <;> simp [hcs, inner]
      rw [components_join hstays.2 hstays.1, components_join hstays.2 (habs ▸ hstays.1), hq, hinner,
        List.append_assoc]
  rw [absolute, absolute, components_normalize, components_normalize, hjoin,
    resolve_append_names _ h]

/-- Whether a path lies in a directory and is not the directory itself. -/
def liesIn (p dir : Path) : Bool :=
  p.startsWith dir && !p.same dir

/-- Behind a start, a path that does not climb has names alone. -/
theorem isName_of_append {p : Path} {cs names : List Component} (hcs : cs ≠ [])
    (hp : p.components = cs ++ names) (hclimb : .parent ∉ p.components) :
    ∀ c ∈ names, c.isName = true := by
  intro c hc
  have htail : c ∈ p.components.tail := by
    rw [hp, List.tail_append_of_ne_nil hcs]
    exact List.mem_append_right _ hc
  obtain ⟨hroot, hcurrent⟩ := mem_tail_components htail
  cases c with
  | name t => rfl
  | root => exact absurd rfl hroot
  | current => exact absurd rfl hcurrent
  | parent => exact absurd (List.mem_of_mem_tail htail) hclimb

/-- A path that does not climb lies as deep in a directory when both are seen from a working
directory. -/
theorem startsWith_absolute (cwd : Path) {p dir : Path} (hdir : dir.text ≠ [])
    (hclimb : .parent ∉ p.components) (h : p.startsWith dir = true) :
    (absolute cwd p).startsWith (absolute cwd dir) = true := by
  obtain ⟨names, hnames⟩ := List.isPrefixOf_iff_prefix.1 h
  have hisName := isName_of_append (components_ne_nil hdir) hnames.symm hclimb
  have happend := components_absolute_append cwd (components_ne_nil hdir) hnames.symm hisName
  exact List.isPrefixOf_iff_prefix.2 ⟨names, happend.symm⟩

end Ambient.Path
