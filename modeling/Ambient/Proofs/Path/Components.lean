/-
The components of a path, read off its text: what a join and a cut at components do to them.

A path's text is its stretches between slashes, and each stretch makes at most one component
(`components_eq`). So the components of `p` joined with a relative `q` are those of `p` and then
those of `q`, where a dot that `q` starts with is lost (`components_join`); what is left of `p` behind
a base has the components behind the base's (`components_stripBase?`); another file name changes the
last component alone (`components_withFileName`); and with each directory further up a path from the
root loses its last component (`getElem?_ancestors`).
-/
import Ambient.Path.Basic

namespace Ambient.Path

/-- The components that stretches between slashes make. -/
def segments : List Text → List Component
  | [] => []
  | t :: rest => (segment? true t).toList ++ rest.filterMap (segment? false)

/-- Components behind others: a dot shows only at the start of a path. -/
def inner : List Component → List Component
  | .current :: cs => cs
  | cs => cs

theorem segment?_false_ne_current {t : Text} : segment? false t ≠ some .current := by
  simp only [segment?]
  split
  · simp
  split
  · simp
  split <;> simp

theorem segment?_ne_root {first : Bool} {t : Text} : segment? first t ≠ some .root := by
  simp only [segment?]
  split
  · simp
  split
  · split <;> simp
  split <;> simp

/-- Only a dot depends on whether it is the first stretch. -/
theorem segment?_true {t : Text} (h : t ≠ ['.']) : segment? true t = segment? false t := by
  simp [segment?, h]

theorem segment?_true_of_some {first : Bool} {t : Text} {c : Component}
    (h : segment? first t = some c) : segment? true t = some c := by
  cases first with
  | true => exact h
  | false =>
    rw [segment?_true, h]
    rintro rfl
    simp [segment?] at h

theorem inner_eq_self {cs : List Component} (h : cs.head? ≠ some .current) : inner cs = cs := by
  unfold inner
  split
  · simp at h
  · rfl

theorem inner_filterMap (ts : List Text) :
    inner (ts.filterMap (segment? false)) = ts.filterMap (segment? false) := by
  refine inner_eq_self fun h => ?_
  obtain ⟨t, -, ht⟩ := List.mem_filterMap.1 (List.mem_of_mem_head? h)
  exact segment?_false_ne_current ht

theorem filterMap_segment? (ts : List Text) :
    ts.filterMap (segment? false) = inner (segments ts) := by
  cases ts with
  | nil => rfl
  | cons t rest =>
    by_cases hdot : t = ['.']
    · subst hdot
      simp [segments, segment?, inner]
    · have hall : segments (t :: rest) = (t :: rest).filterMap (segment? false) := by
        rw [segments, segment?_true hdot]
        cases h : segment? false t <;> simp [h]
      rw [hall, inner_filterMap]

theorem component_locate_false (start : Nat) (ts : List Text) :
    (locate false start ts).map Located.component = ts.filterMap (segment? false) := by
  induction ts generalizing start with
  | nil => rfl
  | cons t rest ih =>
    simp only [locate, List.map_append, ih]
    cases h : segment? false t <;> simp [h]

theorem component_locate (start : Nat) (ts : List Text) :
    (locate true start ts).map Located.component = segments ts := by
  cases ts with
  | nil => rfl
  | cons t rest =>
    simp only [locate, List.map_append, component_locate_false, segments]
    cases segment? true t <;> rfl

theorem same_eq_false_iff {p q : Path} : p.same q = false ↔ p.components ≠ q.components := by
  rw [Bool.eq_false_iff, Ne, same_iff]

theorem components_eq (p : Path) :
    p.components = (if p.isAbsolute then [.root] else []) ++ segments (p.text.splitOn '/') := by
  simp only [components, located, List.map_append, component_locate]
  split <;> rfl

theorem components_of_relative {p : Path} (h : p.isAbsolute = false) :
    p.components = segments (p.text.splitOn '/') := by
  simp [components_eq, h]

@[simp] theorem components_empty : (Path.mk []).components = [] := rfl

/-- Behind its first component, a path has names and climbs only. -/
theorem mem_tail_components {p : Path} {c : Component} (h : c ∈ p.components.tail) :
    c ≠ .root ∧ c ≠ .current := by
  have hfilter : ∀ {ts : List Text}, c ∈ ts.filterMap (segment? false) → c ≠ .root ∧ c ≠ .current := by
    intro ts hc
    obtain ⟨t, -, ht⟩ := List.mem_filterMap.1 hc
    refine ⟨?_, ?_⟩
    · rintro rfl
      exact segment?_ne_root ht
    · rintro rfl
      exact segment?_false_ne_current ht
  cases hs : p.text.splitOn '/' with
  | nil => exact absurd hs (List.splitOn_ne_nil _ _)
  | cons t rest =>
    rw [components_eq, hs] at h
    cases habs : p.isAbsolute with
    | true =>
      obtain ⟨u, hu⟩ : ∃ u, p.text = '/' :: u := by
        cases hp : p.text <;> simp_all [isAbsolute]
      have ht : t = [] := by
        rw [hu, List.splitOn_cons_eq_if_modifyHead, if_pos (by simp)] at hs
        injection hs with hs
        exact hs.symm
      subst ht
      simp only [habs, if_true, List.singleton_append, List.tail_cons, segments] at h
      exact hfilter h
    | false =>
      simp only [habs, Bool.false_eq_true, if_false, List.nil_append, segments] at h
      cases ht : segment? true t with
      | none =>
        simp only [ht, Option.toList_none, List.nil_append] at h
        exact hfilter (List.mem_of_mem_tail h)
      | some d =>
        simp only [ht, Option.toList_some, List.singleton_append, List.tail_cons] at h
        exact hfilter h

/-! ## Joining -/

theorem segments_append {ts us : List Text} (h : ts ≠ []) :
    segments (ts ++ us) = segments ts ++ inner (segments us) := by
  cases ts with
  | nil => exact absurd rfl h
  | cons t rest => simp only [List.cons_append, segments, List.filterMap_append, filterMap_segment? us,
      List.append_assoc]

/-- The components of a text with a slash in it. -/
theorem components_append_slash {t u : Text} (h : t ≠ []) :
    (Path.mk (t ++ '/' :: u)).components =
      (Path.mk t).components ++ inner (segments (u.splitOn '/')) := by
  have habs : (Path.mk (t ++ '/' :: u)).isAbsolute = (Path.mk t).isAbsolute := by
    cases t with
    | nil => exact absurd rfl h
    | cons c t => simp [isAbsolute]
  rw [components_eq, components_eq, habs, List.splitOn_append_cons_self,
    segments_append (List.splitOn_ne_nil _ _), List.append_assoc]

theorem components_join {p q : Path} (hp : p.text ≠ []) (hq : q.isAbsolute = false) :
    (p.join q).components = p.components ++ inner q.components := by
  have hne : p.text.isEmpty = false := by simpa using hp
  simp only [join, hq, hne, Bool.or_false, Bool.false_eq_true, if_false]
  rw [components_of_relative hq]
  split
  · rename_i hlast
    obtain ⟨t, ht⟩ := List.getLast?_eq_some_iff.1 hlast
    rw [ht, List.append_assoc, List.singleton_append]
    cases t with
    | nil =>
      -- The text is a single slash, and its one stretch of text before `q` is empty.
      have hroot : p.components = [.root] := by
        rw [show p = ⟨['/']⟩ from congrArg Path.mk ht]
        rfl
      have hsplit : ('/' :: q.text).splitOn '/' = [] :: q.text.splitOn '/' :=
        List.splitOn_append_cons_self [] q.text
      rw [hroot, components_eq, ← filterMap_segment?, List.nil_append, hsplit]
      rfl
    | cons c t =>
      have hp' : p.components = (Path.mk (c :: t)).components := by
        have := components_append_slash (t := c :: t) (u := []) (by simp)
        rw [← ht] at this
        simpa [segments, segment?, inner] using this
      rw [components_append_slash (by simp), hp']
  · exact components_append_slash hp

/-! ## Cutting at components -/

/-- The number of characters of stretches, each with the slash behind it. -/
def width : List Text → Nat
  | [] => 0
  | t :: ts => t.length + 1 + width ts

theorem locate_append (first : Bool) (start : Nat) (ts us : List Text) :
    locate first start (ts ++ us) =
      locate first start ts ++ locate (first && ts.isEmpty) (start + width ts) us := by
  induction ts generalizing first start with
  | nil => simp [locate, width]
  | cons t rest ih =>
    simp only [List.cons_append, locate, ih, List.append_assoc, List.isEmpty_cons, Bool.and_false,
      Bool.false_and, width, Nat.add_assoc]

/-- The stretch that a located component comes from. -/
theorem stretch_of_locate {first : Bool} {start : Nat} {ts : List Text} {l₁ l₂ : List Located}
    {x : Located} (h : locate first start ts = l₁ ++ x :: l₂) :
    ∃ pre t post, ts = pre ++ t :: post ∧ locate first start pre = l₁ ∧
      segment? (first && pre.isEmpty) t = some x.component ∧ x.start = start + width pre ∧
      x.stop = x.start + t.length ∧ locate false (x.stop + 1) post = l₂ := by
  induction ts generalizing first start l₁ with
  | nil => simp [locate] at h
  | cons t rest ih =>
    simp only [locate] at h
    cases hs : segment? first t with
    | none =>
      simp only [hs, Option.map_none, Option.toList_none, List.nil_append] at h
      obtain ⟨pre, u, post, rfl, hpre, hu, hstart, hstop, hpost⟩ := ih h
      refine ⟨t :: pre, u, post, rfl, ?_, by simpa using hu, ?_, hstop, hpost⟩
      · simpa [locate, hs] using hpre
      · simp only [hstart, width]
        omega
    | some c =>
      simp only [hs, Option.map_some, Option.toList_some, List.singleton_append] at h
      cases l₁ with
      | nil =>
        simp only [List.nil_append, List.cons.injEq] at h
        obtain ⟨rfl, hrest⟩ := h
        exact ⟨[], t, rest, rfl, rfl, by simpa using hs, by simp [width], rfl, hrest⟩
      | cons y l₁ =>
        simp only [List.cons_append, List.cons.injEq] at h
        obtain ⟨rfl, hrest⟩ := h
        obtain ⟨pre, u, post, rfl, hpre, hu, hstart, hstop, hpost⟩ := ih hrest
        refine ⟨t :: pre, u, post, rfl, ?_, by simpa using hu, ?_, hstop, hpost⟩
        · simp [locate, hs, hpre]
        · simp only [hstart, width]
          omega

theorem intercalate_append_cons (pre : List Text) (t : Text) (post : List Text) :
    ['/'].intercalate (pre ++ t :: post) =
      pre.flatMap (· ++ ['/']) ++ ['/'].intercalate (t :: post) := by
  induction pre with
  | nil => rfl
  | cons u pre ih =>
    obtain ⟨v, rest, hv⟩ : ∃ v rest, pre ++ t :: post = v :: rest := by
      cases pre <;> simp
    rw [List.cons_append, hv, List.intercalate_cons_cons, ← hv, ih]
    simp

theorem length_flatMap_slash (pre : List Text) :
    (pre.flatMap (· ++ ['/'])).length = width pre := by
  induction pre with
  | nil => rfl
  | cons t pre ih =>
    rw [List.flatMap_cons, List.length_append, ih, List.length_append]
    rfl

theorem drop_intercalate (pre : List Text) (t : Text) (post : List Text) :
    (['/'].intercalate (pre ++ t :: post)).drop (width pre) = ['/'].intercalate (t :: post) := by
  rw [intercalate_append_cons, ← length_flatMap_slash, List.drop_left]

theorem take_intercalate (pre : List Text) (t : Text) (post : List Text) :
    (['/'].intercalate (pre ++ t :: post)).take (width pre + t.length) =
      ['/'].intercalate (pre ++ [t]) := by
  have hpost : (['/'].intercalate (t :: post)).take t.length = t := by
    cases post with
    | nil => simp
    | cons u post => simp [List.intercalate_cons_cons]
  rw [intercalate_append_cons, intercalate_append_cons, ← length_flatMap_slash,
    List.take_length_add_append, hpost]
  simp

theorem not_mem_of_mem_splitOn {x : Char} {w t : Text} (h : w ∈ t.splitOn x) : x ∉ w := by
  induction t generalizing w with
  | nil => simp_all
  | cons c t ih =>
    rw [List.splitOn_cons_eq_if_modifyHead] at h
    split at h
    · rcases List.mem_cons.1 h with rfl | h
      · simp
      · exact ih h
    · rename_i hc
      cases hs : t.splitOn x with
      | nil => simp [hs] at h
      | cons u us =>
        rw [hs] at h ih
        simp only [List.modifyHead_cons, List.mem_cons] at h
        rcases h with rfl | h
        · simp only [List.mem_cons, not_or]
          exact ⟨fun he => hc (by simp [he]), ih (by simp)⟩
        · exact ih (by simp [h])

/-- Some of the stretches of a text, joined again, have just these stretches. -/
theorem splitOn_intercalate_of_subset {t : Text} {us : List Text} (h : us ⊆ t.splitOn '/')
    (hne : us ≠ []) : (['/'].intercalate us).splitOn '/' = us :=
  List.splitOn_intercalate '/' (fun _ hu => not_mem_of_mem_splitOn (h hu)) hne

theorem ne_nil_of_segment? {first : Bool} {t : Text} {c : Component} (h : segment? first t = some c) :
    t ≠ [] := by
  rintro rfl
  simp [segment?] at h

theorem locate_take {t : Text} {m l : List Located} {y : Located}
    (h : locate true 0 (t.splitOn '/') = m ++ y :: l) :
    0 < y.stop ∧ locate true 0 ((t.take y.stop).splitOn '/') = m ++ [y] := by
  obtain ⟨pre, u, post, hts, hpre, hu, hstart, hstop, -⟩ := stretch_of_locate h
  have hlen := List.length_pos_iff.2 (ne_nil_of_segment? hu)
  have htake : t.take y.stop = ['/'].intercalate (pre ++ [u]) := by
    rw [← take_intercalate pre u post, ← hts, List.intercalate_splitOn, hstop, hstart, Nat.zero_add]
  have hsub : pre ++ [u] ⊆ t.splitOn '/' := by
    rw [hts]
    intro w hw
    simp only [List.mem_append, List.mem_singleton] at hw
    rcases hw with hw | rfl <;> simp [*]
  refine ⟨by omega, ?_⟩
  rw [htake, splitOn_intercalate_of_subset hsub (by simp), locate_append, hpre]
  obtain ⟨c, start, stop⟩ := y
  simp only at hu hstart hstop
  simp only [locate, hu, hstart, hstop, Option.map_some, Option.toList_some, List.append_nil]

/-- The text up to the end of a component has the components up to it, where they were. -/
theorem located_take {p : Path} {m l : List Located} {y : Located} (h : p.located = m ++ y :: l) :
    (Path.mk (p.text.take y.stop)).located = m ++ [y] := by
  have hhead : ∀ n, 0 < n → (Path.mk (p.text.take n)).isAbsolute = p.isAbsolute := by
    intro n hn
    simp only [isAbsolute, List.head?_take]
    rw [if_neg (by omega)]
  cases habs : p.isAbsolute with
  | false =>
    simp only [located, habs, Bool.false_eq_true, if_false, List.nil_append] at h
    obtain ⟨hpos, htake⟩ := locate_take h
    simpa [located, hhead _ hpos, habs] using htake
  | true =>
    simp only [located, habs, if_true, List.singleton_append] at h
    cases m with
    | nil =>
      simp only [List.nil_append, List.cons.injEq] at h
      obtain ⟨rfl, -⟩ := h
      obtain ⟨t, ht⟩ : ∃ t, p.text = '/' :: t := by
        cases hp : p.text <;> simp_all [isAbsolute]
      simp [ht]
      rfl
    | cons x m =>
      simp only [List.cons_append, List.cons.injEq] at h
      obtain ⟨rfl, h⟩ := h
      obtain ⟨hpos, htake⟩ := locate_take h
      simpa [located, hhead _ hpos, habs] using htake

theorem locate_drop {t : Text} {l₁ l₂ : List Located} {x : Located}
    (h : locate true 0 (t.splitOn '/') = l₁ ++ x :: l₂) :
    (Path.mk (t.drop x.start)).components = (x :: l₂).map Located.component := by
  obtain ⟨pre, u, post, hts, -, hu, hstart, hstop, hpost⟩ := stretch_of_locate h
  have hdrop : t.drop x.start = ['/'].intercalate (u :: post) := by
    rw [← drop_intercalate pre u post, ← hts, List.intercalate_splitOn, hstart, Nat.zero_add]
  have hsub : u :: post ⊆ t.splitOn '/' := by
    rw [hts]
    exact List.subset_append_right pre _
  have hrel : (Path.mk (t.drop x.start)).isAbsolute = false := by
    obtain ⟨c, cs, rfl⟩ := List.exists_cons_of_ne_nil (ne_nil_of_segment? hu)
    have hc : '/' ∉ c :: cs := not_mem_of_mem_splitOn (hsub (by simp))
    rw [hdrop]
    simp only [List.mem_cons, not_or] at hc
    simp only [isAbsolute, List.intercalate_cons_cons_left, List.head?_cons]
    simpa using Ne.symm hc.1
  rw [components_of_relative hrel, hdrop, splitOn_intercalate_of_subset hsub (by simp)]
  simp [segments, segment?_true_of_some hu, ← hpost, component_locate_false]

/-- The text from a component on has the components from it on. -/
theorem components_drop {p : Path} {l₁ l₂ : List Located} {x : Located}
    (h : p.located = l₁ ++ x :: l₂) :
    (Path.mk (p.text.drop x.start)).components = (x :: l₂).map Located.component := by
  cases habs : p.isAbsolute with
  | false =>
    simp only [located, habs, Bool.false_eq_true, if_false, List.nil_append] at h
    exact locate_drop h
  | true =>
    cases l₁ with
    | nil =>
      have hx : x.start = 0 := by
        simp only [located, habs, if_true, List.singleton_append, List.nil_append,
          List.cons.injEq] at h
        rw [← h.1]
      rw [hx, List.drop_zero, components, h, List.nil_append]
    | cons r l₁ =>
      simp only [located, habs, if_true, List.cons_append, List.cons.injEq] at h
      exact locate_drop h.2

theorem length_located (p : Path) : p.located.length = p.components.length := by
  simp [components]

/-- What is left behind a base has the components behind those of the base. -/
theorem components_stripBase? {p base place : Path} (h : p.stripBase? base = some place) :
    p.components = base.components ++ place.components := by
  simp only [stripBase?] at h
  split at h
  · rename_i hbase
    obtain ⟨rest, hrest⟩ := List.isPrefixOf_iff_prefix.1 hbase
    have hbehind : (p.located.drop base.located.length).map Located.component = rest := by
      rw [List.map_drop, length_located]
      exact (congrArg (List.drop _) hrest).symm.trans List.drop_left
    rw [← hrest]
    congr 1
    split at h
    · rename_i first more last hfirst hlast
      obtain ⟨init, hinit⟩ := List.getLast?_eq_some_iff.1 hlast
      simp only [Option.some.injEq] at h
      subst h
      have hcut := located_take hinit
      rw [← hinit, ← List.take_append_drop base.located.length p.located, hfirst] at hcut
      rw [← hbehind, hfirst, components_drop hcut]
    · rename_i hnone
      simp only [Option.some.injEq] at h
      subst h
      cases hdrop : p.located.drop base.located.length with
      | nil => simp [← hbehind, hdrop]
      | cons first more =>
        have hne : p.located ≠ [] := by
          intro he
          simp [he] at hdrop
        exact absurd (List.getLast?_eq_some_getLast hne) (hnone _ _ _ hdrop)
  · simp at h

/-! ## File names -/

/-- A text that can be the name of a file. -/
structure IsName (t : Text) : Prop where
  segment : segment? true t = some (.name t)
  noSlash : '/' ∉ t

theorem segment?_name {first : Bool} {t u : Text} (h : segment? first t = some (.name u)) : u = t := by
  simp only [segment?] at h
  split at h
  · simp at h
  split at h
  · split at h <;> simp at h
  split at h
  · simp at h
  · simpa using h.symm

theorem IsName.of_mem_components {p : Path} {t : Text} (h : .name t ∈ p.components) : IsName t := by
  have hseg : ∃ u ∈ p.text.splitOn '/', ∃ first, segment? first u = some (.name t) := by
    rw [components_eq] at h
    cases hs : p.text.splitOn '/' with
    | nil => exact absurd hs (List.splitOn_ne_nil _ _)
    | cons u us =>
      have hroot : .name t ∉ (if p.isAbsolute then [Component.root] else []) := by
        split <;> simp
      simp only [hs, segments, List.mem_append, Option.mem_toList, hroot,
        false_or, List.mem_filterMap] at h
      rcases h with h | ⟨v, hv, h⟩
      · exact ⟨u, by simp, true, h⟩
      · exact ⟨v, by simp [hv], false, h⟩
  obtain ⟨u, hu, first, hseg⟩ := hseg
  obtain rfl := segment?_name hseg
  exact ⟨segment?_true_of_some hseg, not_mem_of_mem_splitOn hu⟩

theorem IsName.relative {t : Text} (h : IsName t) : (Path.mk t).isAbsolute = false := by
  cases t with
  | nil => rfl
  | cons c t =>
    have := h.noSlash
    simp only [List.mem_cons, not_or] at this
    simpa [isAbsolute] using Ne.symm this.1

theorem IsName.components {t : Text} (h : IsName t) : (Path.mk t).components = [.name t] := by
  rw [components_of_relative h.relative]
  simp [List.splitOn_eq_singleton h.noSlash, segments, h.segment]

theorem components_join_name {p : Path} {t : Text} (h : IsName t) :
    (p.join ⟨t⟩).components = p.components ++ [.name t] := by
  by_cases hp : p.text = []
  · have : p.join ⟨t⟩ = ⟨t⟩ := by simp [join, hp]
    rw [this, h.components, show p = ⟨[]⟩ from congrArg Path.mk hp]
    rfl
  · rw [components_join hp h.relative, h.components]
    rfl

theorem fileName?_eq_some {p : Path} {t : Text} :
    p.fileName? = some t ↔ p.components.getLast? = some (.name t) := by
  simp only [fileName?]
  split <;> simp_all

theorem components_parent? {p : Path} {t : Text} (h : p.fileName? = some t) :
    (p.parent?.getD p).components = p.components.dropLast := by
  obtain ⟨init, hinit⟩ := List.getLast?_eq_some_iff.1 (fileName?_eq_some.1 h)
  have hne : p.located ≠ [] := by
    intro he
    simp [components, he] at hinit
  obtain ⟨m, y, hm⟩ : ∃ m y, p.located = m ++ [y] :=
    ⟨_, _, (List.dropLast_concat_getLast hne).symm⟩
  have hy : y.component = .name t := by
    have := congrArg List.getLast? hinit
    simpa [components, hm] using this
  have htext : p.text.isEmpty = false := by
    rw [List.isEmpty_eq_false_iff]
    rintro he
    rw [show p = ⟨[]⟩ from congrArg Path.mk he] at hinit
    simp at hinit
  have hcut : ∀ m' z, m = m' ++ [z] →
      (Path.mk (p.text.take z.stop)).components = m.map Located.component := by
    rintro m' z rfl
    have : p.located = m' ++ z :: [y] := by simpa using hm
    rw [components, located_take this]
  have hdrop : p.components.dropLast = m.map Located.component := by
    simp [components, hm]
  rw [hdrop]
  rcases List.eq_nil_or_concat m with rfl | ⟨m', z, rfl⟩
  · have hrel : p.isAbsolute = false := by
      cases habs : p.isAbsolute with
      | false => rfl
      | true =>
        simp only [located, habs, if_true, List.singleton_append, List.nil_append,
          List.cons.injEq] at hm
        rw [← hm.1] at hy
        simp at hy
    simp [parent?, parents, parentStops, htext, hrel, hm]
  · rw [← hcut m' z (by simp)]
    simp only [parent?, parents, parentStops, htext, hm, List.concat_eq_append,
      List.dropLast_concat, Bool.false_eq_true, if_false]
    split <;> simp

theorem components_withFileName {p : Path} {t name : Text} (h : p.fileName? = some t)
    (hname : IsName name) :
    (p.withFileName name).components = p.components.dropLast ++ [.name name] := by
  simp only [withFileName, h, Option.isSome_some, if_true]
  rw [components_join_name hname, components_parent? h]

/-! ## Directories above -/

/-- The text up to the end of a component has the components up to it. -/
theorem components_take_stop {p : Path} {i : Nat} {y : Located} (h : p.located[i]? = some y) :
    (Path.mk (p.text.take y.stop)).components = p.components.take (i + 1) := by
  obtain ⟨hi, rfl⟩ := List.getElem?_eq_some_iff.1 h
  have hsplit : p.located = p.located.take i ++ p.located[i] :: p.located.drop (i + 1) := by
    rw [← List.drop_eq_getElem_cons hi, List.take_append_drop]
  rw [components, located_take hsplit, components, ← List.map_take, List.take_succ_eq_append_getElem hi]

/-- The directories above a path from the root, and the path itself, have one component less each. -/
theorem getElem?_ancestors {p : Path} (habs : p.isAbsolute = true) (i : Nat) :
    p.ancestors[i]?.map components =
      if i < p.components.length then some (p.components.take (p.components.length - i)) else none := by
  have htext : p.text.isEmpty = false := by
    cases hp : p.text with
    | nil => simp [isAbsolute, hp] at habs
    | cons => rfl
  have hparents : p.parents =
      (p.located.dropLast.map fun y => (⟨p.text.take y.stop⟩ : Path)).reverse := by
    simp [parents, parentStops, htext, habs, Function.comp_def]
  have hpos : 0 < p.components.length := by
    rw [components_eq, habs]
    simp
  cases i with
  | zero => simp [ancestors, hpos]
  | succ i =>
    rw [ancestors, List.getElem?_cons_succ, hparents]
    rw [← length_located] at hpos ⊢
    by_cases hi : i + 1 < p.located.length
    · obtain ⟨y, hy⟩ : ∃ y, p.located[p.located.length - (i + 2)]? = some y :=
        ⟨_, List.getElem?_eq_getElem (by omega)⟩
      have hindex : ∀ f : Located → Path,
          (p.located.dropLast.map f).length - 1 - i = p.located.length - (i + 2) := by
        intro f
        rw [List.length_map, List.length_dropLast]
        omega
      have hlength : p.located.length - (i + 2) + 1 = p.located.length - (i + 1) := by omega
      rw [if_pos hi, List.getElem?_reverse (by rw [List.length_map, List.length_dropLast]; omega),
        hindex, List.getElem?_map, List.getElem?_dropLast, if_pos (by omega), hy, Option.map_some,
        Option.map_some, components_take_stop hy, hlength]
    · rw [if_neg hi, List.getElem?_eq_none (by simp; omega)]
      rfl

end Ambient.Path
