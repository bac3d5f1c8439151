/-
The normal form of a path, and how it goes with joining.

A stack that was pushed together from components can be pushed again in their place, onto any other
stack (`foldl_push_resolve`). So it changes nothing to resolve the parts of a path first
(`resolve_append_resolve`), and normal paths may be joined in place of the paths they come from
(`normalize_join`). From the root on, resolving is walking: each component leads from one place to the
next, and the root lies above itself (`resolve_root_cons`). Which paths are normal can be said without
`resolve` (`IsNormal`): they are those that `normalize` leaves as they are (`normalize_of_isNormal`).
-/
import Ambient.Disk.Tree
import Ambient.Proofs.Path.Normal

namespace Ambient.Path

/-! ## Pushing twice -/

/-- A push commutes with moving the stack onto another one. -/
theorem foldr_push (stack s : List Component) (c : Component) :
    (push stack c).foldr (fun d s => push s d) s = push (stack.foldr (fun d s => push s d) s) c := by
  unfold push
  split <;> rfl

theorem foldr_foldl_push (cs stack s : List Component) :
    (cs.foldl push stack).foldr (fun d s => push s d) s =
      cs.foldl push (stack.foldr (fun d s => push s d) s) := by
  induction cs generalizing stack with
  | nil => rfl
  | cons c cs ih => rw [List.foldl_cons, List.foldl_cons, ih, foldr_push]

/-- What resolving leaves of components leads the same way as all of them, wherever it starts. -/
theorem foldl_push_resolve (cs s : List Component) : (resolve cs).foldl push s = cs.foldl push s := by
  rw [resolve, List.foldl_reverse]
  exact foldr_foldl_push cs [] s

theorem resolve_append (cs ds : List Component) :
    resolve (cs ++ ds) = (ds.foldl push (cs.foldl push [])).reverse := by
  rw [resolve, List.foldl_append]

theorem resolve_append_resolve (cs ds : List Component) :
    resolve (resolve cs ++ resolve ds) = resolve (cs ++ ds) := by
  rw [resolve_append, resolve_append, foldl_push_resolve, foldl_push_resolve]

/-! ## Walking from the root -/

/-- One component further from a place. The root lies above itself. -/
def walk (place : Location) : Component → Location
  | .root => []
  | .current => place
  | .parent => place.dropLast
  | .name t => place ++ [t]

/-- The path of a place from the root. -/
def ofPlace (place : Location) : Path :=
  ofComponents (.root :: place.map .name)

/-- The stack of a place: its names, the last first, and the root below them. -/
def placeStack (place : Location) : List Component :=
  (place.map .name).reverse ++ [.root]

theorem push_placeStack {c : Component} (hc : c ≠ .root) (place : Location) :
    push (placeStack place) c = placeStack (walk place c) := by
  cases c with
  | root => exact absurd rfl hc
  | current => rfl
  | name t => simp [push, placeStack, walk]
  | parent =>
    rcases List.eq_nil_or_concat place with rfl | ⟨init, t, rfl⟩
    · rfl
    · simp [push, placeStack, walk]

theorem foldl_push_placeStack {cs : List Component} (hcs : .root ∉ cs) (place : Location) :
    cs.foldl push (placeStack place) = placeStack (cs.foldl walk place) := by
  induction cs generalizing place with
  | nil => rfl
  | cons c cs ih =>
    have hc : c ≠ .root := Ne.symm (List.ne_of_not_mem_cons hcs)
    rw [List.foldl_cons, List.foldl_cons, push_placeStack hc, ih (List.not_mem_of_not_mem_cons hcs)]

/-- From the root, components lead where walking them leads. -/
theorem resolve_root_cons {cs : List Component} (hcs : .root ∉ cs) :
    resolve (.root :: cs) = .root :: (cs.foldl walk []).map .name := by
  have hstart : push [] .root = placeStack [] := rfl
  rw [resolve, List.foldl_cons, hstart, foldl_push_placeStack hcs]
  simp [placeStack]

/-- The components of a path from the root. -/
theorem exists_components_of_isAbsolute {p : Path} (h : p.isAbsolute = true) :
    ∃ cs, p.components = .root :: cs ∧ .root ∉ cs := by
  obtain ⟨cs, hcs⟩ := List.head?_eq_some_iff.1 (isAbsolute_iff.1 h)
  exact ⟨cs, hcs, fun hmem => (mem_tail_components (p := p) (by rw [hcs]; exact hmem)).1 rfl⟩

theorem root_mem_components {p : Path} : .root ∈ p.components ↔ p.isAbsolute = true := by
  constructor
  · intro hroot
    cases hp : p.components with
    | nil => simp [hp] at hroot
    | cons c cs =>
      rw [hp] at hroot
      rcases List.mem_cons.1 hroot with rfl | hcs
      · exact isAbsolute_iff.2 (by rw [hp]; rfl)
      · exact absurd rfl (mem_tail_components (p := p) (by rw [hp]; exact hcs)).1
  · intro habs
    exact List.mem_of_mem_head? (isAbsolute_iff.1 habs)

/-! ## Joining -/

theorem mem_of_mem_push {stack : List Component} {c d : Component} (h : d ∈ push stack c) :
    d = c ∨ d ∈ stack := by
  unfold push at h
  split at h
  · exact .inr h
  · exact .inr (List.mem_cons_of_mem _ h)
  · exact .inr h
  · exact List.mem_cons.1 h

theorem mem_of_mem_foldl_push {cs stack : List Component} {d : Component}
    (h : d ∈ cs.foldl push stack) : d ∈ cs ∨ d ∈ stack := by
  induction cs generalizing stack with
  | nil => exact .inr h
  | cons c cs ih =>
    rcases ih h with hcs | hpush
    · exact .inl (List.mem_cons_of_mem _ hcs)
    rcases mem_of_mem_push hpush with rfl | hstack
    · exact .inl List.mem_cons_self
    · exact .inr hstack

theorem mem_of_mem_resolve {cs : List Component} {d : Component} (h : d ∈ resolve cs) : d ∈ cs :=
  (mem_of_mem_foldl_push (List.mem_reverse.1 h)).resolve_right List.not_mem_nil

theorem isAbsolute_normalize (p : Path) : (normalize p).isAbsolute = p.isAbsolute := by
  rw [Bool.eq_iff_iff, ← root_mem_components, components_normalize]
  constructor
  · exact fun h => root_mem_components.1 (mem_of_mem_resolve h)
  · intro habs
    obtain ⟨cs, hcs, hroot⟩ := exists_components_of_isAbsolute habs
    rw [hcs, resolve_root_cons hroot]
    exact List.mem_cons_self

theorem foldl_push_inner (cs s : List Component) : (inner cs).foldl push s = cs.foldl push s := by
  unfold inner
  split <;> rfl

theorem join_of_isAbsolute (a : Path) {b : Path} (hb : b.isAbsolute = true) : a.join b = b := by
  simp [join, hb]

theorem resolve_join (a : Path) {b : Path} (hb : b.isAbsolute = false) :
    resolve (a.join b).components = resolve (a.components ++ b.components) := by
  by_cases ha : a.text = []
  · have hjoin : a.join b = b := by simp [join, ha]
    rw [hjoin, show a = ⟨[]⟩ from congrArg Path.mk ha, components_empty, List.nil_append]
  · rw [components_join ha hb, resolve_append, resolve_append, foldl_push_inner]

theorem normalize_normalize (p : Path) : normalize (normalize p) = normalize p := by
  rw [normalize, components_normalize, resolve, foldl_push_resolve, ← resolve, ← normalize]

/-- Normal paths may be joined in place of the paths they come from. -/
theorem normalize_join (a b : Path) :
    normalize ((normalize a).join (normalize b)) = normalize (a.join b) := by
  have hkind := isAbsolute_normalize b
  cases hb : b.isAbsolute with
  | true =>
    rw [hb] at hkind
    rw [join_of_isAbsolute _ hkind, join_of_isAbsolute _ hb, normalize_normalize]
  | false =>
    rw [hb] at hkind
    rw [normalize, resolve_join _ hkind, components_normalize, components_normalize,
      resolve_append_resolve, ← resolve_join _ hb, ← normalize]

/-- The absolute path is the way to the place that the path leads to from the working directory. -/
theorem absolute_eq_ofPlace {cwd : Path} (hcwd : cwd.isAbsolute = true) (p : Path) :
    absolute cwd p = ofPlace (p.components.foldl walk (cwd.components.foldl walk [])) := by
  obtain ⟨cs, hcs, hroot⟩ := exists_components_of_isAbsolute hcwd
  rw [absolute, normalize, ofPlace]
  congr 1
  cases hp : p.isAbsolute with
  | true =>
    -- the first component of `p` leads back to the root
    obtain ⟨ds, hds, hroot⟩ := exists_components_of_isAbsolute hp
    rw [join_of_isAbsolute _ hp, hds, resolve_root_cons hroot]
    rfl
  | false =>
    have hboth : .root ∉ cs ++ p.components := by
      rw [List.mem_append, root_mem_components, hp]
      simpa using hroot
    rw [resolve_join _ hp, hcs, List.cons_append, resolve_root_cons hboth, List.foldl_append]
    rfl

/-! ## Normal form -/

/-- Components, the last first, of which a later one never climbs out of an earlier one. -/
structure Settled (stack : List Component) : Prop where
  noDot : .current ∉ stack
  climbs : stack.Pairwise fun d c => d = .parent → c = .parent

theorem Settled.tail {c : Component} {stack : List Component} (h : Settled (c :: stack)) :
    Settled stack :=
  ⟨fun hmem => h.noDot (List.mem_cons_of_mem _ hmem), (List.pairwise_cons.1 h.climbs).2⟩

theorem Settled.push {stack : List Component} (h : Settled stack) (c : Component) :
    Settled (push stack c) := by
  unfold Path.push
  split
  · exact h
  · exact h.tail
  · exact h
  · rename_i hcurrent hname hroot
    refine ⟨?_, List.pairwise_cons.2 ⟨?_, h.climbs⟩⟩
    · rw [List.mem_cons, not_or]
      exact ⟨fun hc => hcurrent hc.symm, h.noDot⟩
    · rintro d hd rfl
      -- what a climb is pushed onto is itself a climb, and so is all below it
      cases stack with
      | nil => cases hd
      | cons e stack =>
        have he : e = .parent := by
          cases e with
          | root => exact absurd rfl (hroot stack rfl)
          | current => exact absurd List.mem_cons_self h.noDot
          | parent => rfl
          | name t => exact absurd rfl (hname t stack rfl)
        rcases List.mem_cons.1 hd with rfl | hd
        · exact he
        · exact (List.pairwise_cons.1 h.climbs).1 d hd he

theorem settled_foldl_push {stack : List Component} (h : Settled stack) (cs : List Component) :
    Settled (cs.foldl push stack) := by
  induction cs generalizing stack with
  | nil => exact h
  | cons c cs ih => exact ih (h.push c)

theorem settled_resolve (cs : List Component) : Settled (resolve cs).reverse := by
  rw [resolve, List.reverse_reverse]
  exact settled_foldl_push ⟨List.not_mem_nil, .nil⟩ cs

theorem Settled.push_eq {c : Component} {stack : List Component} (h : Settled (c :: stack)) :
    Path.push stack c = c :: stack := by
  unfold Path.push
  split
  · exact absurd List.mem_cons_self h.noDot
  · have hname := (List.pairwise_cons.1 h.climbs).1 _ List.mem_cons_self rfl
    cases hname
  · have hroot := (List.pairwise_cons.1 h.climbs).1 _ List.mem_cons_self rfl
    cases hroot
  · rfl

theorem Settled.foldr_push {stack : List Component} (h : Settled stack) :
    stack.foldr (fun d s => Path.push s d) [] = stack := by
  induction stack with
  | nil => rfl
  | cons c stack ih => rw [List.foldr_cons, ih h.tail, h.push_eq]

theorem Settled.resolve_eq {cs : List Component} (h : Settled cs.reverse) : resolve cs = cs := by
  have hstack := h.foldr_push
  rw [List.foldr_reverse] at hstack
  rw [resolve, hstack, List.reverse_reverse]

/-- A path in normal form: written as its components are, without dots, and without climbs that could
be left out. -/
structure IsNormal (p : Path) : Prop where
  written : p = ofComponents p.components
  noDot : .current ∉ p.components
  /-- No climb stands behind a name, be it right behind it or not. -/
  climbs : p.components.Pairwise fun c d => c.isName = true → d ≠ .parent
  /-- No climb stands in a path from the root. -/
  rooted : p.isAbsolute = true → .parent ∉ p.components

theorem isNormal_normalize (p : Path) : IsNormal (normalize p) := by
  have hsettled := settled_resolve p.components
  rw [← components_normalize] at hsettled
  have hclimbs := List.pairwise_reverse.1 hsettled.climbs
  constructor
  case written => rw [components_normalize, normalize]
  case noDot => exact fun hdot => hsettled.noDot (List.mem_reverse.2 hdot)
  case climbs =>
    refine hclimbs.imp ?_
    rintro c d hclimb hname rfl
    rw [hclimb rfl] at hname
    cases hname
  case rooted =>
    intro habs hparent
    obtain ⟨cs, hcs, -⟩ := exists_components_of_isAbsolute habs
    rw [hcs] at hclimbs hparent
    rcases List.mem_cons.1 hparent with hroot | hparent
    · cases hroot
    · have hroot := (List.pairwise_cons.1 hclimbs).1 _ hparent rfl
      cases hroot

theorem normalize_of_isNormal {p : Path} (h : IsNormal p) : normalize p = p := by
  have hsettled : Settled p.components.reverse := by
    refine ⟨fun hdot => h.noDot (List.mem_reverse.1 hdot), List.pairwise_reverse.2 ?_⟩
    refine h.climbs.imp_of_mem ?_
    rintro c d hc hd hname rfl
    -- before a climb stands no name, no dot and no root
    cases c with
    | root => exact absurd hd (h.rooted (root_mem_components.1 hc))
    | current => exact absurd hc h.noDot
    | parent => rfl
    | name t => exact absurd rfl (hname rfl)
  rw [normalize, hsettled.resolve_eq, ← h.written]

/-- **Normal paths**: `normalize` leads to paths in normal form and leaves these as they are. It may be
used on the parts of a join first, and so on a path that is then taken from a working directory. The
absolute path is the way to the place reached by walking the components from there. -/
theorem normalize_canonical :
    (∀ p, normalize (normalize p) = normalize p) ∧
    (∀ p, IsNormal (normalize p)) ∧
    (∀ p, IsNormal p → normalize p = p) ∧
    (∀ a b, normalize (a.join b) = normalize ((normalize a).join (normalize b))) ∧
    ∀ cwd : Path, cwd.isAbsolute = true → ∀ p,
      absolute cwd p = absolute cwd (normalize p) ∧
      absolute cwd p = ofPlace (p.components.foldl walk (cwd.components.foldl walk [])) := by
  refine ⟨normalize_normalize, isNormal_normalize, fun p => normalize_of_isNormal,
    fun a b => (normalize_join a b).symm, fun cwd hcwd p => ⟨?_, absolute_eq_ofPlace hcwd p⟩⟩
  calc absolute cwd p
    _ = normalize ((normalize cwd).join (normalize p)) := (normalize_join cwd p).symm
    _ = normalize ((normalize cwd).join (normalize (normalize p))) := by rw [normalize_normalize]
    _ = absolute cwd (normalize p) := normalize_join cwd (normalize p)

/-- Climbing above the root of a working directory ends at the root, and the rest of the path counts
from there. -/
theorem normalize_canonical_above_root :
    IsNormal "../a" ∧ normalize "../a" = "../a" ∧
    (Path.isAbsolute "/usr/share" = true ∧
      absolute "/usr/share" "./..//../../lib/./x/.." = "/lib") := by
  obtain ⟨-, -, hfixed, -, habsolute⟩ := normalize_canonical
  have hnormal : IsNormal "../a" :=
    ⟨by decide, by decide, by decide, by decide⟩
  refine ⟨hnormal, hfixed _ hnormal, by decide, ?_⟩
  rw [(habsolute "/usr/share" (by decide) "./..//../../lib/./x/..").2]
  decide

end Ambient.Path
