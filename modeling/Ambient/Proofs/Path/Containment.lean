/-
Which declaration files lie in the output directory.

A source lands in the output directory, but for two cases: a source that is the root itself, whose
declaration file stands beside the directory, and a source from the root of all files under a relative
root, which stays where it is (`Strays`). A source outside the root lands directly in the directory,
unless it strays or makes a detour: from a root spelled with a dot, to a file spelled without, the way
goes through the file's first name (`detour`).
-/
import Ambient.Proofs.Path.Collision
import Ambient.Proofs.Path.Normal

namespace Ambient.Path

/-! ## Ways -/

/-- Without a dot in the base, a way out of the base starts with a climb. -/
theorem head?_of_wayFrom? {path base cs : List Component} (hdot : .current ∉ base)
    (hout : ¬ base <+: path) (h : wayFrom? [] path base = some cs) : cs.head? = some .parent := by
  induction path generalizing base with
  | nil =>
    cases base with
    | nil => exact absurd List.nil_prefix hout
    | cons b base =>
      obtain rfl : (b :: base).map (fun _ => Component.parent) = cs := by simpa [wayFrom?] using h
      rfl
  | cons a path ih =>
    cases base with
    | nil => exact absurd List.nil_prefix hout
    | cons b base =>
      simp only [List.mem_cons, not_or] at hdot
      by_cases hab : a = b
      · subst hab
        refine ih hdot.2 (fun hprefix => hout ?_) (by simpa [wayFrom?] using h)
        exact List.cons_prefix_cons.2 ⟨rfl, hprefix⟩
      · simp only [wayFrom?, List.isEmpty_nil, true_and, hab, if_false, Ne.symm hdot.1] at h
        split at h
        · cases h
        · obtain rfl := Option.some.inj h
          rfl

/-- Behind a first step, the way climbs out of the whole base. -/
theorem wayFrom?_singleton (a : Component) (path : List Component) {base : List Component}
    (hdot : .current ∉ base) :
    wayFrom? [a] path base =
      if path ≠ [] ∧ base.head? = some .parent then none
      else some (a :: base.map (fun _ => .parent) ++ path) := by
  cases base with
  | nil => simp [wayFrom?]
  | cons b base =>
    simp only [List.mem_cons, not_or] at hdot
    cases path with
    | nil => simp [wayFrom?]
    | cons c path => simp [wayFrom?, Ne.symm hdot.1]

theorem head?_ofComponents_parent (cs : List Component) :
    (ofComponents (.parent :: cs)).components.head? = some .parent := by
  cases cs with
  | nil => rfl
  | cons c cs =>
    have htext : ofComponents (.parent :: c :: cs) =
        ⟨['.', '.'] ++ '/' :: List.intercalate ['/'] ((c :: cs).map Component.text)⟩ := by
      simp [ofComponents, Component.text, List.intercalate_cons_cons]
    rw [htext, components_append_slash (by simp)]
    rfl

/-! ## Sources outside the root -/

/-- The components of a file's way from the root, for a file outside the root. From a root spelled with
a dot, to a file spelled without, the way goes through the file's first name and climbs from there;
every other way is given up for the file's name `t`. -/
def detour (t : Text) : (root file : List Component) → List Component
  | .current :: base, .name a :: path =>
    if path ≠ [] ∧ base.head? = some .parent then [.name t]
    else .name a :: base.map (fun _ => .parent) ++ path
  | _, _ => [.name t]

/-- The root is relative and the file is not. -/
def Strays (root file : Path) : Prop :=
  file.isAbsolute = true ∧ root.isAbsolute = false

instance (root file : Path) : Decidable (Strays root file) :=
  inferInstanceAs (Decidable (_ ∧ _))

theorem current_not_mem_tail (p : Path) : .current ∉ p.components.tail :=
  fun h => (mem_tail_components h).2 rfl

theorem placeUnder_of_none {root file : Path} {t : Text}
    (h : (file.stripBase? root).or (file.relativeTo? root) = none) (hname : file.fileName? = some t) :
    placeUnder root file = ⟨t⟩ := by
  simp [placeUnder, h, hname]

theorem stripBase?_eq_none {root file : Path} (hout : file.startsWith root = false) :
    file.stripBase? root = none := by
  rw [stripBase?, hout]
  rfl

section

variable {root file : Path} {t : Text} (hname : file.fileName? = some t)
  (hout : file.startsWith root = false)
include hname hout

/-- Where the way from the root is not a detour, the file's name stands for it. -/
theorem placeUnder_of_climb (habs : file.isAbsolute = root.isAbsolute)
    (hway : ∀ cs, wayFrom? [] file.components root.components = some cs → cs.head? = some .parent) :
    placeUnder root file = ⟨t⟩ := by
  have hplace : (file.stripBase? root).or (file.relativeTo? root) =
      (wayFrom? [] file.components root.components).map ofComponents := by
    rw [stripBase?_eq_none hout, Option.none_or, relativeTo?, if_pos habs]
  cases hcs : wayFrom? [] file.components root.components with
  | none => exact placeUnder_of_none (by rw [hplace, hcs]; rfl) hname
  | some cs =>
    obtain ⟨rest, rfl⟩ := List.head?_eq_some_iff.1 (hway cs hcs)
    rw [placeUnder_of_some (by rw [hplace, hcs]; rfl), if_pos (head?_ofComponents_parent rest), hname]
    rfl

/-- From a root spelled with a dot to a file that starts with a name. -/
theorem components_placeUnder_of_dot {a : Text} {base path : List Component}
    (hroot : root.components = .current :: base) (hfile : file.components = .name a :: path) :
    (placeUnder root file).components = detour t root.components file.components := by
  have habs : file.isAbsolute = root.isAbsolute := by
    have hrelative : ∀ p : Path, p.components.head? ≠ some .root → p.isAbsolute = false :=
      fun p hp => Bool.eq_false_iff.2 fun h => hp (isAbsolute_iff.1 h)
    rw [hrelative file (by simp [hfile]), hrelative root (by simp [hroot])]
  have hbase : .current ∉ base := by simpa [hroot] using current_not_mem_tail root
  have hway : wayFrom? [] file.components root.components =
      if path ≠ [] ∧ base.head? = some .parent then none
      else some (.name a :: base.map (fun _ => .parent) ++ path) := by
    rw [← wayFrom?_singleton (.name a) path hbase, hroot, hfile]
    simp [wayFrom?]
  rw [hroot, hfile, detour]
  split
  · rename_i hnone
    rw [placeUnder_of_climb hname hout habs (by simp [hway, hnone])]
    exact (IsName.of_fileName? hname).components
  · rename_i hsome
    have hsteps : ∀ c ∈ Component.name a :: base.map (fun _ => Component.parent) ++ path, IsStep c := by
      intro c hc
      simp only [List.cons_append, List.mem_cons, List.mem_append, List.mem_map] at hc
      have hmem : c = .parent ∨ c ∈ file.components ∧ c ≠ .root ∧ c ≠ .current := by
        rcases hc with rfl | ⟨_, -, rfl⟩ | hc
        · exact .inr (by simp [hfile])
        · exact .inl rfl
        · have hne := mem_tail_components (p := file) (c := c) (by simpa [hfile] using hc)
          exact .inr ⟨by simp [hfile, hc], hne⟩
      rcases hmem with rfl | ⟨hmem, hroot, hcurrent⟩
      · exact ⟨rfl, by decide⟩
      · exact .of_mem_components hmem hroot hcurrent
    have hplace := components_ofComponents ⟨_, hsteps, .inl rfl⟩
    have hsome : (file.stripBase? root).or (file.relativeTo? root) =
        some (ofComponents (.name a :: base.map (fun _ => .parent) ++ path)) := by
      rw [stripBase?_eq_none hout, Option.none_or, relativeTo?, if_pos habs, hway, if_neg hsome]
      rfl
    rw [placeUnder_of_some hsome, hplace, if_neg (by simp), hplace]

/-- Where a source outside the root stands under it. -/
theorem components_placeUnder_of_outside (hstays : ¬ Strays root file) :
    (placeUnder root file).components = detour t root.components file.components := by
  have hdirect : placeUnder root file = ⟨t⟩ → detour t root.components file.components = [.name t] →
      (placeUnder root file).components = detour t root.components file.components := by
    intro hplace hdetour
    rw [hplace, hdetour, (IsName.of_fileName? hname).components]
  by_cases habs : file.isAbsolute = root.isAbsolute
  · have hprefix : ¬ root.components <+: file.components := by
      intro h
      rw [startsWith, List.isPrefixOf_iff_prefix.2 h] at hout
      cases hout
    have htail := current_not_mem_tail root
    have hclimb := placeUnder_of_climb hname hout habs
    cases hroot : root.components with
    | nil => exact absurd (by simp [hroot]) hprefix
    | cons c base =>
      cases hfile : file.components with
      | nil => simp [fileName?, hfile] at hname
      | cons a path =>
        rw [hroot, hfile] at hprefix hclimb hdirect
        rw [hroot, List.tail_cons] at htail
        by_cases hdot : c = .current
        · subst hdot
          cases a with
          | root =>
            have hhead := isAbsolute_iff (p := root)
            rw [← habs, isAbsolute_iff, hfile, hroot] at hhead
            simp at hhead
          | current =>
            refine hdirect (hclimb fun cs hcs => ?_) rfl
            have hway : wayFrom? [] path base = some cs := by simpa [wayFrom?] using hcs
            exact head?_of_wayFrom? htail (fun h => hprefix (List.cons_prefix_cons.2 ⟨rfl, h⟩)) hway
          | parent =>
            refine hdirect (hclimb fun cs hcs => ?_) rfl
            have hway := wayFrom?_singleton .parent path htail
            simp only [wayFrom?, List.isEmpty_nil, true_and, reduceCtorEq, if_false, if_true,
              List.nil_append, hway] at hcs
            split at hcs
            · cases hcs
            · obtain rfl := Option.some.inj hcs
              rfl
          | name a =>
            rw [← hroot, ← hfile]
            exact components_placeUnder_of_dot hname hout hroot hfile
        · refine hdirect (hclimb fun cs => head?_of_wayFrom? ?_ hprefix) ?_
          · simpa [Ne.symm hdot] using htail
          · cases c <;> first | rfl | exact absurd rfl hdot
  · -- the root is absolute and the file is not: there is no way at all
    have hfile : file.isAbsolute = false := by
      cases h : file.isAbsolute with
      | false => rfl
      | true => exact absurd ⟨h, by simpa [h] using habs⟩ hstays
    have hroot : root.isAbsolute = true := by simpa [hfile] using habs
    obtain ⟨base, hbase⟩ := List.head?_eq_some_iff.1 (isAbsolute_iff.1 hroot)
    refine hdirect (placeUnder_of_none ?_ hname) (by rw [hbase]; rfl)
    rw [stripBase?_eq_none hout, Option.none_or, relativeTo?, if_neg habs, hfile]
    rfl

end

theorem head?_detour (t : Text) (root file : List Component) :
    ∃ a cs, detour t root file = .name a :: cs := by
  unfold detour
  split
  · split
    · exact ⟨t, [], rfl⟩
    · exact ⟨_, _, rfl⟩
  · exact ⟨t, [], rfl⟩

/-! ## The components of declaration files -/

theorem declared_append (out : List Component) {cs : List Component} (hne : cs ≠ []) :
    declared (out ++ cs) = out ++ declared cs := by
  obtain ⟨dir, c, rfl⟩ : ∃ dir c, cs = dir ++ [c] :=
    ⟨_, _, (List.dropLast_concat_getLast hne).symm⟩
  cases c with
  | name t => rw [← List.append_assoc, declared_concat, declared_concat, List.append_assoc]
  | root | current | parent => simp [declared]

theorem components_join_of_name {p q : Path} {a : Text} {cs : List Component}
    (hq : q.components = .name a :: cs) : (p.join q).components = p.components ++ q.components := by
  have hrelative : q.isAbsolute = false := by
    rw [Bool.eq_false_iff]
    intro habs
    simp [isAbsolute_iff, hq] at habs
  by_cases hp : p.text = []
  · rw [show p = ⟨[]⟩ from congrArg Path.mk hp]
    simp [join]
  · rw [components_join hp hrelative, inner_eq_self (by simp [hq])]

theorem liesIn_iff {p dir : Path} :
    p.liesIn dir = true ↔ ∃ c cs, p.components = dir.components ++ c :: cs := by
  rw [liesIn, Bool.and_eq_true, Bool.not_eq_true', same_eq_false_iff, startsWith,
    List.isPrefixOf_iff_prefix]
  constructor
  · rintro ⟨⟨rest, hrest⟩, hne⟩
    cases rest with
    | nil => exact absurd (by simpa using hrest.symm) hne
    | cons c cs => exact ⟨c, cs, hrest.symm⟩
  · rintro ⟨c, cs, hcs⟩
    exact ⟨⟨c :: cs, hcs.symm⟩, by simp [hcs]⟩

theorem liesIn_of_append {p dir : Path} {cs : List Component} (hne : cs ≠ [])
    (h : p.components = dir.components ++ declared cs) : p.liesIn dir = true := by
  have hlen : declared cs ≠ [] := by
    rw [← List.length_pos_iff, length_declared]
    exact List.length_pos_iff.2 hne
  obtain ⟨c, cs', hcs⟩ := List.exists_cons_of_ne_nil hlen
  exact liesIn_iff.2 ⟨c, cs', by rw [h, hcs]⟩

/-- The declaration file of a source that strays stands beside the source. -/
theorem components_output_of_strays {root file : Path} (outdir : Path) (h : Strays root file) :
    (output root outdir file).components = declared file.components := by
  obtain ⟨hfile, hroot⟩ := h
  obtain ⟨cs, hcs⟩ := List.head?_eq_some_iff.1 (isAbsolute_iff.1 hfile)
  obtain ⟨place, hplace, hcomponents⟩ : ∃ place,
      (file.stripBase? root).or (file.relativeTo? root) = some place ∧
        place.components = file.components := by
    cases hstrip : file.stripBase? root with
    | none => exact ⟨file, by simp [relativeTo?, hfile, hroot], rfl⟩
    | some place =>
      have hparts := components_stripBase? hstrip
      have hnil : root.components = [] := by
        cases hbase : root.components with
        | nil => rfl
        | cons c base =>
          rw [hbase, hcs] at hparts
          obtain ⟨rfl, -⟩ := List.cons.inj hparts
          have habs : root.isAbsolute = true := isAbsolute_iff.2 (by rw [hbase]; rfl)
          rw [hroot] at habs
          cases habs
      exact ⟨place, by simp, by simpa [hnil] using hparts.symm⟩
  have habs : place.isAbsolute = true := isAbsolute_iff.2 (by rw [hcomponents, hcs]; rfl)
  rw [components_output, placeUnder_of_some hplace, hcomponents, hcs, if_neg (by simp), join, habs,
    Bool.true_or, if_pos rfl, hcomponents, hcs]

/-- What does not start at the root of all files lands in the output directory. -/
theorem exists_landing_eq (out : List Component) {cs : List Component} {t : Text}
    (hlast : cs.getLast? = some (.name t)) (hroot : cs.head? ≠ some .root) :
    ∃ cs', cs' ≠ [] ∧ landing out cs = out ++ cs' := by
  unfold landing
  split
  · exact absurd rfl hroot
  · exact ⟨_, by simp [hlast], rfl⟩
  · rename_i cs
    split
    · rename_i hout
      rw [List.isEmpty_iff.1 hout]
      exact ⟨_, List.cons_ne_nil _ cs, rfl⟩
    · refine ⟨cs, ?_, rfl⟩
      rintro rfl
      simp at hlast
  · refine ⟨cs, ?_, rfl⟩
    rintro rfl
    simp at hlast

section

variable {root outdir file : Path} {t : Text} (hname : file.fileName? = some t)
include hname

variable (outdir) in
/-- The declaration file of a source outside the root. -/
theorem components_output_of_outside (hout : file.startsWith root = false)
    (hstays : ¬ Strays root file) :
    (output root outdir file).components =
      outdir.components ++ declared (detour t root.components file.components) := by
  have hplace := components_placeUnder_of_outside hname hout hstays
  obtain ⟨a, cs, hdetour⟩ := head?_detour t root.components file.components
  rw [components_output, components_join_of_name (hplace.trans hdetour), hplace,
    declared_append _ (by simp [hdetour])]

/-- The declaration file of a source at or behind the root: beside the output directory if the source
is the root itself, and in the directory otherwise. -/
theorem liesIn_output_of_under (hunder : file.startsWith root = true) (hstays : ¬ Strays root file) :
    (output root outdir file).liesIn outdir = !file.same root := by
  obtain ⟨rest, hrest⟩ := List.isPrefixOf_iff_prefix.1 hunder
  have hbehind : behind root file = rest := by rw [behind, ← hrest, List.drop_left]
  have hcomponents : (output root outdir file).components =
      declared (landing outdir.components rest) := by
    obtain ⟨place, hplace⟩ : ∃ place, file.stripBase? root = some place := by
      rw [stripBase?, hunder, if_pos rfl]
      split <;> exact ⟨_, rfl⟩
    rw [components_output_of_place hplace hname, hbehind]
  cases rest with
  | nil =>
    have hsame : file.same root = true := same_iff.2 (by rw [← hrest, List.append_nil])
    rw [hsame, Bool.not_true, Bool.eq_false_iff, Ne, liesIn_iff]
    rintro ⟨c, cs, hcs⟩
    have hlen := congrArg List.length (hcomponents.symm.trans hcs)
    rw [length_declared] at hlen
    simp [landing] at hlen
  | cons c cs =>
    have hsame : file.same root = false := by
      rw [same_eq_false_iff, ← hrest]
      simp
    have hlast : (c :: cs).getLast? = some (.name t) := by
      rw [← fileName?_eq_some.1 hname, ← hrest, List.getLast?_append,
        List.getLast?_eq_some_getLast (List.cons_ne_nil c cs), Option.some_or]
    have hhead : (c :: cs).head? ≠ some .root := by
      intro hc
      obtain rfl : c = .root := by simpa using hc
      by_cases hbase : root.components = []
      · have hroot : root.isAbsolute = false := by
          rw [Bool.eq_false_iff, Ne, isAbsolute_iff, hbase]
          simp
        exact hstays ⟨isAbsolute_iff.2 (by rw [← hrest, hbase]; rfl), hroot⟩
      · exact (mem_behind (p := file) (c := .root) hbase (by simp [hbehind])).1 rfl
    obtain ⟨cs', hne, hlanding⟩ := exists_landing_eq outdir.components hlast hhead
    rw [hsame, Bool.not_false]
    exact liesIn_of_append hne (by rw [hcomponents, hlanding, declared_append _ hne])

/-- Directly in the output directory stands what has no way but its own name. -/
theorem declared_detour_eq_iff (root : Path) :
    declared (detour t root.components file.components) = [.name (declarationName t)] ↔
      detour t root.components file.components = [.name t] := by
  constructor
  · intro h
    have hlen := congrArg List.length h
    rw [length_declared, List.length_singleton, List.length_eq_one_iff] at hlen
    obtain ⟨c, hc⟩ := hlen
    unfold detour at hc ⊢
    split at hc
    · rename_i base a path hroot hfile
      split at hc
      · rename_i hclimb
        rw [if_pos hclimb]
      · rename_i hclimb
        rw [if_neg hclimb]
        simp only [List.cons_append, List.cons.injEq, List.append_eq_nil_iff, List.map_eq_nil_iff] at hc
        obtain ⟨-, rfl, rfl⟩ := hc
        simpa [fileName?_eq_some, hfile] using hname
    · rfl
  · intro h
    rw [h]
    rfl

variable (outdir) in
/-- A source that strays lies in the output directory if its own directory does. -/
theorem liesIn_output_of_strays (hstrays : Strays root file) :
    ((output root outdir file).liesIn outdir = true ↔
      outdir.components <+: file.components.dropLast) ∧
    ((output root outdir file).components = outdir.components ++ [.name (declarationName t)] ↔
      outdir.components = file.components.dropLast) := by
  obtain ⟨dir, hdir⟩ := List.getLast?_eq_some_iff.1 (fileName?_eq_some.1 hname)
  have hcomponents := components_output_of_strays outdir hstrays
  rw [hdir, declared_concat] at hcomponents
  rw [hdir, List.dropLast_concat]
  constructor
  · rw [liesIn, Bool.and_eq_true, Bool.not_eq_true', same_eq_false_iff, startsWith,
      List.isPrefixOf_iff_prefix, hcomponents, List.prefix_concat_iff]
    constructor
    · rintro ⟨h | h, hne⟩
      · exact absurd h.symm hne
      · exact h
    · refine fun h => ⟨.inr h, fun heq => ?_⟩
      have hlen := h.length_le
      rw [← heq, List.length_append, List.length_singleton] at hlen
      omega
  · rw [hcomponents, List.append_left_inj]
    exact eq_comm

/-- **Which declaration files lie in the output directory**: all but those of the root itself and of
sources that stray, for which it is chance. Of the sources outside the root, those land directly in the
directory that neither stray nor make a detour. -/
theorem liesIn_output_iff :
    ((output root outdir file).liesIn outdir = true ↔
      file.same root = false ∧ (Strays root file → outdir.components <+: file.components.dropLast)) ∧
    (file.startsWith root = false →
      ((output root outdir file).components = outdir.components ++ [.name (declarationName t)] ↔
        if Strays root file then outdir.components = file.components.dropLast
        else detour t root.components file.components = [.name t])) := by
  by_cases hstrays : Strays root file
  · have hsame : file.same root = false := by
      rw [same_eq_false_iff]
      intro h
      have habs := isAbsolute_iff.1 hstrays.1
      rw [h, ← isAbsolute_iff, hstrays.2] at habs
      cases habs
    obtain ⟨hin, hdirect⟩ := liesIn_output_of_strays outdir hname hstrays
    simp only [hsame, hstrays, true_and, forall_const, if_true, hin, hdirect, implies_true, and_self]
  · cases hunder : file.startsWith root with
    | true =>
      rw [liesIn_output_of_under hname hunder hstrays]
      simp [hstrays]
    | false =>
      have hcomponents := components_output_of_outside outdir hname hunder hstrays
      obtain ⟨a, cs, hdetour⟩ := head?_detour t root.components file.components
      have hsame : file.same root = false := by
        rw [Bool.eq_false_iff]
        intro h
        have hprefix : file.startsWith root = true :=
          List.isPrefixOf_iff_prefix.2 (same_iff.1 h ▸ List.prefix_rfl)
        rw [hunder] at hprefix
        cases hprefix
      refine ⟨?_, fun _ => ?_⟩
      · simp [hsame, hstrays, liesIn_of_append (by simp [hdetour]) hcomponents]
      · rw [if_neg hstrays, hcomponents, List.append_right_inj, declared_detour_eq_iff hname]

end

/-- Outside an absolute root a source lands directly in the output directory; outside a relative one it
need not land there at all. -/
theorem not_liesIn_output_elsewhere :
    let file : Path := "/elsewhere/lib.ts"
    file.fileName? = some "lib.ts".toList ∧
      (output "/project/src" "/out" file).components =
        [.root, .name "out".toList, .name "lib.d.ts".toList] ∧
      (output "./src" "./dist" file).liesIn "./dist" = false := by
  intro file
  have hname : file.fileName? = some "lib.ts".toList := by decide
  refine ⟨hname, ?_, ?_⟩
  · exact ((liesIn_output_iff hname).2 (by decide)).2 (by decide)
  · rw [Bool.eq_false_iff]
    intro h
    have hprefix := ((liesIn_output_iff hname).1.1 h).2 (by decide)
    exact absurd (List.isPrefixOf_iff_prefix.2 hprefix) (by decide)

end Ambient.Path
