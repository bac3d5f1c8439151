/-
Where declaration files go: the components of `output`, by those of the source.

A source lands in the output directory at its components behind the root (`landing`), and its name
becomes that of a declaration file (`declared`). So a declaration file is never a source
(`isSource_output`), and what a run writes it does not read.
-/
import Ambient.Path.Relative
import Ambient.Proofs.Path.Components

namespace Ambient.Path

/-! ## Names of declaration files -/

theorem splitLastDot?_eq_some {t stem extension : Text} :
    splitLastDot? t = some (stem, extension) ↔ t = stem ++ '.' :: extension ∧ '.' ∉ extension := by
  simp only [splitLastDot?]
  have hall := List.takeWhile_append_dropWhile (p := (· != '.')) (l := t.reverse)
  constructor
  · intro h
    split at h
    · simp at h
    · rename_i c rest hdrop
      simp only [Option.some.injEq, Prod.mk.injEq] at h
      obtain ⟨rfl, rfl⟩ := h
      have hdot : c = '.' := by
        have := List.head_dropWhile_not (· != '.') (l := t.reverse) (by simp [hdrop])
        simpa [hdrop] using this
      rw [hdrop, hdot] at hall
      refine ⟨?_, ?_⟩
      · rw [← List.reverse_inj, ← hall]
        simp [hall]
      · intro hmem
        have := List.all_eq_true.1 (List.all_takeWhile (p := (· != '.'))) _ (List.mem_reverse.1 hmem)
        simp at this
  · rintro ⟨rfl, hdot⟩
    have hrev : ∀ c ∈ extension.reverse, (c != '.') = true := by
      intro c hc
      simp only [bne_iff_ne]
      rintro rfl
      exact hdot (List.mem_reverse.1 hc)
    simp only [List.reverse_append, List.reverse_cons, List.append_assoc, List.singleton_append]
    rw [List.dropWhile_append_of_pos hrev, List.takeWhile_append_of_pos hrev]
    simp

theorem declarationName_of_split {t stem extension : Text}
    (h : splitLastDot? t = some (stem, extension)) :
    declarationName t = stem ++ declarationEnding extension := by
  simp only [declarationName, h]

theorem declarationEnding_mem (extension : Text) : declarationEnding extension ∈ declarationEndings := by
  unfold declarationEnding
  split
  · decide
  split <;> decide

/-- The name of a declaration file is part of the name it comes from, and an ending. -/
theorem exists_declarationName (t : Text) :
    ∃ stem, stem ⊆ t ∧ ∃ ending ∈ declarationEndings, declarationName t = stem ++ ending := by
  cases h : splitLastDot? t with
  | none => exact ⟨t, fun _ hc => hc, ".d.ts".toList, by decide, by simp [declarationName, h]⟩
  | some parts =>
    obtain ⟨stem, extension⟩ := parts
    refine ⟨stem, ?_, _, declarationEnding_mem extension, declarationName_of_split h⟩
    rw [(splitLastDot?_eq_some.1 h).1]
    exact List.subset_append_left _ _

theorem declarationName_endsWith (t : Text) :
    declarationEndings.any (Text.endsWith (declarationName t)) = true := by
  obtain ⟨stem, -, ending, hmem, heq⟩ := exists_declarationName t
  rw [List.any_eq_true]
  refine ⟨ending, hmem, ?_⟩
  rw [heq, Text.endsWith, List.isSuffixOf_iff_suffix]
  exact List.suffix_append stem ending

theorem IsName.declarationName {t : Text} (h : IsName t) : IsName (declarationName t) := by
  obtain ⟨stem, hstem, ending, hmem, heq⟩ := exists_declarationName t
  have hending : 2 < ending.length ∧ '/' ∉ ending := by
    clear heq
    revert ending
    decide
  rw [heq]
  constructor
  · have hlen : 2 < (stem ++ ending).length := by
      rw [List.length_append]
      omega
    have hne : ∀ u : Text, u.length ≤ 2 → stem ++ ending ≠ u := by
      rintro u hu rfl
      omega
    simp [segment?, hne [] (by simp), hne ['.'] (by simp), hne ['.', '.'] (by simp)]
  · simp only [List.mem_append, not_or]
    exact ⟨fun hc => h.noSlash (hstem hc), hending.2⟩

/-! ## The components of a declaration file -/

/-- Components with the last name changed to that of its declaration file. -/
def declared (cs : List Component) : List Component :=
  match cs.getLast? with
  | some (.name t) => cs.dropLast ++ [.name (declarationName t)]
  | _ => cs

theorem IsName.of_fileName? {p : Path} {t : Text} (h : p.fileName? = some t) : IsName t :=
  .of_mem_components (List.mem_of_getLast? (fileName?_eq_some.1 h))

theorem declared_concat (cs : List Component) (t : Text) :
    declared (cs ++ [.name t]) = cs ++ [.name (declarationName t)] := by
  simp [declared]

theorem components_declarationName {p : Path} {t : Text} (h : p.fileName? = some t) :
    (p.withFileName (declarationName t)).components = declared p.components := by
  obtain ⟨cs, hcs⟩ := List.getLast?_eq_some_iff.1 (fileName?_eq_some.1 h)
  rw [components_withFileName h (IsName.of_fileName? h).declarationName, hcs, declared_concat,
    List.dropLast_concat]

theorem declared_of_fileName?_eq_none {p : Path} (h : p.fileName? = none) :
    declared p.components = p.components := by
  unfold declared
  split
  · rename_i t hlast
    rw [fileName?_eq_some.2 hlast] at h
    cases h
  · rfl

theorem components_output (root outdir file : Path) :
    (output root outdir file).components =
      declared (outdir.join (placeUnder root file)).components := by
  unfold output
  generalize outdir.join (placeUnder root file) = place
  dsimp only
  split
  · rename_i t ht
    exact components_declarationName ht
  · rename_i ht
    exact (declared_of_fileName?_eq_none ht).symm

theorem fileName?_congr {p q : Path} (h : p.components = q.components) : p.fileName? = q.fileName? := by
  simp only [fileName?, h]

/-- Whether a file is a source depends on its components alone. -/
theorem isSource_congr {p q : Path} (h : p.components = q.components) : p.isSource = q.isSource := by
  simp only [isSource, extension?, fileName?_congr h]

theorem isSource_iff {p : Path} : p.isSource = true ↔
    ∃ t stem extension, p.components.getLast? = some (.name t) ∧
      splitLastDot? t = some (stem, extension) ∧ stem ≠ [] ∧ extension ∈ sourceExtensions ∧
      declarationEndings.any (Text.endsWith t) = false := by
  simp only [isSource, extension?, Bool.and_eq_true, Option.any_eq_true]
  constructor
  · rintro ⟨⟨t, ht, hending⟩, extension, hext, hmem⟩
    simp only [ht, Option.bind_eq_bind, Option.bind_some, Option.bind_eq_some_iff] at hext
    obtain ⟨⟨stem, e⟩, hsplit, he⟩ := hext
    split at he
    · simp at he
    · rename_i hstem
      simp only [Option.some.injEq] at he
      subst he
      exact ⟨t, stem, e, fileName?_eq_some.1 ht, hsplit, by simpa using hstem, by simpa using hmem,
        by simpa using hending⟩
  · rintro ⟨t, stem, extension, ht, hsplit, hstem, hmem, hending⟩
    rw [← fileName?_eq_some] at ht
    refine ⟨⟨t, ht, by simp [hending]⟩, extension, ?_, by simpa using hmem⟩
    simp [ht, hsplit, hstem]

/-- A declaration file is no source. -/
theorem isSource_output (root outdir file : Path) : (output root outdir file).isSource = false := by
  rw [Bool.eq_false_iff]
  intro h
  obtain ⟨t, -, -, hlast, -, -, -, hending⟩ := isSource_iff.1 h
  rw [components_output, declared] at hlast
  split at hlast
  · simp only [List.getLast?_append, List.getLast?_singleton, Option.some_or, Option.some.injEq,
      Component.name.injEq] at hlast
    rw [← hlast, declarationName_endsWith] at hending
    simp at hending
  · rename_i hnone
    exact hnone _ hlast

/-! ## Where a source lands -/

/-- The components of a path behind those of the root. -/
def behind (root p : Path) : List Component :=
  p.components.drop root.components.length

/-- Where components behind the root lead under an output directory: a path from the root of all files
stays, one that climbs out of the root of the sources keeps its name only, and a dot shows only where
nothing stands before it. -/
def landing (out : List Component) : List Component → List Component
  | .root :: cs => .root :: cs
  | .parent :: cs => out ++ (Component.parent :: cs).getLast?.toList
  | .current :: cs => if out.isEmpty then .current :: cs else out ++ cs
  | cs => out ++ cs

theorem components_ne_nil {p : Path} (h : p.text ≠ []) : p.components ≠ [] := by
  rw [components_eq]
  obtain ⟨c, t, ht⟩ := List.exists_cons_of_ne_nil h
  cases habs : p.isAbsolute with
  | true => simp
  | false =>
    have hc : ¬c = '/' := by simpa [isAbsolute, ht] using habs
    obtain ⟨u, us, hu⟩ := List.exists_cons_of_ne_nil (List.splitOn_ne_nil '/' t)
    have hfirst : ∃ d, segment? true (c :: u) = some d := by
      simp only [segment?]
      split
      · rename_i hnil
        cases hnil
      split
      · exact ⟨_, rfl⟩
      split <;> exact ⟨_, rfl⟩
    obtain ⟨d, hd⟩ := hfirst
    have hsplit : (c :: t).splitOn '/' = (c :: u) :: us := by
      rw [List.splitOn_cons_eq_if_modifyHead, if_neg (by simpa using hc), hu]
      rfl
    simp [ht, hsplit, segments, hd]

theorem isAbsolute_iff {p : Path} : p.isAbsolute = true ↔ p.components.head? = some .root := by
  constructor
  · intro h
    simp [components_eq, h]
  · intro h
    cases habs : p.isAbsolute with
    | true => rfl
    | false =>
      rw [components_of_relative habs] at h
      cases hs : p.text.splitOn '/' with
      | nil => simp [hs, segments] at h
      | cons u us =>
        have hmem := List.mem_of_mem_head? h
        simp only [hs, segments, List.mem_append, Option.mem_toList, List.mem_filterMap] at hmem
        rcases hmem with hmem | ⟨v, -, hmem⟩
        · exact absurd hmem segment?_ne_root
        · exact absurd hmem segment?_ne_root

theorem startsWith_dots_iff {p : Path} :
    p.startsWith ⟨['.', '.']⟩ = true ↔ p.components.head? = some .parent := by
  have hdots : (Path.mk ['.', '.']).components = [.parent] := rfl
  rw [startsWith, hdots]
  cases p.components with
  | nil => simp
  | cons c cs =>
    simp only [List.isPrefixOf, Bool.and_true, beq_iff_eq, List.head?_cons, Option.some.injEq]
    exact eq_comm

/-- A place that climbs out of the root is given up for the file's name. -/
theorem placeUnder_of_some {root file place : Path}
    (h : (file.stripBase? root).or (file.relativeTo? root) = some place) :
    placeUnder root file =
      if place.components.head? = some .parent then ⟨file.fileName?.getD []⟩ else place := by
  have hclimb := startsWith_dots_iff (p := place)
  cases hdots : place.startsWith ⟨['.', '.']⟩ with
  | true => simp [placeUnder, h, Option.filter, hdots, hclimb.1 hdots]
  | false =>
    have hstay : place.components.head? ≠ some .parent := by
      intro hhead
      rw [hclimb.2 hhead] at hdots
      cases hdots
    simp [placeUnder, h, Option.filter, hdots, hstay]

theorem components_placeUnder {root file place : Path} {t : Text}
    (hplace : file.stripBase? root = some place) (hname : file.fileName? = some t) :
    (place.components.head? = some .parent → placeUnder root file = ⟨t⟩) ∧
      (place.components.head? ≠ some .parent → placeUnder root file = place) := by
  have hsome : (file.stripBase? root).or (file.relativeTo? root) = some place := by simp [hplace]
  constructor
  · intro h
    rw [placeUnder_of_some hsome, if_pos h, hname, Option.getD_some]
  · intro h
    rw [placeUnder_of_some hsome, if_neg h]

/-- A source stands in the output directory where its components behind the root land. -/
theorem components_join_placeUnder {root outdir file place : Path} {t : Text}
    (hplace : file.stripBase? root = some place) (hname : file.fileName? = some t)
    (hne : place.components ≠ []) :
    (outdir.join (placeUnder root file)).components =
      landing outdir.components place.components := by
  have hfile := components_stripBase? hplace
  obtain ⟨hclimb, hstay⟩ := components_placeUnder hplace hname
  have hlast : place.components.getLast? = some (.name t) := by
    have hsome := List.getLast?_eq_some_getLast hne
    rw [← fileName?_eq_some.1 hname, hfile, List.getLast?_append, hsome, Option.some_or]
  cases hcs : place.components with
  | nil => exact absurd hcs hne
  | cons c cs =>
    rw [hcs] at hclimb hstay hlast
    cases c with
    | root =>
      have habs : place.isAbsolute = true := isAbsolute_iff.2 (by simp [hcs])
      rw [hstay (by simp), join, habs, Bool.true_or, if_pos rfl, hcs]
      rfl
    | parent =>
      rw [hclimb rfl, components_join_name (IsName.of_fileName? hname)]
      simp [landing, hlast]
    | current | name =>
      have hrel : place.isAbsolute = false := by
        rw [Bool.eq_false_iff]
        intro habs
        simp [isAbsolute_iff, hcs] at habs
      rw [hstay (by simp)]
      by_cases hout : outdir.text = []
      · have : outdir = ⟨[]⟩ := congrArg Path.mk hout
        simp [this, join, hcs, landing]
      · have hne := components_ne_nil hout
        simp [components_join hout hrel, hcs, inner, landing, hne]

theorem components_output_of_place {root outdir file place : Path} {t : Text}
    (hplace : file.stripBase? root = some place) (hname : file.fileName? = some t) :
    (output root outdir file).components =
      declared (landing outdir.components (behind root file)) := by
  have hfile := components_stripBase? hplace
  have hbehind : behind root file = place.components := by
    rw [behind, hfile, List.drop_left]
  rw [components_output, hbehind]
  by_cases hne : place.components = []
  · -- The root is the source itself, and its place under the root is the empty path.
    have hempty : place.text = [] :=
      Decidable.byContradiction fun h => components_ne_nil h hne
    obtain ⟨-, hstay⟩ := components_placeUnder hplace hname
    rw [hstay (by simp [hne]), hne, show place = ⟨[]⟩ from congrArg Path.mk hempty]
    have hjoin : (outdir.join ⟨[]⟩).components = outdir.components := by
      by_cases hout : outdir.text = []
      · rw [show outdir = ⟨[]⟩ from congrArg Path.mk hout]
        rfl
      · rw [components_join hout rfl]
        simp [inner]
    rw [hjoin]
    simp [landing]
  · rw [components_join_placeUnder hplace hname hne]

end Ambient.Path
