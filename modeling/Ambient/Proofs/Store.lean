/-
The store as a map: what a look-up finds behind each operation.

Paths with the same components are one key, so the laws speak of `same` and not of equality. A look-up
finds a file with the spelling of its path in the store, and a store is known by what its look-ups
find (`ext_fileAt?`).
-/
import Ambient.Proofs.Path.Components
import Ambient.Store
import Mathlib.Data.List.Sort

namespace Ambient

/-- What a glob selects is under the root. -/
theorem startsWith_of_isSelected {globs : List Glob} {root p : Path}
    (h : isSelected globs root p = true) : p.startsWith root = true := by
  rw [isSelected, Bool.and_eq_true, Option.any_eq_true] at h
  obtain ⟨-, place, hplace, -⟩ := h
  exact List.isPrefixOf_iff_prefix.2 ⟨_, (Path.components_stripBase? hplace).symm⟩

namespace Store

open Ambient.Path (same_iff same_eq_false_iff)

/-- The file at a path, with the spelling of its path in the store. -/
def fileAt? (s : Store) (path : Path) : Option (Path × Text) :=
  s.files.find? (·.1.same path)

/-- The file at a path behind a text that is put there. The spelling of a file that was there stays. -/
def putFile (path : Path) (text : Text) (file : Option (Path × Text)) : Option (Path × Text) :=
  some ((file.map (·.1)).getD path, text)

theorem get?_eq_map_fileAt? (s : Store) (path : Path) : s.get? path = (s.fileAt? path).map (·.2) :=
  rfl

theorem same_eq_false_of_same {p q r : Path} (h : p.same q = false) (hp : p.same r = true) :
    q.same r = false := by
  rw [same_eq_false_iff] at h ⊢
  exact fun hq => h ((same_iff.1 hp).trans hq.symm)

/-! ## Insertion -/

theorem find?_eq_none_of_lt {path q : Path} {files : List (Path × Text)}
    (h : ∀ f ∈ files, path.compare f.1 = .lt) (hq : path.same q = true) :
    files.find? (·.1.same q) = none := by
  rw [List.find?_eq_none]
  intro f hf hsame
  have heq : path.compare f.1 = .eq := by
    rw [Path.compare_eq_iff, same_iff.1 hq, same_iff.1 hsame]
  rw [h f hf] at heq
  cases heq

theorem find?_insertSorted (path q : Path) (text : Text) {files : List (Path × Text)}
    (h : Ascending files) :
    (insertSorted path text files).find? (·.1.same q) =
      if path.same q then putFile path text (files.find? (·.1.same q))
      else files.find? (·.1.same q) := by
  fun_induction insertSorted path text files with
  | case1 =>
    simp only [List.find?_cons, List.find?_nil]
    split <;> simp_all [putFile]
  | case2 p t rest hlt =>
    -- all files stand behind the new one, so none of them has its path
    have hbehind : ∀ f ∈ (p, t) :: rest, path.compare f.1 = .lt := by
      intro f hf
      rcases List.mem_cons.1 hf with rfl | hf
      · exact hlt
      · exact Std.TransCmp.lt_trans hlt ((List.pairwise_cons.1 h).1 f hf)
    rw [List.find?_cons]
    cases hq : path.same q with
    | false => rfl
    | true =>
      rw [find?_eq_none_of_lt hbehind hq]
      rfl
  | case3 p t rest heq =>
    have hp : p.same q = path.same q := by
      simp only [Path.same, Path.compare_eq_iff.1 heq]
    simp only [List.find?_cons, hp]
    cases path.same q <;> rfl
  | case4 p t rest hgt ih =>
    simp only [List.find?_cons]
    cases hp : p.same q with
    | false => exact ih (List.pairwise_cons.1 h).2
    | true =>
      have hpath : path.same q = false := by
        rw [same_eq_false_iff, ← same_iff.1 hp, Ne, ← Path.compare_eq_iff, hgt]
        simp
      simp [hpath]

theorem fileAt?_insert (s : Store) (path q : Path) (text : Text) :
    (s.insert path text).fileAt? q =
      if path.same q then putFile path text (s.fileAt? q) else s.fileAt? q :=
  find?_insertSorted path q text s.ascending

theorem get?_insert (s : Store) (path q : Path) (text : Text) :
    (s.insert path text).get? q = if path.same q then some text else s.get? q := by
  rw [get?_eq_map_fileAt?, fileAt?_insert]
  split <;> rfl

/-! ## Removal -/

theorem startsWith_congr {p q : Path} (h : p.same q = true) (dir : Path) :
    p.startsWith dir = q.startsWith dir := by
  simp only [Path.startsWith, same_iff.1 h]

theorem fileAt?_eraseTree (s : Store) (dir q : Path) :
    (s.eraseTree dir).fileAt? q = if q.startsWith dir then none else s.fileAt? q := by
  simp only [fileAt?, eraseTree, List.find?_filter]
  split
  · rename_i hq
    rw [List.find?_eq_none]
    intro f _ hf
    simp only [Bool.not_eq_true', decide_eq_true_eq] at hf
    rw [startsWith_congr hf.2, hq] at hf
    cases hf.1
  · rename_i hq
    congr 1
    funext f
    cases hf : f.1.same q with
    | false => simp
    | true => simp [startsWith_congr hf, hq]

theorem get?_eraseTree (s : Store) (dir q : Path) :
    (s.eraseTree dir).get? q = if q.startsWith dir then none else s.get? q := by
  rw [get?_eq_map_fileAt?, fileAt?_eraseTree]
  split <;> rfl

/-! ## A store and its files -/

theorem isSome_get?_of_mem_paths {s : Store} {p : Path} (h : p ∈ s.paths) : (s.get? p).isSome := by
  obtain ⟨f, hf, rfl⟩ := List.mem_map.1 h
  rw [get?, Option.isSome_map, List.find?_isSome]
  exact ⟨f, hf, same_iff.2 rfl⟩

/-- The paths of a store are pairwise different files. -/
theorem paths_pairwise (s : Store) : s.paths.Pairwise fun p q => p.same q = false := by
  refine List.pairwise_map.2 (s.ascending.imp fun {f g} hlt => ?_)
  rw [same_eq_false_iff, Ne, ← Path.compare_eq_iff, hlt]
  simp

theorem mem_files_iff {s : Store} {f : Path × Text} : f ∈ s.files ↔ s.fileAt? f.1 = some f := by
  constructor
  · intro hf
    obtain ⟨before, behind, hfiles⟩ := List.append_of_mem hf
    have hdistinct := List.pairwise_map.1 s.paths_pairwise
    rw [hfiles, List.pairwise_append] at hdistinct
    rw [fileAt?, List.find?_eq_some_iff_append]
    refine ⟨same_iff.2 rfl, before, behind, hfiles, fun g hg => ?_⟩
    simp [hdistinct.2.2 g hg f (by simp)]
  · exact List.mem_of_find?_eq_some

/-- A list in the order of paths is known by its members. -/
theorem eq_of_ascending {α : Type} {key : α → Path} {l l' : List α}
    (hl : l.Pairwise fun a b => (key a).compare (key b) = .lt)
    (hl' : l'.Pairwise fun a b => (key a).compare (key b) = .lt) (hmem : ∀ a, a ∈ l ↔ a ∈ l') :
    l = l' := by
  let before (a b : α) : Prop := (key a).compare (key b) = .lt
  have hirrefl : Std.Irrefl before := ⟨fun a ha => by
    simp only [before, Std.ReflCmp.compare_self] at ha
    cases ha⟩
  have hantisymm : Std.Antisymm before := ⟨fun a b hab hba => by
    have hswap : (key a).compare (key b) = ((key b).compare (key a)).swap := Std.OrientedCmp.eq_swap
    rw [show (key b).compare (key a) = .lt from hba, show (key a).compare (key b) = .lt from hab]
      at hswap
    cases hswap⟩
  exact List.Pairwise.eq_of_mem_iff (r := before) hl hl' hmem

/-- The files whose paths meet a condition are known by the look-ups there. -/
theorem filter_files_congr {s t : Store} (meets : Path → Bool)
    (h : ∀ q, meets q = true → s.fileAt? q = t.fileAt? q) :
    s.files.filter (meets ·.1) = t.files.filter (meets ·.1) := by
  refine eq_of_ascending (s.ascending.sublist List.filter_sublist)
    (t.ascending.sublist List.filter_sublist) fun f => ?_
  simp only [List.mem_filter, mem_files_iff]
  refine and_congr_left fun hf => ?_
  rw [h f.1 hf]

/-- A store is known by its files and the read-only ones. -/
theorem ext_fileAt? {s t : Store} (h : ∀ q, s.fileAt? q = t.fileAt? q)
    (hreadOnly : s.readOnly = t.readOnly) : s = t := by
  have hfiles : s.files = t.files := by
    simpa using filter_files_congr (fun _ => true) fun q _ => h q
  cases s
  cases t
  simp_all

/-- Texts at different paths can be put in either order. -/
theorem insert_comm (s : Store) {p q : Path} (h : p.same q = false) (t u : Text) :
    (s.insert p t).insert q u = (s.insert q u).insert p t := by
  refine ext_fileAt? (fun r => ?_) rfl
  simp only [fileAt?_insert]
  cases hp : p.same r with
  | false => simp
  | true => simp [same_eq_false_of_same h hp]

/-- The sources of a store are those of its paths that the globs select. -/
theorem eq_filter_of_sources {s : Store} {root : Path} {entrypoints : List Text} {found : List Path}
    (h : s.sources root entrypoints = .ok found) :
    ∃ globs, compileEntrypoints entrypoints = .ok globs ∧
      found = s.paths.filter (isSelected globs root) := by
  simp only [sources, bind, Except.bind] at h
  split at h
  · cases h
  · rename_i globs hglobs
    cases h
    exact ⟨globs, hglobs, rfl⟩

/-- Two actions on a store, one after the other. -/
theorem run_bind {α β : Type} (x : StateM Store α) (f : α → StateM Store β) (store : Store) :
    (x >>= f).run store = (f (x.run store).1).run (x.run store).2 :=
  rfl

end Store

end Ambient
