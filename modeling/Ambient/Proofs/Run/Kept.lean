/-
Sources outlive a run.

A run takes a source away only by cleaning the output directory. All it writes are declaration files,
in each turn of each source and so in every order of the turns (`fileAt?_next`, `fileAt?_takeTurns`).
Cleaning removes by the components of paths as they are spelled, whereas settings are checked on
absolute paths. A source under both directories makes one of them a prefix of the other as spelled,
and so as seen from the working directory (`Path.startsWith_absolute`): what is left of accepted
settings is an output directory inside the root (`Accepted.not_under_outdir`).
-/
import Ambient.Proofs.Path.Normal
import Ambient.Proofs.Run.Repeat
import Ambient.Settings.Issue

namespace Ambient

namespace Settings

/-- What the check of settings promises of those it accepts. -/
structure Accepted (cwd : Path) (s : Settings) : Prop where
  root : s.root.text ≠ []
  outdir : s.outdir.text ≠ []
  /-- Cleaning does not take the root away. -/
  keepsRoot : s.clean = true →
    (Path.absolute cwd s.root).startsWith (Path.absolute cwd s.outdir) = false
  globs : ∃ globs, compileEntrypoints s.entrypoints = .ok globs

theorem exists_compileEntrypoints {entrypoints : List Text}
    (h : ∀ t ∈ entrypoints, globIssue? t = none) :
    ∃ globs, compileEntrypoints entrypoints = .ok globs := by
  induction entrypoints with
  | nil => exact ⟨[], rfl⟩
  | cons t rest ih =>
    obtain ⟨globs, hglobs⟩ := ih fun u hu => h u (by simp [hu])
    have ht := h t (by simp)
    unfold globIssue? at ht
    cases hparse : Glob.parse t with
    | error e => simp [hparse] at ht
    | ok glob =>
      refine ⟨glob :: globs, ?_⟩
      unfold compileEntrypoints at hglobs ⊢
      rw [List.mapM_cons, hglobs, hparse]
      rfl

theorem issues_eq_nil_of_validate {cwd : Path} {s t : Settings} (h : s.validate cwd = .ok t) :
    s.issues cwd = [] := by
  unfold validate at h
  split at h
  · assumption
  · cases h

theorem Accepted.of_validate {cwd : Path} {s t : Settings} (h : s.validate cwd = .ok t) :
    Accepted cwd s := by
  have hissues := issues_eq_nil_of_validate h
  simp only [issues, List.append_eq_nil_iff] at hissues
  obtain ⟨⟨hpaths, hclean⟩, hentrypoints⟩ := hissues
  simp only [pathIssues, List.append_eq_nil_iff, ite_eq_right_iff, List.cons_ne_nil, imp_false,
    List.isEmpty_iff] at hpaths
  obtain ⟨⟨hroot, houtdir⟩, -⟩ := hpaths
  refine ⟨hroot, houtdir, ?_, ?_⟩
  · intro hasked
    simpa [cleanIssues, hasked, houtdir] using hclean
  · unfold entrypointIssues at hentrypoints
    split at hentrypoints
    · cases hentrypoints
    · exact exists_compileEntrypoints (List.filterMap_eq_nil_iff.1 hentrypoints)

/-- Where the output directory does not lie in the root, a file under the root is not under it. -/
theorem Accepted.not_under_outdir {cwd : Path} {s : Settings} (h : s.Accepted cwd)
    (hroot : .parent ∉ s.root.components) (houtdir : .parent ∉ s.outdir.components)
    (hinside : (Path.absolute cwd s.outdir).liesIn (Path.absolute cwd s.root) = false)
    (hclean : s.clean = true) {p : Path} (hp : p.startsWith s.root = true) :
    p.startsWith s.outdir = false := by
  rw [Bool.eq_false_iff]
  intro hunder
  have hkeeps := h.keepsRoot hclean
  -- both directories are starts of the same path, so one of them is a start of the other
  rcases List.prefix_or_prefix_of_prefix (List.isPrefixOf_iff_prefix.1 hunder)
    (List.isPrefixOf_iff_prefix.1 hp) with habove | hbelow
  · have habove : s.root.startsWith s.outdir = true := List.isPrefixOf_iff_prefix.2 habove
    rw [Path.startsWith_absolute cwd h.outdir hroot habove] at hkeeps
    cases hkeeps
  · have hbelow : s.outdir.startsWith s.root = true := List.isPrefixOf_iff_prefix.2 hbelow
    have hsame : (Path.absolute cwd s.outdir).same (Path.absolute cwd s.root) = true := by
      simpa [Path.liesIn, Path.startsWith_absolute cwd h.root houtdir hbelow] using hinside
    rw [Path.startsWith, Path.same_iff.1 hsame, List.isPrefixOf_iff_prefix.2 List.prefix_rfl] at hkeeps
    cases hkeeps

end Settings

namespace Run

open Store (run_bind)

/-! ## Work on sources -/

section Work

variable (s : Settings) {p : Path} (hp : p.isSource = true)

include hp

/-- Writing a declaration file touches no source. -/
theorem fileAt?_write_target (source : Path) (text : Text) (store : Store) :
    (store.write (target s source) text).2.fileAt? p = store.fileAt? p := by
  unfold Store.write
  split
  · rfl
  · rw [Store.fileAt?_insert, same_target_of_isSource s hp]
    rfl

theorem fileAt?_finishFile (source : Path) (text : Except Failure Text) (store : Store) :
    ((finishFile Store.fileOps s source text).run store).2.fileAt? p = store.fileAt? p := by
  cases text with
  | error e => rfl
  | ok text =>
    cases text with
    | nil => rfl
    | cons c rest =>
      rw [← fileAt?_write_target s hp source (c :: rest) store]
      show (StateT.run (Store.fileOps.write (target s source) (c :: rest) >>= _) store).2.fileAt? p = _
      rw [run_bind]
      split <;> rfl

theorem fileAt?_generateAll (sources : List Path) (store : Store) :
    ((generateAll Store.fileOps s sources).run store).2.fileAt? p = store.fileAt? p := by
  induction sources generalizing store with
  | nil => rfl
  | cons source rest ih => exact (ih _).trans (fileAt?_finishFile s hp source _ store)

/-- A turn of any source, whatever the turns before it. -/
theorem fileAt?_next (source : Path) (stage : Stage) (store : Store) :
    ((stage.next Store.fileOps s source).run store).2.fileAt? p = store.fileAt? p := by
  cases stage with
  | waiting => rfl
  | extracted text => exact fileAt?_finishFile s hp source text store
  | finished outcome => rfl

theorem fileAt?_takeTurns (schedule : List Path) (g : Progress) (store : Store) :
    ((takeTurns Store.fileOps s schedule g).run store).2.fileAt? p = store.fileAt? p := by
  induction schedule generalizing g store with
  | nil => rfl
  | cons source rest ih => exact (ih _ _).trans (fileAt?_next s hp source (g source) store)

theorem fileAt?_generateAllBy (order : List Path → List Path) (sources : List Path) (store : Store) :
    ((generateAllBy order Store.fileOps s sources).run store).2.fileAt? p = store.fileAt? p := by
  unfold generateAllBy
  split
  · exact fileAt?_takeTurns s hp (order sources) _ store
  · exact fileAt?_generateAll s hp sources store

end Work

/-! ## A whole run -/

/-- A run keeps a file that it does not clean away and that the work on sources keeps. -/
theorem fileAt?_generateWith (parse? : Text → Option Isolation.Project) {s : Settings} {p : Path}
    {work : List Path → StateM Store (Log × List (Path × Outcome))}
    (hkept : s.clean = true → p.startsWith s.outdir = false)
    (hwork : ∀ sources store, ((work sources).run store).2.fileAt? p = store.fileAt? p)
    (store : Store) :
    ((generateWith Store.fileOps parse? s work).run store).2.fileAt? p = store.fileAt? p := by
  have hcleaned : (cleaned s store).fileAt? p = store.fileAt? p := by
    rw [fileAt?_cleaned, if_neg]
    intro hgone
    obtain ⟨hclean, hunder⟩ := Bool.and_eq_true_iff.1 hgone
    rw [hkept hclean] at hunder
    cases hunder
  cases hcheck : ((Isolation.check Store.fileOps parse? s.tsconfig).run store).1 with
  | error e => rw [(generateWith_run_of_error work hcheck).2]
  | ok _ =>
    rw [(generateWith_run_of_ok work hcheck).2]
    cases hglobs : compileEntrypoints s.entrypoints with
    | error e =>
      obtain ⟨log, hrun⟩ := generateChecked_run_error work hglobs store
      rw [hrun, hcleaned]
    | ok globs =>
      obtain ⟨log, hrun⟩ := generateChecked_run work hglobs store
      rw [hrun, hwork, hcleaned]

/-- **A run on accepted settings keeps its sources.** However the root and the output directory are
spelled, when neither climbs and the output directory does not lie in the root: each source found
before the run is there after it and holds the same text, whatever the run returns. This is so in
whatever order the turns come of sources that are worked on at the same time, and where sources share
a declaration file too. -/
theorem generate_keeps_sources (parse? : Text → Option Isolation.Project) {cwd : Path} {s : Settings}
    (hvalid : s.validate cwd = .ok s) (hroot : .parent ∉ s.root.components)
    (houtdir : .parent ∉ s.outdir.components)
    (hinside : (Path.absolute cwd s.outdir).liesIn (Path.absolute cwd s.root) = false)
    (order : List Path → List Path) (store : Store) :
    ∃ found, store.sources s.root s.entrypoints = .ok found ∧
      ∀ p ∈ found, p ∈ ((generateBy order Store.fileOps parse? s).run store).2.paths ∧
        ((generateBy order Store.fileOps parse? s).run store).2.get? p = store.get? p := by
  have haccepted := Settings.Accepted.of_validate hvalid
  obtain ⟨globs, hglobs⟩ := haccepted.globs
  refine ⟨store.paths.filter (isSelected globs s.root), ?_, ?_⟩
  · rw [Store.sources, hglobs]
    rfl
  intro p hp
  obtain ⟨hpath, hselected⟩ := List.mem_filter.1 hp
  have hfile : ((generateBy order Store.fileOps parse? s).run store).2.fileAt? p =
      store.fileAt? p := by
    refine fileAt?_generateWith parse? (fun hclean => ?_)
      (fileAt?_generateAllBy s (mem_selected hp).1 order) store
    exact haccepted.not_under_outdir hroot houtdir hinside hclean (startsWith_of_isSelected hselected)
  refine ⟨?_, ?_⟩
  · obtain ⟨file, hfiles, rfl⟩ := List.mem_map.1 hpath
    rw [Store.mem_files_iff.1 hfiles] at hfile
    exact List.mem_map_of_mem (Store.mem_files_iff.2 hfile)
  · rw [Store.get?_eq_map_fileAt?, hfile, Store.get?_eq_map_fileAt?]

/-- Directories spelled in other ways, the name of one a part of the other's, and two sources with one
declaration file that are both read before either is settled. -/
theorem generate_keeps_sources_siblings :
    let parse? : Text → Option Isolation.Project := fun _ => some { isolated := some true }
    let cwd : Path := "/work"
    let s : Settings :=
      { root := "./src/.", outdir := "/work/./src-types//", entrypoints := ["**/*"], parallel := true }
    let order : List Path → List Path := fun sources => sources ++ sources.reverse
    let store := (((Store.insert {} "tsconfig.json" Store.isolatedProject).insert
      "./src/a.ts" "export const a = 1\n").insert "./src/a.tsx" "export const b = 2\n").insert
      "/work/src-types/b.ts" "export let b = 'x'\n"
    s.validate cwd = .ok s ∧ .parent ∉ s.root.components ∧ .parent ∉ s.outdir.components ∧
      (Path.absolute cwd s.outdir).liesIn (Path.absolute cwd s.root) = false ∧
      store.sources s.root s.entrypoints = .ok ["./src/a.ts", "./src/a.tsx"] ∧
      ∃ found, store.sources s.root s.entrypoints = .ok found ∧
        ∀ p ∈ found, p ∈ ((generateBy order Store.fileOps parse? s).run store).2.paths ∧
          ((generateBy order Store.fileOps parse? s).run store).2.get? p = store.get? p := by
  intro parse? cwd s order store
  have hvalid : s.validate cwd = .ok s := by decide +kernel
  have hroot : .parent ∉ s.root.components := by decide +kernel
  have houtdir : .parent ∉ s.outdir.components := by decide +kernel
  have hinside : (Path.absolute cwd s.outdir).liesIn (Path.absolute cwd s.root) = false := by
    decide +kernel
  exact ⟨hvalid, hroot, houtdir, hinside, by decide +kernel,
    generate_keeps_sources parse? hvalid hroot houtdir hinside order store⟩

end Run

end Ambient
