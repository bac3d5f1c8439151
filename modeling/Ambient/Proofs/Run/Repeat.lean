/-
A run after a run.

The second run starts from another store than the first: stale files are gone and the declaration
files are there. Neither shows in the sources, so it finds the same sources with the same texts
(`fileAt?_cleaned_deliverAll`, `selected_cleaned_deliverAll`). It writes the same declaration files,
where sources share one in the same order, and so leaves what it found (`deliverAll_cleaned`). Only
the check of the project may end otherwise, since the first run may have removed or replaced a project
file.
-/
import Ambient.Proofs.Run.Memory
import Mathlib.Data.List.Induction

namespace Ambient.Run

open Store (run_bind putFile)

/-! ## One file of a run -/

/-- What a source makes of the file at a path. -/
def deliverAt (s : Settings) (before : Store) (path : Path) (file : Option (Path × Text))
    (source : Path) : Option (Path × Text) :=
  if isWritten s before source && (target s source).same path then
    putFile (target s source) (textOf s before source) file
  else file

section DeliverAt

variable (s : Settings) (before : Store) (path : Path)

theorem fileAt?_deliver (store : Store) (source : Path) :
    (deliver s before store source).fileAt? path =
      deliverAt s before path (store.fileAt? path) source := by
  unfold deliver deliverAt
  cases isWritten s before source with
  | false => rfl
  | true => exact Store.fileAt?_insert store (target s source) path (textOf s before source)

theorem fileAt?_deliverAll (sources : List Path) (store : Store) :
    (sources.foldl (deliver s before) store).fileAt? path =
      sources.foldl (deliverAt s before path) (store.fileAt? path) := by
  induction sources generalizing store with
  | nil => rfl
  | cons p rest ih => rw [List.foldl_cons, ih, fileAt?_deliver, List.foldl_cons]

/-- A file keeps its spelling, whatever is written to it. -/
theorem spelling_deliverAll (sources : List Path) (file : Path × Text) :
    ∃ text, sources.foldl (deliverAt s before path) (some file) = some (file.1, text) := by
  induction sources generalizing file with
  | nil => exact ⟨file.2, rfl⟩
  | cons p rest ih =>
    rw [List.foldl_cons, deliverAt]
    split
    · exact ih (file.1, textOf s before p)
    · exact ih file

/-- What all sources make of a file, they do not change when they are settled once more. -/
theorem deliverAll_deliverAll (sources : List Path) (file : Option (Path × Text)) :
    sources.foldl (deliverAt s before path) (sources.foldl (deliverAt s before path) file) =
      sources.foldl (deliverAt s before path) file := by
  -- from the last source on, since the last one that writes the file decides
  induction sources using List.reverseRecOn with
  | nil => rfl
  | append_singleton init p ih =>
    simp only [List.foldl_append, List.foldl_cons, List.foldl_nil]
    cases hwrites : isWritten s before p && (target s p).same path with
    | false =>
      have hstays : ∀ file, deliverAt s before path file p = file := by
        simp [deliverAt, hwrites]
      rw [hstays, hstays, ih]
    | true =>
      have hputs : ∀ file, deliverAt s before path file p =
          putFile (target s p) (textOf s before p) file := by
        simp [deliverAt, hwrites]
      obtain ⟨text, htext⟩ := spelling_deliverAll s before path init
        (((init.foldl (deliverAt s before path) file).map (·.1)).getD (target s p), textOf s before p)
      rw [hputs, hputs]
      simp only [putFile, htext, Option.map_some, Option.getD_some]

variable {path}

theorem deliverAll_of_isSource (h : path.isSource = true) (sources : List Path)
    (file : Option (Path × Text)) : sources.foldl (deliverAt s before path) file = file := by
  induction sources with
  | nil => rfl
  | cons p rest ih =>
    rw [List.foldl_cons, deliverAt, same_target_of_isSource s h, Bool.and_false, if_neg (by simp), ih]

end DeliverAt

/-! ## The store behind a run, cleaned -/

theorem fileAt?_cleaned (s : Settings) (store : Store) (path : Path) :
    (cleaned s store).fileAt? path =
      if s.clean && path.startsWith s.outdir then none else store.fileAt? path := by
  unfold cleaned
  cases s.clean with
  | true => simp [Store.fileAt?_eraseTree]
  | false => rfl

theorem readOnly_cleaned (s : Settings) (store : Store) :
    (cleaned s store).readOnly = store.readOnly := by
  unfold cleaned
  split <;> rfl

theorem readOnly_deliverAll (s : Settings) (before : Store) (sources : List Path) (store : Store) :
    (sources.foldl (deliver s before) store).readOnly = store.readOnly := by
  induction sources generalizing store with
  | nil => rfl
  | cons p rest ih =>
    rw [List.foldl_cons, ih, deliver]
    split <;> rfl

section Cleaned

variable (s : Settings) (store : Store) (sources : List Path)

/-- Cleaning the store that a run leaves does not change the sources. -/
theorem fileAt?_cleaned_deliverAll {path : Path} (h : path.isSource = true) :
    (cleaned s (sources.foldl (deliver s (cleaned s store)) (cleaned s store))).fileAt? path =
      (cleaned s store).fileAt? path := by
  rw [fileAt?_cleaned, fileAt?_deliverAll, deliverAll_of_isSource s _ h, fileAt?_cleaned]
  split <;> rfl

theorem agrees_cleaned_deliverAll :
    Agrees (cleaned s store)
      (cleaned s (sources.foldl (deliver s (cleaned s store)) (cleaned s store))) where
  sources p hp := by
    rw [Store.get?_eq_map_fileAt?, fileAt?_cleaned_deliverAll s store sources hp,
      Store.get?_eq_map_fileAt?]
  readOnly := by rw [readOnly_cleaned, readOnly_deliverAll]

theorem selected_cleaned_deliverAll (globs : List Glob) :
    (cleaned s (sources.foldl (deliver s (cleaned s store)) (cleaned s store))).paths.filter
        (isSelected globs s.root) =
      (cleaned s store).paths.filter (isSelected globs s.root) := by
  simp only [Store.paths, List.filter_map]
  congr 1
  refine Store.filter_files_congr (isSelected globs s.root) fun p hp => ?_
  rw [isSelected, Bool.and_eq_true] at hp
  exact fileAt?_cleaned_deliverAll s store sources hp.1

/-- The sources of a run settled once more, after the cleaning: the store is the same. -/
theorem deliverAll_cleaned :
    sources.foldl (deliver s (cleaned s store))
        (cleaned s (sources.foldl (deliver s (cleaned s store)) (cleaned s store))) =
      sources.foldl (deliver s (cleaned s store)) (cleaned s store) := by
  refine Store.ext_fileAt? (fun path => ?_) ?_
  · rw [fileAt?_deliverAll, fileAt?_cleaned, fileAt?_deliverAll]
    split
    · -- under the output directory nothing is left for either run to find
      rename_i hunder
      rw [fileAt?_cleaned, if_pos hunder]
    · exact deliverAll_deliverAll s _ path sources _
  · rw [readOnly_deliverAll, readOnly_cleaned]

end Cleaned

/-! ## Two runs -/

section Generate

variable {parse? : Text → Option Isolation.Project} {s : Settings} {store : Store}

/-- The part of a run behind the check, after itself. -/
theorem generateChecked_twice {globs : List Glob} (h : compileEntrypoints s.entrypoints = .ok globs)
    (store : Store) :
    let first := (generateChecked Store.fileOps s (generateAll Store.fileOps s)).run store
    let second := (generateChecked Store.fileOps s (generateAll Store.fileOps s)).run first.2
    second.1.2 = first.1.2 ∧ second.2 = first.2 := by
  intro first second
  obtain ⟨log, hfirst⟩ := generateChecked_run_ok h (rfl : cleaned s store = _) rfl
  obtain ⟨log', hsecond⟩ := generateChecked_run_of_agrees h
    (agrees_cleaned_deliverAll s store _) (selected_cleaned_deliverAll s store _ globs)
  rw [deliverAll_cleaned] at hsecond
  simp only [second, first, hfirst, hsecond, and_self]

theorem check_of_generate_ok {report : Report}
    (h : ((generate Store.fileOps parse? s).run store).1.2 = .ok report) :
    ((Isolation.check Store.fileOps parse? s.tsconfig).run store).1 = .ok () := by
  cases hcheck : ((Isolation.check Store.fileOps parse? s.tsconfig).run store).1 with
  | ok _ => rfl
  | error e =>
    rw [generate, (generateWith_run_of_error _ hcheck).1] at h
    cases h

/-- **A run after a run changes nothing.** Where the first run ends with a report, the second leaves
the store as the first left it, and it ends with the same report or refuses the project. -/
theorem generate_twice (parse? : Text → Option Isolation.Project) (s : Settings) (store : Store)
    {report : Report} (h : ((generate Store.fileOps parse? s).run store).1.2 = .ok report) :
    let first := (generate Store.fileOps parse? s).run store
    let second := (generate Store.fileOps parse? s).run first.2
    second.2 = first.2 ∧
      (second.1.2 = .ok report ∨
        ∃ reason, second.1.2 = .error (.precondition s.tsconfig reason)) := by
  intro first second
  let work := generateAll Store.fileOps s
  obtain ⟨hreport, hstore⟩ := generateWith_run_of_ok work (check_of_generate_ok h)
  cases hcheck : ((Isolation.check Store.fileOps parse? s.tsconfig).run first.2).1 with
  | error e =>
    obtain ⟨reason, rfl⟩ := Isolation.eq_precondition_of_failureOf hcheck
    obtain ⟨hresult, hkept⟩ := generateWith_run_of_error work hcheck
    exact ⟨hkept, .inr ⟨reason, hresult⟩⟩
  | ok _ =>
    obtain ⟨hresult, hleft⟩ := generateWith_run_of_ok work hcheck
    cases hglobs : compileEntrypoints s.entrypoints with
    | error e =>
      obtain ⟨log, hrun⟩ := generateChecked_run_error work hglobs store
      rw [hrun] at hreport
      cases h.symm.trans hreport
    | ok globs =>
      obtain ⟨hsame, hkept⟩ := generateChecked_twice hglobs store
      rw [← hstore] at hsame hkept
      exact ⟨hleft.trans hkept, .inl (hresult.trans (hsame.trans (hreport.symm.trans h)))⟩

end Generate

/-- Twins that share a declaration file, in an output directory under the root with a stale file. -/
theorem generate_twice_twins :
    let parse? : Text → Option Isolation.Project := fun _ => some { isolated := some true }
    let s : Settings := { outdir := "./src/types", entrypoints := ["**/*"] }
    let store := (((Store.insert {} "tsconfig.json" Store.isolatedProject).insert
      "./src/a.ts" "export const a = 1\n").insert "./src/a.tsx" "export let b = 'x'\n").insert
      "./src/types/stale.d.ts" "export declare const old: 1;\n"
    let report : Report := { written := ["./src/types/a.d.ts", "./src/types/a.d.ts"] }
    ((generate Store.fileOps parse? s).run store).1.2 = .ok report ∧
      let first := (generate Store.fileOps parse? s).run store
      let second := (generate Store.fileOps parse? s).run first.2
      second.2 = first.2 ∧
        (second.1.2 = .ok report ∨
          ∃ reason, second.1.2 = .error (.precondition s.tsconfig reason)) := by
  intro parse? s store report
  have hfirst : ((generate Store.fileOps parse? s).run store).1.2 = .ok report := by decide +kernel
  exact ⟨hfirst, generate_twice parse? s store hfirst⟩

end Ambient.Run
