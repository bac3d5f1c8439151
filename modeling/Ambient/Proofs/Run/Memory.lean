/-
A run over a store in memory, as a function of the store alone.

A run reads only sources and writes only declaration files, and a declaration file is never a source
(`Path.isSource_output`). So each source is read as it was when the run found it, whatever was written
before (`Agrees`), and what becomes of it follows from the store before the run (`fate`). Where two
sources have the same declaration file, the later one's is left.
-/
import Ambient.Proofs.Isolation.Reading
import Ambient.Proofs.Path.Declared
import Ambient.Proofs.Store
import Ambient.Run.Generate

namespace Ambient.Run

open Store (run_bind)

/-- The text of a source's declaration file, by its content in a store. -/
def textOf (s : Settings) (store : Store) (source : Path) : Text :=
  Document.generate s.options ((store.get? source).getD [])

/-- The declaration file of a source. -/
def target (s : Settings) (source : Path) : Path :=
  Path.output s.root s.outdir source

def isSkipped (s : Settings) (store : Store) (source : Path) : Bool :=
  (textOf s store source).isEmpty

def isFailed (s : Settings) (store : Store) (source : Path) : Bool :=
  !isSkipped s store source && store.isReadOnly (target s source)

def isWritten (s : Settings) (store : Store) (source : Path) : Bool :=
  !isSkipped s store source && !store.isReadOnly (target s source)

/-- What becomes of a source, by the store before the run. -/
def fate (s : Settings) (store : Store) (source : Path) : Outcome :=
  if isSkipped s store source then .skipped
  else if store.isReadOnly (target s source) then .failed (.write .readOnly (target s source))
  else .written (target s source)

/-- What a run writes is no source. -/
theorem same_target_of_isSource (s : Settings) {path : Path} (h : path.isSource = true)
    (source : Path) : (target s source).same path = false := by
  rw [Path.same_eq_false_iff]
  intro hsame
  rw [← Path.isSource_congr hsame, target, Path.isSource_output] at h
  cases h

/-- A store with the declaration file of a source, where the source has one. -/
def deliver (s : Settings) (before : Store) (store : Store) (source : Path) : Store :=
  if isWritten s before source then store.insert (target s source) (textOf s before source) else store

/-- A later store of a run: it may differ from the one before in files that are no sources. -/
structure Agrees (before store : Store) : Prop where
  sources : ∀ p : Path, p.isSource = true → store.get? p = before.get? p
  readOnly : store.readOnly = before.readOnly

theorem Agrees.refl (store : Store) : Agrees store store :=
  ⟨fun _ _ => rfl, rfl⟩

theorem Agrees.deliver {before store : Store} (h : Agrees before store) (s : Settings)
    (source : Path) : Agrees before (deliver s before store source) := by
  unfold Run.deliver
  split
  · refine ⟨fun p hp => ?_, h.readOnly⟩
    rw [Store.get?_insert, same_target_of_isSource s hp]
    exact h.sources p hp
  · exact h

theorem Agrees.deliverAll {before store : Store} (h : Agrees before store) (s : Settings)
    (sources : List Path) : Agrees before (sources.foldl (Run.deliver s before) store) := by
  induction sources generalizing store with
  | nil => exact h
  | cons p rest ih => exact ih (h.deliver s p)

/-! ## One source -/

theorem extract_run (options : Document.Options) (source : Path) (store : Store) :
    (extract Store.fileOps options source).run store =
      (((store.read source).mapError (Failure.read · source)).map (Document.generate options), store) :=
  rfl

theorem extract_run_of_agrees {s : Settings} {before store : Store} {source : Path}
    (h : Agrees before store) (hsource : source.isSource = true)
    (hpresent : (before.get? source).isSome) :
    (extract Store.fileOps s.options source).run store = (.ok (textOf s before source), store) := by
  obtain ⟨content, hcontent⟩ := Option.isSome_iff_exists.1 hpresent
  have hget : store.get? source = some content := by
    rw [h.sources source hsource, hcontent]
  rw [extract_run, Store.read, hget]
  simp only [textOf, hcontent, Option.getD_some]
  rfl

theorem finishFile_run (s : Settings) {before store : Store} (h : Agrees before store)
    (source : Path) :
    ∃ log, (finishFile Store.fileOps s source (.ok (textOf s before source))).run store =
      ((log, fate s before source), deliver s before store source) := by
  cases htext : textOf s before source with
  | nil =>
    refine ⟨[⟨.warn, ("No declarations extracted for " : Text) ++ source.text⟩], ?_⟩
    simp [fate, deliver, isWritten, isSkipped, htext]
    rfl
  | cons c rest =>
    have hreadOnly : store.isReadOnly (target s source) = before.isReadOnly (target s source) := by
      simp only [Store.isReadOnly, h.readOnly]
    cases hlocked : before.isReadOnly (target s source) with
    | true =>
      have hwrite : (Store.fileOps.write (target s source) (c :: rest)).run store =
          (.error (.write .readOnly (target s source)), store) := by
        show store.write _ _ = _
        simp [Store.write, hreadOnly, hlocked]
      have hfate : fate s before source = .failed (.write .readOnly (target s source)) := by
        simp [fate, isSkipped, htext, hlocked]
      have hdeliver : deliver s before store source = store := by
        simp [deliver, isWritten, hlocked]
      refine ⟨[⟨.error, (Failure.write .readOnly (target s source)).message⟩], ?_⟩
      show StateT.run (Store.fileOps.write (target s source) (c :: rest) >>= _) store = _
      rw [run_bind, hwrite, hfate, hdeliver]
      rfl
    | false =>
      have hwrite : (Store.fileOps.write (target s source) (c :: rest)).run store =
          (.ok (), store.insert (target s source) (c :: rest)) := by
        show store.write _ _ = _
        simp [Store.write, hreadOnly, hlocked]
      have hfate : fate s before source = .written (target s source) := by
        simp [fate, isSkipped, htext, hlocked]
      have hdeliver : deliver s before store source = store.insert (target s source) (c :: rest) := by
        simp [deliver, isWritten, isSkipped, htext, hlocked]
      refine ⟨[⟨.info, ("Generated " : Text) ++ (target s source).text⟩], ?_⟩
      show StateT.run (Store.fileOps.write (target s source) (c :: rest) >>= _) store = _
      rw [run_bind, hwrite, hfate, hdeliver]
      rfl

theorem generateFile_run {s : Settings} {before store : Store} {source : Path}
    (h : Agrees before store) (hsource : source.isSource = true)
    (hpresent : (before.get? source).isSome) :
    ∃ log, (generateFile Store.fileOps s source).run store =
      ((log, fate s before source), deliver s before store source) := by
  obtain ⟨log, hfinish⟩ := finishFile_run s h source
  refine ⟨processing source :: log, ?_⟩
  simp only [generateFile, run_bind, extract_run_of_agrees h hsource hpresent, hfinish]
  rfl

/-! ## All sources -/

theorem generateAll_run {s : Settings} {before : Store} {sources : List Path}
    (hsources : ∀ p ∈ sources, p.isSource = true ∧ (before.get? p).isSome) {store : Store}
    (h : Agrees before store) :
    ∃ log, (generateAll Store.fileOps s sources).run store =
      ((log, sources.map fun p => (p, fate s before p)), sources.foldl (deliver s before) store) := by
  induction sources generalizing store with
  | nil => exact ⟨[], rfl⟩
  | cons p rest ih =>
    obtain ⟨hsource, hpresent⟩ := hsources p (by simp)
    obtain ⟨log, hfile⟩ := generateFile_run (s := s) h hsource hpresent
    obtain ⟨logs, hrest⟩ := ih (fun q hq => hsources q (by simp [hq])) (h.deliver s p)
    refine ⟨log ++ logs, ?_⟩
    simp only [generateAll, run_bind, hfile, hrest]
    rfl

/-- What is at a path behind a run: the declaration file of the last source that wrote it. -/
theorem get?_deliverAll (s : Settings) (before : Store) (sources : List Path) (path : Path) :
    (sources.foldl (deliver s before) before).get? path =
      match sources.reverse.find? fun p => isWritten s before p && (target s p).same path with
      | some p => some (textOf s before p)
      | none => before.get? path := by
  rw [← List.foldr_reverse]
  generalize sources.reverse = later
  induction later with
  | nil => rfl
  | cons p rest ih =>
    simp only [List.foldr_cons, List.find?_cons]
    rw [show ∀ st, deliver s before st p = if isWritten s before p then
      st.insert (target s p) (textOf s before p) else st from fun _ => rfl]
    cases hw : isWritten s before p with
    | false => simpa using ih
    | true =>
      simp only [if_true, Bool.true_and, Store.get?_insert]
      cases hsame : (target s p).same path with
      | true => rfl
      | false => simpa using ih

/-! ## The report -/

theorem foldl_record (s : Settings) (before : Store) (sources : List Path) (r : Report) :
    (sources.map fun p => (p, fate s before p)).foldl
        (fun r (source, outcome) => r.record source outcome) r =
      { written := r.written ++ (sources.filter (isWritten s before)).map (target s)
        skipped := r.skipped ++ sources.filter (isSkipped s before)
        failed := r.failed ++ (sources.filter (isFailed s before)).map fun p =>
          (p, .write .readOnly (target s p)) } := by
  induction sources generalizing r with
  | nil => simp
  | cons p rest ih =>
    simp only [List.map_cons, List.foldl_cons, ih, List.filter_cons]
    cases hskip : isSkipped s before p with
    | true => simp [fate, isWritten, isFailed, hskip, Report.record]
    | false =>
      cases hlocked : before.isReadOnly (target s p) with
      | true => simp [fate, isWritten, isFailed, hskip, hlocked, Report.record]
      | false => simp [fate, isWritten, isFailed, hskip, hlocked, Report.record]

/-- Each source is skipped, failed or written, and only one of these. -/
theorem length_fates (s : Settings) (before : Store) (sources : List Path) :
    (sources.filter (isWritten s before)).length + (sources.filter (isSkipped s before)).length +
      (sources.filter (isFailed s before)).length = sources.length := by
  induction sources with
  | nil => rfl
  | cons p rest ih =>
    cases hskip : isSkipped s before p <;> cases hlocked : before.isReadOnly (target s p) <;>
      simp [isWritten, isFailed, hskip, hlocked] <;> omega

/-! ## A whole run -/

/-- The store that the sources of a run are found in: without the files under the output directory,
when the settings ask for that. -/
def cleaned (s : Settings) (store : Store) : Store :=
  if s.clean then store.eraseTree s.outdir else store

/-- What a run that found `sources` in the store `before` reports and leaves. -/
structure Settles (s : Settings) (before : Store) (sources : List Path) (report : Report)
    (after : Store) : Prop where
  distinct : sources.Pairwise fun p q => p.same q = false
  written : report.written = (sources.filter (isWritten s before)).map (target s)
  skipped : report.skipped = sources.filter (isSkipped s before)
  failed : report.failed = (sources.filter (isFailed s before)).map fun p =>
    (p, .write .readOnly (target s p))
  processed : report.processed = sources.length
  readOnly : after.readOnly = before.readOnly
  /-- The last source that wrote a file decides what it holds. -/
  files : ∀ path, after.get? path =
    match sources.reverse.find? fun p => isWritten s before p && (target s p).same path with
    | some p => some (textOf s before p)
    | none => before.get? path

/-- How a run ends, and with which store. -/
inductive Ends (parse? : Text → Option Isolation.Project) (s : Settings) (store : Store) :
    Except Failure Report → Store → Prop
  | refused {reason : Text}
      (check : ((Isolation.check Store.fileOps parse? s.tsconfig).run store).1 =
        .error (.precondition s.tsconfig reason)) :
      Ends parse? s store (.error (.precondition s.tsconfig reason)) store
  | badGlob {message : Text}
      (check : ((Isolation.check Store.fileOps parse? s.tsconfig).run store).1 = .ok ())
      (compiled : compileEntrypoints s.entrypoints = .error (.config message)) :
      Ends parse? s store (.error (.config message)) (cleaned s store)
  | done {globs : List Glob} {report : Report} {after : Store}
      (check : ((Isolation.check Store.fileOps parse? s.tsconfig).run store).1 = .ok ())
      (compiled : compileEntrypoints s.entrypoints = .ok globs)
      (settles : Settles s (cleaned s store)
        ((cleaned s store).paths.filter (isSelected globs s.root)) report after) :
      Ends parse? s store (.ok report) after

theorem get?_cleaned (s : Settings) (store : Store) (path : Path) :
    (cleaned s store).get? path =
      if s.clean && path.startsWith s.outdir then none else store.get? path := by
  unfold cleaned
  cases s.clean with
  | true => simp [Store.get?_eraseTree]
  | false => rfl

theorem cleanOutput_run (s : Settings) (store : Store) :
    ∃ log, (cleanOutput Store.fileOps s).run store = ((log, .ok ()), cleaned s store) := by
  unfold cleanOutput cleaned
  cases s.clean with
  | true => exact ⟨_, rfl⟩
  | false => exact ⟨_, rfl⟩

/-- A glob that is none is a fault of the settings. -/
theorem eq_config_of_compileEntrypoints {entrypoints : List Text} {e : Failure}
    (h : compileEntrypoints entrypoints = .error e) : ∃ message, e = .config message := by
  unfold compileEntrypoints at h
  induction entrypoints with
  | nil => cases h
  | cons t rest ih =>
    simp only [List.mapM_cons, bind, Except.bind] at h
    split at h
    · rename_i hparse
      cases h
      cases hglob : Glob.parse t with
      | ok g =>
        rw [hglob] at hparse
        cases hparse
      | error fault =>
        rw [hglob] at hparse
        exact ⟨_, (Except.error.inj hparse).symm⟩
    · split at h
      · rename_i hrest
        cases h
        exact ih hrest
      · cases h

theorem mem_selected {store : Store} {globs : List Glob} {root p : Path}
    (h : p ∈ store.paths.filter (isSelected globs root)) :
    p.isSource = true ∧ (store.get? p).isSome := by
  simp only [List.mem_filter, isSelected, Bool.and_eq_true] at h
  exact ⟨h.2.1, Store.isSome_get?_of_mem_paths h.1⟩

theorem settles_selected (s : Settings) (before : Store) (globs : List Glob) :
    let sources := before.paths.filter (isSelected globs s.root)
    Settles s before sources (.ofOutcomes (sources.map fun p => (p, fate s before p)))
      (sources.foldl (deliver s before) before) := by
  intro sources
  have hreport := foldl_record s before sources {}
  have hagrees : Agrees before (sources.foldl (deliver s before) before) :=
    (Agrees.refl before).deliverAll s sources
  simp only [List.nil_append] at hreport
  constructor
  case distinct => exact before.paths_pairwise.sublist List.filter_sublist
  case readOnly => exact hagrees.readOnly
  case files => exact get?_deliverAll s before sources
  case processed =>
    simp only [Report.ofOutcomes, hreport, Report.processed, List.length_map]
    exact length_fates s before sources
  all_goals simp only [Report.ofOutcomes, hreport]

theorem sources_run (s : Settings) (store : Store) :
    (Store.fileOps.sources s.root s.entrypoints).run store =
      ((compileEntrypoints s.entrypoints).map fun globs =>
        store.paths.filter (isSelected globs s.root), store) := by
  show (store.sources s.root s.entrypoints, store) = _
  simp only [Store.sources, bind, Except.bind]
  cases compileEntrypoints s.entrypoints <;> rfl

section Checked

variable {s : Settings} (work : List Path → StateM Store (Log × List (Path × Outcome)))

theorem generateChecked_run_error {e : Failure} (h : compileEntrypoints s.entrypoints = .error e)
    (store : Store) :
    ∃ log, (generateChecked Store.fileOps s work).run store =
      ((log, .error e), cleaned s store) := by
  obtain ⟨cleaning, hclean⟩ := cleanOutput_run s store
  refine ⟨cleaning, ?_⟩
  simp only [generateChecked, run_bind, hclean, sources_run, h]
  rfl

/-- Where the globs are well formed, the sources found in the cleaned store are worked on in it. -/
theorem generateChecked_run {globs : List Glob} (h : compileEntrypoints s.entrypoints = .ok globs)
    (store : Store) :
    let sources := (cleaned s store).paths.filter (isSelected globs s.root)
    ∃ log, (generateChecked Store.fileOps s work).run store =
      ((log, .ok (.ofOutcomes ((work sources).run (cleaned s store)).1.2)),
        ((work sources).run (cleaned s store)).2) := by
  intro sources
  obtain ⟨cleaning, hclean⟩ := cleanOutput_run s store
  refine ⟨cleaning ++ ⟨.info, ("Found " : Text) ++ sources.length.repr.toList ++
    (" TypeScript files" : Text)⟩ :: ((work sources).run (cleaned s store)).1.1, ?_⟩
  simp only [generateChecked, run_bind, hclean, sources_run, h, Except.map]
  rfl

end Checked

/-- A run over a store that agrees with `before` on the sources does what `before` says. -/
theorem generateChecked_run_of_agrees {s : Settings} {globs : List Glob}
    (h : compileEntrypoints s.entrypoints = .ok globs) {store before : Store}
    (hagrees : Agrees before (cleaned s store)) {sources : List Path}
    (hsources : (cleaned s store).paths.filter (isSelected globs s.root) = sources) :
    ∃ log, (generateChecked Store.fileOps s (generateAll Store.fileOps s)).run store =
      ((log, .ok (.ofOutcomes (sources.map fun p => (p, fate s before p)))),
        sources.foldl (deliver s before) (cleaned s store)) := by
  have hpresent : ∀ p ∈ sources, p.isSource = true ∧ (before.get? p).isSome := by
    intro p hp
    obtain ⟨hsource, hsome⟩ := mem_selected (hsources ▸ hp)
    exact ⟨hsource, hagrees.sources p hsource ▸ hsome⟩
  obtain ⟨_, hall⟩ := generateAll_run (s := s) hpresent hagrees
  obtain ⟨log, hrun⟩ := generateChecked_run (generateAll Store.fileOps s) h store
  rw [hsources, hall] at hrun
  exact ⟨log, hrun⟩

theorem generateChecked_run_ok {s : Settings} {globs : List Glob}
    (h : compileEntrypoints s.entrypoints = .ok globs) {store before : Store}
    (hbefore : cleaned s store = before) {sources : List Path}
    (hsources : before.paths.filter (isSelected globs s.root) = sources) :
    ∃ log, (generateChecked Store.fileOps s (generateAll Store.fileOps s)).run store =
      ((log, .ok (.ofOutcomes (sources.map fun p => (p, fate s before p)))),
        sources.foldl (deliver s before) before) := by
  subst hbefore
  exact generateChecked_run_of_agrees h (.refl _) hsources

section Check

variable {parse? : Text → Option Isolation.Project} {s : Settings} {store : Store}
  (work : List Path → StateM Store (Log × List (Path × Outcome)))

theorem generateWith_run_of_error {e : Failure}
    (h : ((Isolation.check Store.fileOps parse? s.tsconfig).run store).1 = .error e) :
    ((generateWith Store.fileOps parse? s work).run store).1.2 = .error e ∧
      ((generateWith Store.fileOps parse? s work).run store).2 = store := by
  have hkeeps := Isolation.keeps_check parse? s.tsconfig store
  simp only [generateWith, run_bind, h, hkeeps]
  exact ⟨rfl, rfl⟩

theorem generateWith_run_of_ok
    (h : ((Isolation.check Store.fileOps parse? s.tsconfig).run store).1 = .ok ()) :
    ((generateWith Store.fileOps parse? s work).run store).1.2 =
        ((generateChecked Store.fileOps s work).run store).1.2 ∧
      ((generateWith Store.fileOps parse? s work).run store).2 =
        ((generateChecked Store.fileOps s work).run store).2 := by
  have hkeeps := Isolation.keeps_check parse? s.tsconfig store
  simp only [generateWith, run_bind, h, hkeeps]
  exact ⟨rfl, rfl⟩

end Check

theorem ends_generate (parse? : Text → Option Isolation.Project) (s : Settings) (store : Store) :
    Ends parse? s store ((generate Store.fileOps parse? s).run store).1.2
      ((generate Store.fileOps parse? s).run store).2 := by
  unfold generate
  cases hcheck : ((Isolation.check Store.fileOps parse? s.tsconfig).run store).1 with
  | error e =>
    obtain ⟨reason, rfl⟩ := Isolation.eq_precondition_of_failureOf hcheck
    obtain ⟨hresult, hkept⟩ := generateWith_run_of_error (generateAll Store.fileOps s) hcheck
    rw [hresult, hkept]
    exact .refused hcheck
  | ok _ =>
    obtain ⟨hresult, hleft⟩ := generateWith_run_of_ok (generateAll Store.fileOps s) hcheck
    rw [hresult, hleft]
    cases hglobs : compileEntrypoints s.entrypoints with
    | error e =>
      obtain ⟨message, rfl⟩ := eq_config_of_compileEntrypoints hglobs
      obtain ⟨log, hrun⟩ := generateChecked_run_error (generateAll Store.fileOps s) hglobs store
      rw [hrun]
      exact .badGlob hcheck hglobs
    | ok globs =>
      obtain ⟨log, hrun⟩ := generateChecked_run_ok hglobs (rfl : cleaned s store = _) rfl
      rw [hrun]
      exact .done hcheck hglobs (settles_selected s (cleaned s store) globs)

/-- **A run over a store.** A refused project leaves the store as it is; a bad glob leaves it cleaned.
Otherwise the sources found in the cleaned store are skipped, failed or written by what that store
holds, and the run leaves the cleaned store with the declaration files it wrote. -/
theorem generate_on_store (parse? : Text → Option Isolation.Project) (s : Settings) (store : Store) :
    Ends parse? s store ((generate Store.fileOps parse? s).run store).1.2
        ((generate Store.fileOps parse? s).run store).2 ∧
      ∀ path, (cleaned s store).get? path =
        if s.clean && path.startsWith s.outdir then none else store.get? path :=
  ⟨ends_generate parse? s store, get?_cleaned s store⟩

end Ambient.Run
