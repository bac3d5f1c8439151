/-
A run: check the project, clean the output directory, find the sources, and write the declaration
file of each.

Only the check, the cleaning and the search can end a run. A source that cannot be read, or whose
declaration file cannot be written, is reported, and the run goes on.

Sources are worked on one after the other (`generateAll`), or at the same time when the settings ask
for that. Then a source is read in one turn and its declaration file written in another, and turns of
other sources may come between the two (`takeTurns`). The order of all turns is not the run's to
choose, so it is an argument of `generateBy`.
-/
import Ambient.Isolation.Chain
import Ambient.Path.Relative
import Ambient.Run.Report
import Ambient.Settings.Basic

namespace Ambient.Run

variable {m : Type → Type} [Monad m]

/-! ## One source -/

/-- The declaration file of a source. -/
def extract (files : Files m) (options : Document.Options) (source : Path) :
    m (Except Failure Text) :=
  return (← files.readText source).map (Document.generate options)

/-- What becomes of a source, by the text of its declaration file. -/
def finishFile (files : Files m) (s : Settings) (source : Path) :
    Except Failure Text → m (Log × Outcome)
  | .error e => return ([⟨.error, e.message⟩], .failed e)
  | .ok [] => return ([⟨.warn, ("No declarations extracted for " : Text) ++ source.text⟩], .skipped)
  | .ok text => do
    let output := Path.output s.root s.outdir source
    match ← files.write output text with
    | .ok () => return ([⟨.info, ("Generated " : Text) ++ output.text⟩], .written output)
    | .error e => return ([⟨.error, e.message⟩], .failed e)

/-- What is told of a source before it is read. -/
def processing (source : Path) : Event :=
  ⟨.debug, ("Processing " : Text) ++ source.text⟩

/-- Writes the declaration file of one source. -/
def generateFile (files : Files m) (s : Settings) (source : Path) : m (Log × Outcome) := do
  let (log, outcome) ← finishFile files s source (← extract files s.options source)
  return (processing source :: log, outcome)

/-! ## All sources -/

/-- Writes the declaration files of sources, one after the other. -/
def generateAll (files : Files m) (s : Settings) : List Path → m (Log × List (Path × Outcome))
  | [] => return ([], [])
  | source :: rest => do
    let (log, outcome) ← generateFile files s source
    let (logs, outcomes) ← generateAll files s rest
    return (log ++ logs, (source, outcome) :: outcomes)

/-- How far the work on a source is. -/
inductive Stage where
  | waiting
  /-- The source is read, and the text of its declaration file is known. -/
  | extracted (text : Except Failure Text)
  | finished (outcome : Outcome)
deriving Repr

namespace Stage

/-- The next turn of a source. -/
def next (files : Files m) (s : Settings) (source : Path) : Stage → m (Log × Stage)
  | .waiting => return ([processing source], .extracted (← extract files s.options source))
  | .extracted text => do
    let (log, outcome) ← finishFile files s source text
    return (log, .finished outcome)
  | .finished outcome => return ([], .finished outcome)

def outcome? : Stage → Option Outcome
  | .finished outcome => some outcome
  | _ => none

end Stage

/-- How far the work on each source is. -/
abbrev Progress := Path → Stage

namespace Progress

def set (g : Progress) (source : Path) (stage : Stage) : Progress :=
  fun p => if p = source then stage else g p

theorem set_self (g : Progress) (source : Path) (stage : Stage) : g.set source stage source = stage :=
  if_pos rfl

theorem set_of_ne {p source : Path} (h : p ≠ source) (g : Progress) (stage : Stage) :
    g.set source stage p = g p :=
  if_neg h

theorem set_eq_self (g : Progress) (source : Path) : g.set source (g source) = g := by
  funext p
  by_cases h : p = source
  · rw [h, set_self]
  · rw [set_of_ne h]

/-- The outcomes so far, in the order of the sources. -/
def outcomes (g : Progress) (sources : List Path) : List (Path × Outcome) :=
  sources.filterMap fun p => (g p).outcome?.map (p, ·)

end Progress

/-- Works on sources at the same time: the turns of a schedule, one by one. -/
def takeTurns (files : Files m) (s : Settings) : List Path → Progress → m (Log × Progress)
  | [], g => return ([], g)
  | source :: schedule, g => do
    let (log, stage) ← (g source).next files s source
    let (logs, last) ← takeTurns files s schedule (g.set source stage)
    return (log ++ logs, last)

/-- The schedule in which each source has both its turns before the next one has any. -/
def inOrder (sources : List Path) : List Path :=
  sources.flatMap fun source => [source, source]

/-- Writes the declaration files of sources: at the same time, with their turns in the given order,
when the settings ask for it, and otherwise one after the other. -/
def generateAllBy (order : List Path → List Path) (files : Files m) (s : Settings)
    (sources : List Path) : m (Log × List (Path × Outcome)) := do
  if s.parallel then
    let (log, g) ← takeTurns files s (order sources) fun _ => .waiting
    return (log, g.outcomes sources)
  else generateAll files s sources

/-! ## A whole run -/

/-- Removes the output directory, when the settings ask for it. -/
def cleanOutput (files : Files m) (s : Settings) : m (Log × Except Failure Unit) := do
  if s.clean then
    return ([⟨.info, ("Cleaning output directory " : Text) ++ s.outdir.text⟩], ← files.removeTree s.outdir)
  else return ([], .ok ())

/-- The part of a run behind the check of the project, where `work` is done on the sources. -/
def generateChecked (files : Files m) (s : Settings)
    (work : List Path → m (Log × List (Path × Outcome))) : m (Log × Except Failure Report) := do
  let (cleaning, cleaned) ← cleanOutput files s
  match cleaned with
  | .error e => return (cleaning, .error e)
  | .ok () =>
    match ← files.sources s.root s.entrypoints with
    | .error e => return (cleaning, .error e)
    | .ok sources =>
      let found : Event :=
        ⟨.info, ("Found " : Text) ++ sources.length.repr.toList ++ (" TypeScript files" : Text)⟩
      let (log, outcomes) ← work sources
      return (cleaning ++ found :: log, .ok (Report.ofOutcomes outcomes))

/-- A whole run, for a reader of project files, where `work` is done on the sources. -/
def generateWith (files : Files m) (parse? : Text → Option Isolation.Project) (s : Settings)
    (work : List Path → m (Log × List (Path × Outcome))) : m (Log × Except Failure Report) := do
  let start : Event :=
    ⟨.info, ("Generating declarations from " : Text) ++ s.root.text ++ (" into " : Text) ++ s.outdir.text⟩
  match ← Isolation.check files parse? s.tsconfig with
  | .error e => return ([start], .error e)
  | .ok () =>
    let (log, result) ← generateChecked files s work
    return (start :: log, result)

/-- A whole run, one source after the other. -/
def generate (files : Files m) (parse? : Text → Option Isolation.Project) (s : Settings) :
    m (Log × Except Failure Report) :=
  generateWith files parse? s (generateAll files s)

/-- A whole run as the settings ask for it, for an order of the turns of sources that are worked on
at the same time. -/
def generateBy (order : List Path → List Path) (files : Files m)
    (parse? : Text → Option Isolation.Project) (s : Settings) : m (Log × Except Failure Report) :=
  generateWith files parse? s (generateAllBy order files s)

/-- Unless the settings ask for work at the same time, there is no order to choose. -/
theorem generateBy_of_not_parallel {s : Settings} (h : s.parallel = false)
    (order : List Path → List Path) (files : Files m) (parse? : Text → Option Isolation.Project) :
    generateBy order files parse? s = generate files parse? s := by
  have hwork : generateAllBy order files s = generateAll files s := by
    funext sources
    simp [generateAllBy, h]
  rw [generateBy, generate, hwork]

end Ambient.Run
