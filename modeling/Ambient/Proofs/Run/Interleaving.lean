/-
Sources that are worked on at the same time.

Each source takes two turns: in the first it is read, in the second its declaration file is written,
or it is skipped or fails. The turns of different sources may come in any order. No turn writes what
another one reads, since a declaration file is never a source, so each source stands where its own
turns have brought it, and the store holds the declaration files of those that are finished
(`Reached`). Where no two sources share a declaration file, it does not matter which was finished
first (`deliverAll_perm`), and every interleaving ends as the sources one after the other do
(`turns_of_isInterleaving`). So does a whole run (`generateBy_eq_generate`).
-/
import Ambient.Proofs.Run.Memory
import Mathlib.Data.List.Induction
import Mathlib.Data.List.Nodup
import Mathlib.Data.List.Pairwise
import Mathlib.Data.List.Perm.Basic

namespace Ambient.Run

open Ambient.Path (same_eq_false_iff)
open Store (run_bind)

/-! ## Turns -/

/-- Work on several sources in one store. -/
structure Work where
  store : Store
  stage : Progress

namespace Work

def start (store : Store) : Work :=
  ⟨store, fun _ => .waiting⟩

/-- A turn of one source, while all others stay where they are. It sees the store only while it takes
that turn. -/
def turn (s : Settings) (w : Work) (source : Path) : Work :=
  let r := ((w.stage source).next Store.fileOps s source).run w.store
  ⟨r.2, w.stage.set source r.1.2⟩

/-- The outcomes so far, in the order of the sources. -/
def outcomes (w : Work) (sources : List Path) : List (Path × Outcome) :=
  w.stage.outcomes sources

end Work

/-- The turns of a schedule are what a run takes that works on sources at the same time. -/
theorem takeTurns_run (s : Settings) (schedule : List Path) (w : Work) :
    ∃ log, (takeTurns Store.fileOps s schedule w.stage).run w.store =
      ((log, (schedule.foldl (Work.turn s) w).stage), (schedule.foldl (Work.turn s) w).store) := by
  induction schedule generalizing w with
  | nil => exact ⟨[], rfl⟩
  | cons source rest ih =>
    obtain ⟨log, hrest⟩ := ih (w.turn s source)
    refine ⟨(((w.stage source).next Store.fileOps s source).run w.store).1.1 ++ log, ?_⟩
    rw [List.foldl_cons, takeTurns, run_bind]
    show StateT.run (takeTurns Store.fileOps s rest (w.turn s source).stage >>= _)
      (w.turn s source).store = _
    rw [run_bind, hrest]
    rfl

/-- A schedule in which each source has its two turns. -/
def IsInterleaving (sources schedule : List Path) : Prop :=
  schedule.Perm (sources ++ sources)

instance (sources schedule : List Path) : Decidable (IsInterleaving sources schedule) :=
  inferInstanceAs (Decidable (schedule.Perm (sources ++ sources)))

theorem isInterleaving_inOrder (sources : List Path) : IsInterleaving sources (inOrder sources) := by
  induction sources with
  | nil => exact .nil
  | cons p rest ih => exact ((ih.cons p).trans List.perm_middle.symm).cons p

section Turn

variable {s : Settings} {before : Store} {w : Work} {p : Path}

theorem turn_waiting (h : w.stage p = .waiting) (hagrees : Agrees before w.store)
    (hsource : p.isSource = true) (hpresent : (before.get? p).isSome) :
    w.turn s p =
      ⟨w.store, w.stage.set p (.extracted (.ok (textOf s before p)))⟩ := by
  simp only [Work.turn, h, Stage.next, run_bind, extract_run_of_agrees hagrees hsource hpresent]
  rfl

theorem turn_extracted (h : w.stage p = .extracted (.ok (textOf s before p)))
    (hagrees : Agrees before w.store) :
    w.turn s p =
      ⟨deliver s before w.store p, w.stage.set p (.finished (fate s before p))⟩ := by
  obtain ⟨log, hfinish⟩ := finishFile_run s hagrees p
  simp only [Work.turn, h, Stage.next, run_bind, hfinish]
  rfl

theorem turn_finished {outcome : Outcome} (h : w.stage p = .finished outcome) : w.turn s p = w := by
  simp only [Work.turn, h, Stage.next]
  show (⟨w.store, w.stage.set p (.finished outcome)⟩ : Work) = w
  rw [← h, Progress.set_eq_self]

end Turn

/-! ## After some turns -/

/-- Where a number of its own turns brings a source, by the store before the first turn of all. -/
def stageAfter (s : Settings) (before : Store) (p : Path) : Nat → Stage
  | 0 => .waiting
  | 1 => .extracted (.ok (textOf s before p))
  | _ => .finished (fate s before p)

/-- The work after `turns`, where the sources in `order` are finished, the first of them first. -/
structure Reached (s : Settings) (before : Store) (turns order : List Path) (w : Work) : Prop where
  stage : ∀ p, w.stage p = stageAfter s before p (turns.count p)
  nodup : order.Nodup
  mem_order : ∀ p, p ∈ order ↔ 2 ≤ turns.count p
  store : w.store = order.foldl (deliver s before) before

section Reached

variable {s : Settings} {before : Store} {turns order : List Path} {w : Work} {p : Path}

theorem reached_start (s : Settings) (before : Store) : Reached s before [] [] (.start before) where
  stage _ := rfl
  nodup := List.nodup_nil
  mem_order p := by simp
  store := rfl

theorem Reached.agrees (h : Reached s before turns order w) : Agrees before w.store := by
  rw [h.store]
  exact (Agrees.refl before).deliverAll s order

theorem count_concat (turns : List Path) (p q : Path) :
    (turns ++ [p]).count q = turns.count q + if q = p then 1 else 0 := by
  rw [List.count_append, List.count_singleton]
  by_cases hq : q = p
  · simp [hq]
  · simp [hq, Ne.symm hq]

/-- A turn brings its own source one step further. -/
theorem Reached.stage_update (h : Reached s before turns order w) (p : Path) :
    w.stage.set p (stageAfter s before p (turns.count p + 1)) =
      fun q => stageAfter s before q ((turns ++ [p]).count q) := by
  funext q
  rw [count_concat]
  by_cases hq : q = p
  · rw [hq, Progress.set_self, if_pos rfl]
  · rw [Progress.set_of_ne hq, if_neg hq, h.stage, Nat.add_zero]

/-- A turn that does not finish its source leaves the finished ones as they are. -/
theorem Reached.mem_order_of_ne_one (h : Reached s before turns order w) (hp : turns.count p ≠ 1)
    (q : Path) : q ∈ order ↔ 2 ≤ (turns ++ [p]).count q := by
  rw [h.mem_order, count_concat]
  split
  · rename_i hq
    subst hq
    omega
  · rfl

theorem Reached.turn (h : Reached s before turns order w) (hsource : p.isSource = true)
    (hpresent : (before.get? p).isSome) :
    ∃ order', Reached s before (turns ++ [p]) order' (w.turn s p) := by
  have hstage := h.stage p
  have hupdate := h.stage_update p
  match hcount : turns.count p with
  | 0 =>
    rw [hcount] at hstage hupdate
    rw [turn_waiting hstage h.agrees hsource hpresent]
    exact ⟨order, congrFun hupdate, h.nodup, h.mem_order_of_ne_one (by omega), h.store⟩
  | 1 =>
    rw [hcount] at hstage hupdate
    rw [turn_extracted hstage h.agrees]
    refine ⟨order ++ [p], congrFun hupdate, ?_, fun q => ?_, ?_⟩
    · have hnot : p ∉ order := by
        rw [h.mem_order]
        omega
      exact List.nodup_append.2 ⟨h.nodup, List.nodup_singleton p, by grind⟩
    · rw [List.mem_append, List.mem_singleton, h.mem_order, count_concat]
      by_cases hq : q = p
      · simp [hq, hcount]
      · simp [hq]
    · rw [List.foldl_append, ← h.store]
      rfl
  | n + 2 =>
    rw [hcount] at hstage hupdate
    rw [turn_finished hstage]
    have hstays : w.stage = fun q => stageAfter s before q ((turns ++ [p]).count q) := by
      rw [← hupdate]
      exact (hstage ▸ w.stage.set_eq_self p).symm
    exact ⟨order, congrFun hstays, h.nodup, h.mem_order_of_ne_one (by omega), h.store⟩

/-- What the turns of sources reach, in whatever order they come. -/
theorem reached_turns (s : Settings) {before : Store} {turns : List Path}
    (h : ∀ p ∈ turns, p.isSource = true ∧ (before.get? p).isSome) :
    ∃ order, Reached s before turns order (turns.foldl (Work.turn s) (.start before)) := by
  induction turns using List.reverseRecOn with
  | nil => exact ⟨[], reached_start s before⟩
  | append_singleton turns p ih =>
    obtain ⟨order, hreached⟩ := ih fun q hq => h q (by simp [hq])
    obtain ⟨hsource, hpresent⟩ := h p (by simp)
    rw [List.foldl_append]
    exact hreached.turn hsource hpresent

end Reached

/-! ## All turns -/

/-- Declaration files at different places can be written in either order. -/
theorem deliver_comm (s : Settings) (before store : Store) {p q : Path}
    (h : (target s p).same (target s q) = false) :
    deliver s before (deliver s before store p) q = deliver s before (deliver s before store q) p := by
  unfold deliver
  cases isWritten s before p with
  | false => rfl
  | true =>
    cases isWritten s before q with
    | false => rfl
    | true => exact store.insert_comm h _ _

/-- Sources that do not share a declaration file. -/
def Apart (s : Settings) (sources : List Path) : Prop :=
  sources.Pairwise fun p q => (target s p).same (target s q) = false

instance (s : Settings) (sources : List Path) : Decidable (Apart s sources) :=
  inferInstanceAs (Decidable (sources.Pairwise fun p q => (target s p).same (target s q) = false))

theorem Apart.nodup {s : Settings} {sources : List Path} (h : Apart s sources) : sources.Nodup := by
  refine h.imp fun {p q} hpq heq => ?_
  rw [heq, same_eq_false_iff] at hpq
  exact hpq rfl

theorem Apart.same_eq_false {s : Settings} {sources : List Path} (h : Apart s sources) {p q : Path}
    (hp : p ∈ sources) (hq : q ∈ sources) (hne : p ≠ q) :
    (target s p).same (target s q) = false := by
  have hsymm : Std.Symm fun p q : Path => (target s p).same (target s q) = false := ⟨by
    intro p q hpq
    rw [same_eq_false_iff] at hpq ⊢
    exact hpq.symm⟩
  exact List.Pairwise.forall h hp hq hne

/-- Sources that do not share a declaration file can be finished in any order. -/
theorem deliverAll_perm {s : Settings} {sources order : List Path} (h : Apart s sources)
    (hperm : order.Perm sources) (before store : Store) :
    order.foldl (deliver s before) store = sources.foldl (deliver s before) store := by
  refine hperm.foldl_eq' (fun p hp q hq st => ?_) store
  by_cases hpq : p = q
  · rw [hpq]
  · exact deliver_comm s before st
      (h.same_eq_false (hperm.mem_iff.1 hp) (hperm.mem_iff.1 hq) hpq)

theorem Reached.outcomes {s : Settings} {before : Store} {turns order sources : List Path} {w : Work}
    (h : Reached s before turns order w) (hturns : ∀ p ∈ sources, turns.count p = 2) :
    w.outcomes sources = sources.map fun p => (p, fate s before p) := by
  rw [Work.outcomes, ← List.filterMap_eq_map]
  refine List.filterMap_congr fun p hp => ?_
  rw [h.stage, hturns p hp]
  rfl

theorem IsInterleaving.count {sources schedule : List Path} (h : IsInterleaving sources schedule)
    (hnodup : sources.Nodup) (p : Path) :
    schedule.count p = if p ∈ sources then 2 else 0 := by
  rw [h.count_eq, List.count_append]
  split
  · rename_i hp
    rw [List.count_eq_one_of_mem hnodup hp]
  · rename_i hp
    rw [List.count_eq_zero_of_not_mem hp]

section Interleaved

variable {s : Settings} {store : Store} {sources : List Path}

theorem present_of_sources {found : List Path}
    (hfound : store.sources s.root s.entrypoints = .ok found) (hsources : sources ⊆ found) :
    ∀ p ∈ sources, p.isSource = true ∧ (store.get? p).isSome := by
  obtain ⟨globs, -, rfl⟩ := Store.eq_filter_of_sources hfound
  exact fun p hp => mem_selected (hsources hp)

/-- What all turns of an interleaving come to, by the store before them. -/
theorem turns_of_isInterleaving (hpresent : ∀ p ∈ sources, p.isSource = true ∧ (store.get? p).isSome)
    (hapart : Apart s sources) {schedule : List Path} (hschedule : IsInterleaving sources schedule) :
    let done := schedule.foldl (Work.turn s) (.start store)
    done.outcomes sources = sources.map (fun p => (p, fate s store p)) ∧
      done.store = sources.foldl (deliver s store) store := by
  intro done
  have hturns : ∀ p ∈ schedule, p.isSource = true ∧ (store.get? p).isSome := by
    intro p hp
    have := hschedule.mem_iff.1 hp
    exact hpresent p (by simpa using this)
  obtain ⟨order, hreached⟩ := reached_turns s hturns
  have hcount := hschedule.count hapart.nodup
  have horder : order.Perm sources := by
    refine (List.perm_ext_iff_of_nodup hreached.nodup hapart.nodup).2 fun p => ?_
    rw [hreached.mem_order, hcount]
    split <;> simp_all
  exact ⟨hreached.outcomes fun p hp => by rw [hcount, if_pos hp],
    hreached.store.trans (deliverAll_perm hapart horder store store)⟩

/-- Work on sources that do not share a declaration file, in any order of their turns. -/
theorem generateAllBy_run (hpresent : ∀ p ∈ sources, p.isSource = true ∧ (store.get? p).isSome)
    (hapart : Apart s sources) {order : List Path → List Path}
    (horder : IsInterleaving sources (order sources)) :
    ∃ log, (generateAllBy order Store.fileOps s sources).run store =
      ((log, sources.map fun p => (p, fate s store p)), sources.foldl (deliver s store) store) := by
  unfold generateAllBy
  split
  · obtain ⟨houtcomes, hstore⟩ := turns_of_isInterleaving hpresent hapart horder
    obtain ⟨log, hturns⟩ :
        ∃ log, (takeTurns Store.fileOps s (order sources) fun _ => .waiting).run store = _ :=
      takeTurns_run s (order sources) (.start store)
    rw [hstore] at hturns
    refine ⟨log, ?_⟩
    rw [run_bind, hturns, ← houtcomes]
    rfl
  · exact generateAll_run hpresent (.refl store)

end Interleaved

/-- **Sources that do not share a declaration file can be worked on at the same time.** Every
interleaving of their turns gives each the outcome, and leaves the store, of working on them one after
the other. -/
theorem interleaving_eq_sequential (s : Settings) {store : Store} {found sources : List Path}
    (hfound : store.sources s.root s.entrypoints = .ok found) (hsources : sources ⊆ found)
    (hapart : Apart s sources) {schedule : List Path} (hschedule : IsInterleaving sources schedule) :
    let done := schedule.foldl (Work.turn s) (.start store)
    let sequential := (generateAll Store.fileOps s sources).run store
    done.outcomes sources = sequential.1.2 ∧ done.store = sequential.2 ∧
      Report.ofOutcomes (done.outcomes sources) = Report.ofOutcomes sequential.1.2 := by
  intro done sequential
  have hpresent := present_of_sources hfound hsources
  obtain ⟨houtcomes, hstore⟩ := turns_of_isInterleaving hpresent hapart hschedule
  obtain ⟨log, hsequential⟩ : ∃ log, sequential = _ := generateAll_run hpresent (.refl store)
  rw [houtcomes, hstore, hsequential]
  exact ⟨rfl, rfl, rfl⟩

/-- Two sources, of which the second takes both its turns between those of the first and fails. -/
theorem interleaving_eq_sequential_nested :
    let s : Settings := { entrypoints := ["**/*"] }
    let p : Path := "./src/a.ts"
    let q : Path := "./src/b.mts"
    let store := ((Store.insert {} p "export const a = 1\n").insert q "export let b = 'x'\n").protect
      "./dist/types/b.d.mts"
    store.sources s.root s.entrypoints = .ok [p, q] ∧ Apart s [p, q] ∧
      IsInterleaving [p, q] [p, q, q, p] ∧
      let done := [p, q, q, p].foldl (Work.turn s) (.start store)
      let sequential := (generateAll Store.fileOps s [p, q]).run store
      done.outcomes [p, q] = sequential.1.2 ∧ done.store = sequential.2 ∧
        Report.ofOutcomes (done.outcomes [p, q]) = Report.ofOutcomes sequential.1.2 := by
  intro s p q store
  have hfound : store.sources s.root s.entrypoints = .ok [p, q] := by decide +kernel
  have hapart : Apart s [p, q] := by decide +kernel
  have hschedule : IsInterleaving [p, q] [p, q, q, p] := by decide +kernel
  exact ⟨hfound, hapart, hschedule,
    interleaving_eq_sequential s hfound (List.Subset.refl _) hapart hschedule⟩

/-! ## Whole runs -/

/-- A run is known by what the work on the sources it finds reports and leaves. -/
theorem generateWith_congr (parse? : Text → Option Isolation.Project) {s : Settings} {store : Store}
    {work work' : List Path → StateM Store (Log × List (Path × Outcome))}
    (h : ∀ found, (cleaned s store).sources s.root s.entrypoints = .ok found →
      ((work found).run (cleaned s store)).1.2 = ((work' found).run (cleaned s store)).1.2 ∧
        ((work found).run (cleaned s store)).2 = ((work' found).run (cleaned s store)).2) :
    let run := (generateWith Store.fileOps parse? s work).run store
    let run' := (generateWith Store.fileOps parse? s work').run store
    run.1.2 = run'.1.2 ∧ run.2 = run'.2 := by
  intro run run'
  cases hcheck : ((Isolation.check Store.fileOps parse? s.tsconfig).run store).1 with
  | error e =>
    obtain ⟨hresult, hkept⟩ := generateWith_run_of_error work hcheck
    obtain ⟨hresult', hkept'⟩ := generateWith_run_of_error work' hcheck
    exact ⟨hresult.trans hresult'.symm, hkept.trans hkept'.symm⟩
  | ok _ =>
    obtain ⟨hresult, hleft⟩ := generateWith_run_of_ok work hcheck
    obtain ⟨hresult', hleft'⟩ := generateWith_run_of_ok work' hcheck
    simp only [run, run', hresult, hleft, hresult', hleft']
    cases hglobs : compileEntrypoints s.entrypoints with
    | error e =>
      obtain ⟨log, hrun⟩ := generateChecked_run_error work hglobs store
      obtain ⟨log', hrun'⟩ := generateChecked_run_error work' hglobs store
      simp only [hrun, hrun', and_self]
    | ok globs =>
      obtain ⟨log, hrun⟩ := generateChecked_run work hglobs store
      obtain ⟨log', hrun'⟩ := generateChecked_run work' hglobs store
      obtain ⟨houtcomes, hstore⟩ := h _ (by rw [Store.sources, hglobs]; rfl)
      simp only [hrun, hrun', houtcomes, hstore, and_self]

/-- A run whose sources do not share a declaration file ends as it does with one source after the
other, in whatever order the turns come of sources that are worked on at the same time. -/
theorem generateBy_eq_generate (parse? : Text → Option Isolation.Project) {s : Settings}
    {order : List Path → List Path} (horder : ∀ sources, IsInterleaving sources (order sources))
    {store : Store}
    (hapart : ∀ found, (cleaned s store).sources s.root s.entrypoints = .ok found → Apart s found) :
    let run := (generateBy order Store.fileOps parse? s).run store
    let sequential := (generate Store.fileOps parse? s).run store
    run.1.2 = sequential.1.2 ∧ run.2 = sequential.2 := by
  refine generateWith_congr parse? fun found hfound => ?_
  have hpresent := present_of_sources hfound (List.Subset.refl _)
  obtain ⟨log, hrun⟩ := generateAllBy_run hpresent (hapart found hfound) (horder found)
  obtain ⟨log', hrun'⟩ := generateAll_run (s := s) hpresent (.refl _)
  simp only [hrun, hrun', and_self]

end Ambient.Run
