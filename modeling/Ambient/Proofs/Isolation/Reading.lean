/-
The check of a project only reads: it leaves a store as it is, and refuses a project with a failed
precondition and nothing else.
-/
import Ambient.Isolation.Chain
import Ambient.Store

namespace Ambient.Isolation

/-- A computation that leaves the store as it is. -/
def Keeps {α : Type} (x : StateM Store α) : Prop :=
  ∀ store, (x.run store).2 = store

theorem Keeps.pure {α : Type} (a : α) : Keeps (Pure.pure a : StateM Store α) :=
  fun _ => rfl

theorem Keeps.bind {α β : Type} {x : StateM Store α} {f : α → StateM Store β} (hx : Keeps x)
    (hf : ∀ a, Keeps (f a)) : Keeps (x >>= f) := by
  intro store
  show ((f (x.run store).1).run (x.run store).2).2 = store
  rw [hf, hx]

theorem keeps_read (path : Path) : Keeps (Store.fileOps.read path) :=
  fun _ => rfl

theorem keeps_firstReadable (ps : List Path) : Keeps (firstReadable Store.fileOps.read ps) := by
  induction ps with
  | nil => exact .pure _
  | cons p rest ih =>
    refine .bind (keeps_read p) fun text => ?_
    cases text with
    | ok _ => exact .pure _
    | error _ => exact ih

theorem keeps_resolveBase (directory : Path) (base : Text) :
    Keeps (resolveBase Store.fileOps.read directory base) := by
  refine .bind (keeps_firstReadable _) fun found => ?_
  cases found <;> exact .pure _

theorem keeps_follow (parse? : Text → Option Project) (bound : Nat) (visited : List Path)
    (path : Path) : Keeps (follow Store.fileOps.read parse? bound visited path) := by
  induction bound generalizing visited path with
  | zero => exact .pure _
  | succ bound ih =>
    simp only [follow]
    split
    · exact .pure _
    refine .bind (keeps_read path) fun text => ?_
    split
    · exact .pure _
    split
    · exact .pure _
    split
    · exact .pure _
    refine .bind (keeps_resolveBase _ _) fun next => ?_
    split
    · exact .pure _
    refine .bind (ih _ _) fun inherited => ?_
    split <;> exact .pure _

theorem keeps_check (parse? : Text → Option Project) (path : Path) :
    Keeps (check Store.fileOps parse? path) := by
  refine .bind (.bind (fun _ => rfl) fun bound => ?_) fun _ => .pure _
  exact .bind (keeps_follow parse? _ _ _) fun _ => .pure _

/-- A failed check is a failed precondition of the project file that was checked. -/
theorem eq_precondition_of_failureOf {path : Path} {enabled : Except Fault Bool} {e : Failure}
    (h : failureOf path enabled = .error e) : ∃ reason, e = .precondition path reason := by
  cases enabled with
  | error fault =>
    cases h
    exact ⟨_, rfl⟩
  | ok b =>
    cases b with
    | false =>
      cases h
      exact ⟨_, rfl⟩
    | true => cases h

end Ambient.Isolation
