/-
Which settings a search from a directory ends with.

The search looks into the directory and up to nine above it, and takes the first file there that holds
settings (`loadNear_run`). The nearest file is another thing in two cases (`Overlooked`): it may stand
in the tenth directory above, where the search does not come, and it may hold no settings, where the
search goes on to files farther up.
-/
import Ambient.Disk.Walk
import Ambient.Proofs.Path.Components
import Ambient.Settings.Search

namespace Ambient.Settings

section

variable (d : Disk) (parse? : Text → Option Settings)

/-- The text of the settings file in a directory. -/
def textIn? (directory : Path) : Option Text :=
  (d.read (directory.join ".dtsgen.toml")).toOption

/-- The settings of the first settings file that holds any. -/
def firstUsable? (directories : List Path) : Option Settings :=
  directories.findSome? fun directory => (textIn? d directory).bind parse?

/-- The settings of the first settings file: the defaults if it holds none, or if there is none. -/
def nearest (directories : List Path) : Settings :=
  ((directories.findSome? (textIn? d)).bind parse?).getD {}

/-- A search from `start` overlooks the nearest file, and the settings `s` make the difference. -/
inductive Overlooked (start : Path) (s : Settings) : Prop where
  /-- They stand in the nearest file, one directory too far up. -/
  | outOfReach {directory : Path} (hnone : (start.ancestors.take 10).findSome? (textIn? d) = none)
      (hdirectory : start.ancestors[10]? = some directory)
      (hsettings : (textIn? d directory).bind parse? = some s)
  /-- They stand farther up than the nearest file, which holds no settings. -/
  | passedOver {text : Text} (hnear : (start.ancestors.take 10).findSome? (textIn? d) = some text)
      (hparse : parse? text = none) (hfar : firstUsable? d parse? (start.ancestors.take 10) = some s)

/-! ## The search -/

theorem tryLoad_run (path : Path) :
    ∃ log, (tryLoad Disk.fileOps.read parse? path).run d =
      ((log, (d.read path).toOption.bind parse?), d) := by
  have hread : (Disk.fileOps.read path).run d = pure (d.read path, d) := rfl
  rw [tryLoad, StateT.run_bind, hread, pure_bind]
  cases d.read path with
  | error e => cases e <;> exact ⟨_, rfl⟩
  | ok text =>
    simp only [Except.toOption, Option.bind_some]
    cases parse? text <;> exact ⟨_, rfl⟩

/-- The search looks at one file after the other and leaves the disk as it is. -/
theorem loadFirst_run (paths : List Path) :
    ∃ log, (loadFirst Disk.fileOps.read parse? paths).run d =
      ((log, (paths.findSome? fun path => (d.read path).toOption.bind parse?).getD {}), d) := by
  induction paths with
  | nil => exact ⟨_, rfl⟩
  | cons path rest ih =>
    obtain ⟨log, hload⟩ := tryLoad_run d parse? path
    obtain ⟨more, hrest⟩ := ih
    rw [loadFirst, StateT.run_bind, hload, List.findSome?_cons]
    cases (d.read path).toOption.bind parse? with
    | some s => exact ⟨_, rfl⟩
    | none =>
      refine ⟨log ++ more, ?_⟩
      change StateT.run (loadFirst Disk.fileOps.read parse? rest >>= _) d = _
      rw [StateT.run_bind, hrest]
      rfl

theorem loadNear_run (start : Path) :
    ∃ log, (loadNear Disk.fileOps.read parse? start).run d =
      ((log, (firstUsable? d parse? (start.ancestors.take 10)).getD {}), d) := by
  obtain ⟨log, hrun⟩ := loadFirst_run d parse? ((searched start).map (·.join ⟨fileName⟩))
  rw [List.findSome?_map] at hrun
  exact ⟨log, hrun⟩

/-! ## The nearest file -/

section

variable {d parse?} {directories : List Path}

theorem firstUsable?_of_none (h : directories.findSome? (textIn? d) = none) :
    firstUsable? d parse? directories = none := by
  rw [List.findSome?_eq_none_iff] at h
  refine List.findSome?_eq_none_iff.2 fun directory hdirectory => ?_
  rw [h directory hdirectory, Option.bind_none]

theorem firstUsable?_of_some {text : Text} {s : Settings}
    (h : directories.findSome? (textIn? d) = some text) (hparse : parse? text = some s) :
    firstUsable? d parse? directories = some s := by
  obtain ⟨before, directory, behind, rfl, htext, hbefore⟩ := List.findSome?_eq_some_iff.1 h
  have hnone : firstUsable? d parse? before = none :=
    firstUsable?_of_none (List.findSome?_eq_none_iff.2 hbefore)
  rw [firstUsable?] at hnone
  rw [firstUsable?, List.findSome?_append, hnone, Option.none_or, List.findSome?_cons, htext,
    Option.bind_some, hparse]

/-- One directory more on the way up. -/
theorem nearest_take_succ (n : Nat) :
    nearest d parse? (directories.take (n + 1)) =
      ((((directories.take n).findSome? (textIn? d)).or
        (directories[n]?.bind (textIn? d))).bind parse?).getD {} := by
  rw [nearest, List.take_add_one, List.findSome?_append]
  cases directories[n]? <;> simp

variable {start : Path} {s : Settings}

theorem overlooked_of_none (h : (start.ancestors.take 10).findSome? (textIn? d) = none) :
    Overlooked d parse? start s ↔
      (start.ancestors[10]?.bind (textIn? d)).bind parse? = some s := by
  constructor
  · rintro (⟨-, hdirectory, hsettings⟩ | ⟨hnear, -, -⟩)
    · rw [hdirectory, Option.bind_some, hsettings]
    · cases h.symm.trans hnear
  · intro hfar
    obtain ⟨text, htext, hparse⟩ := Option.bind_eq_some_iff.1 hfar
    obtain ⟨directory, hdirectory, htext⟩ := Option.bind_eq_some_iff.1 htext
    exact .outOfReach h hdirectory (by rw [htext, Option.bind_some, hparse])

theorem overlooked_of_some {text : Text}
    (h : (start.ancestors.take 10).findSome? (textIn? d) = some text) :
    Overlooked d parse? start s ↔
      parse? text = none ∧ firstUsable? d parse? (start.ancestors.take 10) = some s := by
  constructor
  · rintro (⟨hnone, -, -⟩ | ⟨hnear, hparse, hfar⟩)
    · cases h.symm.trans hnone
    · cases h.symm.trans hnear
      exact ⟨hparse, hfar⟩
  · rintro ⟨hparse, hfar⟩
    exact .passedOver h hparse hfar

end

theorem getD_eq_default_iff (found : Option Settings) :
    found.getD {} = {} ↔ ∀ other, found = some other → other = {} := by
  cases found <;> simp

/-- **The search for settings** takes the settings of the first file that holds any, of the directory
itself and of up to nine above it, and the defaults if there is none. With each directory one
component goes, down to the root. This is what the nearest file among eleven directories holds, or
the defaults where that file holds no settings, unless the nearest file is overlooked for settings that
are not the defaults. -/
theorem loadNear_unless_overlooked {start : Path} (habs : start.isAbsolute = true) :
    (∀ i, start.ancestors[i]?.map Path.components =
      if i < start.components.length then some (start.components.take (start.components.length - i))
      else none) ∧
    ∃ log s, (loadNear Disk.fileOps.read parse? start).run d = ((log, s), d) ∧
      s = (firstUsable? d parse? (start.ancestors.take 10)).getD {} ∧
      (s = nearest d parse? (start.ancestors.take 11) ↔
        ∀ other, Overlooked d parse? start other → other = {}) := by
  obtain ⟨log, hrun⟩ := loadNear_run d parse? start
  refine ⟨Path.getElem?_ancestors habs, log, _, hrun, rfl, ?_⟩
  rw [nearest_take_succ]
  cases hnear : (start.ancestors.take 10).findSome? (textIn? d) with
  | none =>
    simp only [overlooked_of_none hnear, firstUsable?_of_none hnear, Option.getD_none, Option.none_or]
    rw [eq_comm, getD_eq_default_iff]
  | some text =>
    simp only [overlooked_of_some hnear, Option.some_or, Option.bind_some]
    cases hparse : parse? text with
    | none =>
      simp only [Option.getD_none, true_and]
      exact getD_eq_default_iff _
    | some s =>
      rw [firstUsable?_of_some hnear hparse]
      simp

end

/-- Directories in one another, all of one name. -/
def nested (name : Text) : Nat → Tree
  | 0 => .directory []
  | n + 1 => .directory [(name, nested name n)]

/-- A disk with settings at the root, where one directory has a settings file that holds none, and
another has nine more below it. -/
def mixed : Disk where
  top := .directory [(fileName, .file (.text "clean = false\n")),
    ("a", .directory [(fileName, .file (.text "clean = 1\n"))]), ("b", nested "b" 9)]
  here := []

/-- The lowest directory of that disk. -/
def lowest : Path :=
  "/b/b/b/b/b/b/b/b/b/b"

/-- The settings at the root are used below a nearer file that holds none, and are not seen from ten
directories below. -/
theorem loadNear_unless_overlooked_mixed :
    (Path.isAbsolute "/a" = true ∧ lowest.isAbsolute = true) ∧
    (∃ log, (loadNear Disk.fileOps.read parse? "/a").run mixed = ((log, { clean := false }), mixed)) ∧
    nearest mixed parse? ((Path.ancestors "/a").take 11) = {} ∧
    (∃ log, (loadNear Disk.fileOps.read parse? lowest).run mixed = ((log, {}), mixed)) ∧
    nearest mixed parse? (lowest.ancestors.take 11) = { clean := false } := by
  have habs : Path.isAbsolute "/a" = true ∧ lowest.isAbsolute = true := by decide
  obtain ⟨-, log, s, hrun, hs, -⟩ := loadNear_unless_overlooked mixed parse? habs.1
  obtain ⟨-, log', s', hrun', hs', -⟩ := loadNear_unless_overlooked mixed parse? habs.2
  have hused : s = { clean := false } := hs.trans (by decide +kernel)
  have hunseen : s' = {} := hs'.trans (by decide +kernel)
  exact ⟨habs, ⟨log, hused ▸ hrun⟩, by decide +kernel, ⟨log', hunseen ▸ hrun'⟩, by decide +kernel⟩

end Ambient.Settings
