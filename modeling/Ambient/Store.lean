/-
Files in memory: a map from paths to texts in the order of paths. Paths with the same components are
one key, and a key keeps the spelling it was first given.
-/
import Ambient.Files

namespace Ambient

/-- Whether the paths of files ascend. -/
def Ascending (files : List (Path × Text)) : Prop :=
  files.Pairwise fun f g => f.1.compare g.1 = .lt

structure Store where
  files : List (Path × Text) := []
  /-- The files that a run may not write. -/
  readOnly : List Path := []
  ascending : Ascending files := by exact List.Pairwise.nil
deriving DecidableEq, Repr

namespace Store

/-- Puts a text at a path of a sorted map. -/
def insertSorted (path : Path) (text : Text) : List (Path × Text) → List (Path × Text)
  | [] => [(path, text)]
  | (p, t) :: rest =>
    match path.compare p with
    | .lt => (path, text) :: (p, t) :: rest
    | .eq => (p, text) :: rest
    | .gt => (p, t) :: insertSorted path text rest

theorem mem_insertSorted {path : Path} {text : Text} {files : List (Path × Text)} {f : Path × Text}
    (h : f ∈ insertSorted path text files) :
    f = (path, text) ∨ ∃ g ∈ files, f.1 = g.1 := by
  fun_induction insertSorted path text files with
  | case1 => simp_all
  | case2 p t rest _ =>
    simp only [List.mem_cons] at h
    rcases h with rfl | rfl | h
    · exact .inl rfl
    · exact .inr ⟨_, by simp, rfl⟩
    · exact .inr ⟨f, by simp [h], rfl⟩
  | case3 p t rest _ =>
    simp only [List.mem_cons] at h
    rcases h with rfl | h
    · exact .inr ⟨(p, t), by simp, rfl⟩
    · exact .inr ⟨f, by simp [h], rfl⟩
  | case4 p t rest _ ih =>
    simp only [List.mem_cons] at h
    rcases h with rfl | h
    · exact .inr ⟨_, by simp, rfl⟩
    · rcases ih h with rfl | ⟨g, hg, hfg⟩
      · exact .inl rfl
      · exact .inr ⟨g, by simp [hg], hfg⟩

theorem ascending_insertSorted {path : Path} {text : Text} {files : List (Path × Text)}
    (h : Ascending files) : Ascending (insertSorted path text files) := by
  fun_induction insertSorted path text files with
  | case1 => exact List.pairwise_singleton _ _
  | case2 p t rest hlt =>
    refine List.pairwise_cons.2 ⟨fun f hf => ?_, h⟩
    rcases List.mem_cons.1 hf with rfl | hf
    · exact hlt
    · exact Std.TransCmp.lt_trans hlt ((List.pairwise_cons.1 h).1 f hf)
  | case3 p t rest _ =>
    obtain ⟨hfirst, hrest⟩ := List.pairwise_cons.1 h
    exact List.pairwise_cons.2 ⟨fun f hf => hfirst f hf, hrest⟩
  | case4 p t rest hgt ih =>
    obtain ⟨hfirst, hrest⟩ := List.pairwise_cons.1 h
    refine List.pairwise_cons.2 ⟨fun f hf => ?_, ih hrest⟩
    rcases mem_insertSorted hf with rfl | ⟨g, hg, hfg⟩
    · exact Std.OrientedCmp.lt_of_gt hgt
    · rw [hfg]
      exact hfirst g hg

/-- The store with a text at a path, whether the file is read only or not. -/
def insert (s : Store) (path : Path) (text : Text) : Store where
  files := insertSorted path text s.files
  readOnly := s.readOnly
  ascending := ascending_insertSorted s.ascending

def protect (s : Store) (path : Path) : Store :=
  { s with readOnly := path :: s.readOnly }

def get? (s : Store) (path : Path) : Option Text :=
  (s.files.find? (·.1.same path)).map (·.2)

def paths (s : Store) : List Path :=
  s.files.map (·.1)

def isReadOnly (s : Store) (path : Path) : Bool :=
  s.readOnly.any (·.same path)

/-- The store without the files under a path. -/
def eraseTree (s : Store) (path : Path) : Store where
  files := s.files.filter fun f => !f.1.startsWith path
  readOnly := s.readOnly
  ascending := s.ascending.sublist List.filter_sublist

/-- Whether there is a file at a path or under it. -/
def present (s : Store) (path : Path) : Bool :=
  s.paths.any (·.startsWith path)

def read (s : Store) (path : Path) : Except IoError Text :=
  match s.get? path with
  | some t => .ok t
  | none => .error .absent

def write (s : Store) (path : Path) (text : Text) : Except Failure Unit × Store :=
  if s.isReadOnly path then (.error (.write .readOnly path), s) else (.ok (), s.insert path text)

def sources (s : Store) (root : Path) (entrypoints : List Text) : Except Failure (List Path) := do
  let globs ← compileEntrypoints entrypoints
  return s.paths.filter (isSelected globs root)

/-- The operations of a run on a store. -/
def fileOps : Files (StateM Store) where
  read path := return (← get).read path
  write path text := modifyGet (·.write path text)
  removeTree path := do modify (·.eraseTree path); return .ok ()
  present path := return (← get).present path
  sources root entrypoints := return (← get).sources root entrypoints
  bound := return (← get).files.length

/-- A project file that asks for isolated declarations. -/
def isolatedProject : Text :=
  "\x7b \"compilerOptions\": \x7b \"isolatedDeclarations\": true \x7d \x7d"

end Store

end Ambient
