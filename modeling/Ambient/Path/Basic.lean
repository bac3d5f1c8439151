/-
Paths: a text, and the components it names.

A path keeps its spelling. Comparison, order and prefix tests look at components only, where repeated
slashes, a slash at the end and a dot anywhere but at the start do not show. `normalize` resolves `.`
and `..` on the text of a path alone, and `absolute` does so from the working directory.
-/
import Ambient.Text.Basic

namespace Ambient

structure Path where
  text : Text
deriving DecidableEq, Repr

instance : Coe String Path := ⟨fun s => ⟨s.toList⟩⟩

namespace Path

inductive Component where
  | root
  /-- A dot at the start of a path. -/
  | current
  | parent
  | name (text : Text)
deriving DecidableEq, Repr

namespace Component

def text : Component → Text
  | .root => "/"
  | .current => "."
  | .parent => ".."
  | .name t => t

def isName : Component → Bool
  | .name _ => true
  | _ => false

/-- The place of a kind of component in the order of components. -/
def rank : Component → Nat
  | .root => 0
  | .current => 1
  | .parent => 2
  | .name _ => 3

/-- The order of components: by kind, and names by their characters. -/
def compare (a b : Component) : Ordering :=
  (Ord.compare a.rank b.rank).then (List.compareLex Ord.compare a.text b.text)

instance : Std.TransCmp compare :=
  inferInstanceAs (Std.TransCmp (compareLex (compareOn rank) (compareOn (β := List Char) text)))

instance : Std.LawfulEqCmp compare where
  eq_of_compare {a b} h := by
    simp only [compare, Ordering.then_eq_eq, Std.LawfulEqCmp.compare_eq_iff_eq] at h
    obtain ⟨hrank, htext⟩ := h
    cases a <;> cases b <;> simp_all [rank, text]

end Component

/-- A component and where its text starts and stops, in characters. -/
structure Located where
  component : Component
  start : Nat
  stop : Nat
deriving DecidableEq, Repr

/-- The component a stretch of text between slashes makes. -/
def segment? (first : Bool) (t : Text) : Option Component :=
  if t = [] then none
  else if t = ['.'] then if first then some .current else none
  else if t = ['.', '.'] then some .parent
  else some (.name t)

/-- The components of the stretches between slashes, when the first starts at `start`. -/
def locate (first : Bool) (start : Nat) : List Text → List Located
  | [] => []
  | t :: rest =>
    ((segment? first t).map fun c => ⟨c, start, start + t.length⟩).toList ++
      locate false (start + t.length + 1) rest

def isAbsolute (p : Path) : Bool :=
  p.text.head? == some '/'

def located (p : Path) : List Located :=
  (if p.isAbsolute then [⟨.root, 0, 1⟩] else []) ++ locate true 0 (p.text.splitOn '/')

def components (p : Path) : List Component :=
  p.located.map Located.component

/-- Whether two paths have the same components. -/
def same (p q : Path) : Bool :=
  p.components == q.components

def compare (p q : Path) : Ordering :=
  List.compareLex Component.compare p.components q.components

instance : Std.TransCmp compare where
  eq_swap := by
    simp only [compare]
    exact Std.OrientedCmp.eq_swap
  isLE_trans hab hbc := by
    simp only [compare] at hab hbc ⊢
    exact Std.TransCmp.isLE_trans hab hbc

theorem same_iff {p q : Path} : p.same q = true ↔ p.components = q.components := by
  simp [same]

theorem compare_eq_iff {p q : Path} : p.compare q = .eq ↔ p.components = q.components := by
  simp [compare, Std.LawfulEqCmp.compare_eq_iff_eq]

/-- Whether the components of `base` are the first of `p`. -/
def startsWith (p base : Path) : Bool :=
  base.components.isPrefixOf p.components

/-- The path that names the given components. -/
def ofComponents : List Component → Path
  | .root :: cs => ⟨'/' :: List.intercalate ['/'] (cs.map Component.text)⟩
  | cs => ⟨List.intercalate ['/'] (cs.map Component.text)⟩

/-- The path `q` seen from `p`. -/
def join (p q : Path) : Path :=
  if q.isAbsolute || p.text.isEmpty then q
  else if p.text.getLast? = some '/' then ⟨p.text ++ q.text⟩
  else ⟨p.text ++ '/' :: q.text⟩

/-- Where the text stops that is left when the last components are taken off one by one. The root is
not taken off. -/
def parentStops (p : Path) : List Nat :=
  let stops := p.located.dropLast.map Located.stop
  if p.text.isEmpty then []
  else if p.isAbsolute then stops.reverse
  else stops.reverse ++ [0]

/-- The directories above a path, the nearest first. -/
def parents (p : Path) : List Path :=
  p.parentStops.map fun n => ⟨p.text.take n⟩

def parent? (p : Path) : Option Path :=
  p.parents.head?

/-- The path and the directories above it. -/
def ancestors (p : Path) : List Path :=
  p :: p.parents

def fileName? (p : Path) : Option Text :=
  match p.components.getLast? with
  | some (.name t) => some t
  | _ => none

/-- The text around the last dot. -/
def splitLastDot? (t : Text) : Option (Text × Text) :=
  match t.reverse.dropWhile (· != '.') with
  | [] => none
  | _ :: stem => some (stem.reverse, (t.reverse.takeWhile (· != '.')).reverse)

/-- What follows the last dot of the file name. A dot that the name starts with does not count. -/
def extension? (p : Path) : Option Text := do
  let (stem, extension) ← splitLastDot? (← p.fileName?)
  if stem.isEmpty then none else some extension

/-- The path with another file name, which is added where the path has none. -/
def withFileName (p : Path) (name : Text) : Path :=
  if p.fileName?.isSome then ((p.parent?).getD p).join ⟨name⟩ else p.join ⟨name⟩

/-- What is left of `p` behind the components of `base`. -/
def stripBase? (p base : Path) : Option Path :=
  if p.startsWith base then
    match p.located.drop base.located.length, p.located.getLast? with
    | first :: _, some last => some ⟨(p.text.take last.stop).drop first.start⟩
    | _, _ => some ⟨[]⟩
  else none

/-! ## Paths without dots -/

/-- Adds a component behind others, the last of which stands first. Nothing lies above the root, and
above a relative start `..` is kept. -/
def push (stack : List Component) (c : Component) : List Component :=
  match c, stack with
  | .current, _ => stack
  | .parent, .name _ :: rest => rest
  | .parent, .root :: _ => stack
  | _, _ => c :: stack

def resolve (cs : List Component) : List Component :=
  (cs.foldl push []).reverse

/-- The path without `.` and without `..` where something stands before it. -/
def normalize (p : Path) : Path :=
  ofComponents (resolve p.components)

/-- The normal path from the root, for a working directory. -/
def absolute (cwd p : Path) : Path :=
  normalize (cwd.join p)

end Path

end Ambient
