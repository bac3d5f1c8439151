/-
The part of a TypeScript project file that matters here: what it extends, and whether it asks for
isolated declarations.
-/
import Ambient.Json5.Document

namespace Ambient.Isolation

open Json5 (Value)

structure Project where
  /-- The project file whose settings hold where this one has none. -/
  base : Option Text := none
  isolated : Option Bool := none
deriving DecidableEq, Repr

/-- The values of a field among entries: none, one, or a refusal when there are more. -/
def single? (key : Text) (entries : List (Option Text × Value)) : Option (Option Value) :=
  match entries.filter (·.1 == some key) with
  | [] => some none
  | [(_, v)] => some (some v)
  | _ => none

/-- Whether the entries of all other fields can be read. -/
def othersReadable (keys : List Text) (entries : List (Option Text × Value)) : Bool :=
  entries.all fun (key, v) => key.any keys.contains || (key.isSome && v.isReadable)

/-- The values of fields in order, for an object, or for an array that lists the fields. A field that
is missing is `none`. -/
def fields? (keys : List Text) : Value → Option (List (Option Value))
  | .object entries => do
    guard (othersReadable keys entries)
    keys.mapM (single? · entries)
  | .array items => some (keys.mapIdx fun i _ => items[i]?)
  | _ => none

def baseOf? : Option Value → Option (Option Text)
  | none | some .null => some none
  | some (.string t) => some (some t)
  | some _ => none

def flagOf? : Option Value → Option (Option Bool)
  | none | some .null => some none
  | some (.boolean b) => some (some b)
  | some _ => none

def isolatedOf? : Option Value → Option (Option Bool)
  | none => some none
  | some v => do
    match ← fields? ["isolatedDeclarations"] v with
    | [flag] => flagOf? flag
    | _ => none

def Project.ofValue? (v : Value) : Option Project := do
  match ← fields? ["extends", "compilerOptions"] v with
  | [base, options] => return { base := ← baseOf? base, isolated := ← isolatedOf? options }
  | _ => none

/-- The project that a file holds. -/
def Project.parse? (t : Text) : Option Project := do
  Project.ofValue? (← Json5.parse? t)

end Ambient.Isolation
