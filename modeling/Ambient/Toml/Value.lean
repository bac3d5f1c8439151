/-
The values of a TOML document, and how its tables grow line by line.

A table knows how it came about, because that decides what may still be added to it: a header opens a
table once, dotted keys add only to tables that dotted keys made, and nothing is added to an inline
table.
-/
import Ambient.Text.Basic

namespace Ambient.Toml

/-- How a table came about. -/
inductive TableKind where
  /-- The document itself, or a table with a header. -/
  | header
  /-- A table that the header of a table in it implies. -/
  | implied
  | dotted
  | inline
deriving DecidableEq, Repr

inductive Value where
  | string (text : Text)
  | integer (value : Int)
  | float (text : Text)
  | boolean (value : Bool)
  | dateTime (text : Text)
  | array (items : List Value)
  /-- An array that headers in double brackets make, one table each. -/
  | tables (items : List Value)
  | table (kind : TableKind) (entries : List (Text × Value))
deriving Repr

abbrev Entries := List (Text × Value)

namespace Entries

def get? (entries : Entries) (key : Text) : Option Value :=
  List.lookup key entries

/-- The entries with a value for a key, in the place of the one it had. -/
def put (entries : Entries) (key : Text) (value : Value) : Entries :=
  if (entries.get? key).isSome then entries.map fun e => if e.1 = key then (key, value) else e
  else entries ++ [(key, value)]

/-- The entries with a value for a new key. -/
def insert? (entries : Entries) (key : Text) (value : Value) : Option Entries :=
  if (entries.get? key).isSome then none else some (entries ++ [(key, value)])

end Entries

/-- Changes the table at the end of a path of keys. Tables on the way are made as `made`; one that is
there is entered if its kind satisfies `enters`, and of an array of tables the last is entered. -/
def descend (made : TableKind) (enters : TableKind → Bool)
    (change : TableKind → Entries → Option (TableKind × Entries)) :
    List Text → TableKind → Entries → Option (TableKind × Entries)
  | [], kind, entries => change kind entries
  | key :: path, kind, entries => do
    match entries.get? key with
    | none =>
      let (k, inner) ← descend made enters change path made []
      return (kind, entries.put key (.table k inner))
    | some (.table k inner) =>
      guard (enters k)
      let (k, inner) ← descend made enters change path k inner
      return (kind, entries.put key (.table k inner))
    | some (.tables items) =>
      match items.getLast? with
      | some (.table k inner) =>
        let (k, inner) ← descend made enters change path k inner
        return (kind, entries.put key (.tables (items.dropLast ++ [.table k inner])))
      | _ => none
    | some _ => none

/-- Adds a value at a dotted key. A table that dotted keys did not make takes none of them. -/
def addKey (path : List Text) (key : Text) (value : Value) (kind : TableKind) (entries : Entries) :
    Option Entries := do
  let change (k : TableKind) (inner : Entries) : Option (TableKind × Entries) := do
    guard (path.isEmpty || k == .dotted)
    return (k, ← inner.insert? key value)
  return (← descend .dotted (fun k => k == .dotted || k == .implied) change path kind entries).2

/-- Adds the table of a header in single brackets. Its header must be the first, but tables in it may
come before it. -/
def openTable (path : List Text) (key : Text) (root : Entries) : Option Entries := do
  let change (k : TableKind) (entries : Entries) : Option (TableKind × Entries) :=
    match entries.get? key with
    | none => some (k, entries.put key (.table .header []))
    | some (.table .implied inner) => some (k, entries.put key (.table .header inner))
    | some _ => none
  return (← descend .implied (· != .inline) change path .header root).2

/-- Adds a table to the array of a header in double brackets. -/
def openElement (path : List Text) (key : Text) (root : Entries) : Option Entries := do
  let change (k : TableKind) (entries : Entries) : Option (TableKind × Entries) :=
    match entries.get? key with
    | none => some (k, entries.put key (.tables [.table .header []]))
    | some (.tables items) => some (k, entries.put key (.tables (items ++ [.table .header []])))
    | some _ => none
  return (← descend .implied (· != .inline) change path .header root).2

/-- Adds a value at a dotted key below the table that the last header opened. -/
def addUnder (header : List Text) (path : List Text) (key : Text) (value : Value) (root : Entries) :
    Option Entries := do
  let change (k : TableKind) (entries : Entries) : Option (TableKind × Entries) :=
    (addKey path key value k entries).map fun inner => (k, inner)
  return (← descend .header (fun _ => true) change header .header root).2

end Ambient.Toml
