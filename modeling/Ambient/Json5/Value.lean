/-
The values of JSON5.

A document may write what has no value: a number out of range, or half of a surrogate pair. Such a
part is kept as `unreadable`, because a document is only refused when that part is looked at.
-/
import Ambient.Text.Basic

namespace Ambient.Json5

inductive Value where
  | null
  | boolean (value : Bool)
  | number
  | string (text : Text)
  | unreadable
  | array (items : List Value)
  /-- The entries in the order of the document. A key without a value as text is `none`. -/
  | object (entries : List (Option Text × Value))
deriving Repr

mutual

/-- Whether every part of a value can be read. -/
def Value.isReadable : Value → Bool
  | .null | .boolean _ | .number | .string _ => true
  | .unreadable => false
  | .array items => allReadable items
  | .object entries => entriesReadable entries

def allReadable : List Value → Bool
  | [] => true
  | v :: vs => v.isReadable && allReadable vs

def entriesReadable : List (Option Text × Value) → Bool
  | [] => true
  | (key, v) :: es => key.isSome && v.isReadable && entriesReadable es

end

end Ambient.Json5
