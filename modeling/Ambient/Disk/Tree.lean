/-
Directory trees: files with their content, and directories with named entries.
-/
import Ambient.Text.Basic

namespace Ambient

/-- What a file holds: text, or bytes that are no text. -/
inductive Content where
  | text (text : Text)
  | binary (bytes : List UInt8)
deriving DecidableEq, Repr

namespace Content

def ofBytes (bytes : List UInt8) : Content :=
  match String.fromUTF8? ⟨bytes.toArray⟩ with
  | some s => .text s.toList
  | none => .binary bytes

def text? : Content → Option Text
  | .text t => some t
  | .binary _ => none

/-- The lines of bytes, each with the line feed that ends it. -/
def byteLines : List UInt8 → List (List UInt8)
  | [] => []
  | b :: rest =>
    if b = 10 then [b] :: byteLines rest
    else
      match byteLines rest with
      | [] => [[b]]
      | line :: more => (b :: line) :: more

/-- The lines of a file before the first that is no text. -/
def lines : Content → List Text
  | .text t => Text.lines t
  | .binary bytes =>
    (((byteLines bytes).map fun line => (ofBytes line).text?).takeWhile Option.isSome).filterMap
      fun line => line.map Text.lineContent

end Content

/-- A place in a tree: the names that lead to it from the top. -/
abbrev Location := List Text

inductive Tree where
  | file (content : Content)
  | directory (entries : List (Text × Tree))
deriving Repr

namespace Tree

def empty : Tree :=
  .directory []

def isDirectory : Tree → Bool
  | .directory _ => true
  | .file _ => false

/-- The entry of a directory with the given name. -/
def entry? (t : Tree) (name : Text) : Option Tree :=
  match t with
  | .directory entries => entries.lookup name
  | .file _ => none

def get? : Tree → Location → Option Tree
  | t, [] => some t
  | t, name :: rest =>
    match t.entry? name with
    | some u => u.get? rest
    | none => none
termination_by structural _ l => l

/-- The entries with `t` under a name. -/
def putEntry (name : Text) (t : Tree) : List (Text × Tree) → List (Text × Tree)
  | [] => [(name, t)]
  | (other, u) :: rest =>
    if other = name then (other, t) :: rest else (other, u) :: putEntry name t rest

/-- The tree with `new` at a place. Directories on the way that are not there are added. -/
def set : Tree → Location → Tree → Tree
  | _, [], new => new
  | .directory entries, name :: rest, new =>
    .directory (putEntry name (set ((entries.lookup name).getD empty) rest new) entries)
  | .file content, _ :: _, _ => .file content
termination_by structural _ place => place

/-- The tree without what is at a place. The top itself is only emptied. -/
def erase : Tree → Location → Tree
  | _, [] => empty
  | .directory entries, [name] => .directory (entries.filter (·.1 != name))
  | .directory entries, name :: next :: rest =>
    match entries.lookup name with
    | some t => .directory (putEntry name (erase t (next :: rest)) entries)
    | none => .directory entries
  | .file content, _ :: _ => .file content
termination_by structural _ place => place

mutual

/-- The files of a tree with their content, and the directories that hold nothing. -/
def leaves : Tree → List (Location × Option Content)
  | .file content => [([], some content)]
  | .directory [] => [([], none)]
  | .directory (entry :: entries) => leavesOf (entry :: entries)

def leavesOf : List (Text × Tree) → List (Location × Option Content)
  | [] => []
  | (name, t) :: rest => t.leaves.map (fun (place, content) => (name :: place, content)) ++ leavesOf rest

end

end Tree

end Ambient
