/-
The way from one path to another, which files are sources, and where the declaration file of a source
goes.
-/
import Ambient.Path.Basic

namespace Ambient.Path

/-- The components that lead from `base` to `path`, behind `done`. There is no way out of a directory
that is only known as `..`. -/
def wayFrom? (done : List Component) : List Component → List Component → Option (List Component)
  | path, [] => some (done ++ path)
  | [], base => some (done ++ base.map fun _ => .parent)
  | a :: path, b :: base =>
    if done.isEmpty ∧ a = b then wayFrom? done path base
    else if b = .current then wayFrom? (done ++ [a]) path base
    else if b = .parent then none
    else some (done ++ .parent :: base.map (fun _ => .parent) ++ a :: path)

/-- The path that leads from `base` to `p`. -/
def relativeTo? (p base : Path) : Option Path :=
  if p.isAbsolute = base.isAbsolute then (wayFrom? [] p.components base.components).map ofComponents
  else if p.isAbsolute then some p
  else none

def sourceExtensions : List Text :=
  ["ts", "tsx", "mts", "cts"]

def declarationEndings : List Text :=
  [".d.ts", ".d.mts", ".d.cts"]

/-- Whether declarations can be generated for a file. A declaration file is no source. -/
def isSource (p : Path) : Bool :=
  p.fileName?.any (fun name => !declarationEndings.any (Text.endsWith name)) &&
    p.extension?.any sourceExtensions.contains

/-- The ending of a declaration file, by the extension of its source. -/
def declarationEnding (extension : Text) : Text :=
  if extension = ("mts" : Text) then (".d.mts" : Text)
  else if extension = ("cts" : Text) then (".d.cts" : Text)
  else (".d.ts" : Text)

/-- The name of the declaration file for a file name. -/
def declarationName (name : Text) : Text :=
  match splitLastDot? name with
  | none => name ++ (".d.ts" : Text)
  | some (stem, extension) => stem ++ declarationEnding extension

/-- Where a file stands under the root. A file outside the root stands directly in it. -/
def placeUnder (root file : Path) : Path :=
  match ((file.stripBase? root).or (file.relativeTo? root)).filter (!·.startsWith "..") with
  | some place => place
  | none => ⟨file.fileName?.getD []⟩

/-- The declaration file of a source: its place under the root, taken under the output directory. -/
def output (root outdir file : Path) : Path :=
  let place := outdir.join (placeUnder root file)
  match place.fileName? with
  | some name => place.withFileName (declarationName name)
  | none => place

end Ambient.Path
