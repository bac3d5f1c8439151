/-
The settings of a run.
-/
import Ambient.Document
import Ambient.Path.Basic

namespace Ambient

open Declaration (Fallback)

structure Settings where
  /-- The directory of the sources. -/
  root : Path := "./src"
  /-- The directory of the declaration files. -/
  outdir : Path := "./dist/types"
  /-- Whether the output directory is removed before a run. -/
  clean : Bool := true
  /-- The globs that select sources by their path under the root. -/
  entrypoints : List Text := ["**/*.ts"]
  tsconfig : Path := "tsconfig.json"
  keepComments : Bool := true
  fallback : Fallback := .any
  /-- Whether the sources are worked on at the same time. -/
  parallel : Bool := false
deriving DecidableEq, Repr

namespace Settings

def options (s : Settings) : Document.Options :=
  { fallback := s.fallback, keepComments := s.keepComments }

/-- Values that take the place of settings. -/
structure Overrides where
  root : Option Path := none
  outdir : Option Path := none
  clean : Option Bool := none
  entrypoints : Option (List Text) := none
  tsconfig : Option Path := none
  keepComments : Option Bool := none
  fallback : Option Fallback := none
  parallel : Option Bool := none
deriving DecidableEq, Repr

def override (s : Settings) (o : Overrides) : Settings where
  root := o.root.getD s.root
  outdir := o.outdir.getD s.outdir
  clean := o.clean.getD s.clean
  entrypoints := o.entrypoints.getD s.entrypoints
  tsconfig := o.tsconfig.getD s.tsconfig
  keepComments := o.keepComments.getD s.keepComments
  fallback := o.fallback.getD s.fallback
  parallel := o.parallel.getD s.parallel

end Settings

end Ambient
