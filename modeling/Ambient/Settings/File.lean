/-
Settings files: TOML documents with a key for each setting. Missing keys keep the default, and keys
of no setting are left alone.
-/
import Ambient.Settings.Basic
import Ambient.Toml.Document

namespace Ambient.Settings

open Declaration (Fallback)
open Toml (Value Entries)

/-- The name of a settings file. -/
def fileName : Text :=
  ".dtsgen.toml"

def text? : Value → Option Text
  | .string t => some t
  | _ => none

def path? (v : Value) : Option Path :=
  (text? v).map Path.mk

def bool? : Value → Option Bool
  | .boolean b => some b
  | _ => none

def texts? : Value → Option (List Text)
  | .array items | .tables items => items.mapM text?
  | _ => none

def fallbackNamed? (t : Text) : Option Fallback :=
  if t = ("any" : Text) then some .any
  else if t = ("string" : Text) then some .string
  else none

def isEmptyValue : Value → Bool
  | .array items | .tables items => items.isEmpty
  | .table _ entries => entries.isEmpty
  | _ => false

/-- A fallback type by its name, or as a table whose one key is the name and holds nothing. -/
def fallback? : Value → Option Fallback
  | .string t => fallbackNamed? t
  | .table _ [(key, v)] => if isEmptyValue v then fallbackNamed? key else none
  | _ => none

/-- The value of a key, or the default when the document has no such key. A value of another type is
refused. -/
def setting? {α : Type} (entries : Entries) (key : Text) (read? : Value → Option α) (default : α) :
    Option α :=
  match entries.get? key with
  | none => some default
  | some v => read? v

def ofEntries? (entries : Entries) : Option Settings := do
  let d : Settings := {}
  return {
    root := ← setting? entries "root" path? d.root
    outdir := ← setting? entries "outdir" path? d.outdir
    clean := ← setting? entries "clean" bool? d.clean
    entrypoints := ← setting? entries "entrypoints" texts? d.entrypoints
    tsconfig := ← setting? entries "tsconfig" path? d.tsconfig
    keepComments := ← setting? entries "keep_comments" bool? d.keepComments
    fallback := ← setting? entries "fallback_type" fallback? d.fallback
    parallel := ← setting? entries "parallel" bool? d.parallel }

/-- The settings that a file holds. -/
def parse? (t : Text) : Option Settings := do
  ofEntries? (← Toml.parse? t)

/-- What is told of a file that holds no settings. -/
def unreadableText : Text :=
  ("Failed to parse " : Text) ++ fileName

/-- The settings file that a new project starts with. It spells out every default. -/
def template : Text :=
  ("# dtsgen configuration\n\n" : Text) ++
  ("# Directory containing the TypeScript sources\nroot = \"./src\"\n\n" : Text) ++
  ("# Directory receiving the generated declaration files\noutdir = \"./dist/types\"\n\n" : Text) ++
  ("# Remove outdir before generating\nclean = true\n\n" : Text) ++
  ("# Globs, relative to root, selecting the sources to process\nentrypoints = [\"**/*.ts\"]\n\n" : Text) ++
  ("# Must enable compilerOptions.isolatedDeclarations\ntsconfig = \"tsconfig.json\"\n\n" : Text) ++
  ("# Carry doc comments onto declarations\nkeep_comments = true\n\n" : Text) ++
  ("# Type emitted for values that cannot be inferred: \"any\" or \"string\"\nfallback_type = \"any\"\n\n" :
    Text) ++
  ("# Process files in parallel\nparallel = false\n" : Text)

end Ambient.Settings
