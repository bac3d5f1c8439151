/-
The declaration file of a source, read with its cuts checked.

Every stage reads without a fault what it reads without checks, whatever text it is given, and so
does the whole (`extraction_without_fault`).
-/
import Ambient.Document
import Ambient.Proofs.Checked.Declaration
import Ambient.Proofs.Checked.Import
import Ambient.Proofs.Checked.Source

namespace Ambient.Checked

open Declaration (Fallback Symbol)
open Document (Options)
open Source (Block Item)

def symbols (options : Options) (items : List Item) : Checked (List Symbol) := do
  let found ← (items.filterMap Item.declaration?).mapM (declare? options.fallback)
  return (found.filterMap id).map fun s =>
    if options.keepComments then s else { s with comment := none }

def importLines (items : List Item) (symbols : List Symbol) : Checked (List Text) := do
  let table ← ofStatements (items.filterMap Item.import?)
  let used ← symbols.mapM fun s => typeNames s.text
  return table.usedLines used.flatten

def generate (options : Options) (source : Text) : Checked Text := do
  let items ← scan source
  match ← symbols options items with
  | [] => return []
  | found => return Document.compose (← importLines items found) found

theorem symbols_eq (options : Options) (source : Text) :
    symbols options (Source.scan source) = pure (Document.symbols options source) := by
  rw [symbols, mapM_eq_pure fun b _ => declare?_eq options.fallback b, pure_bind,
    List.filterMap_map, Document.symbols, Source.blocks]
  rfl

theorem importLines_eq (source : Text) (found : List Symbol) :
    importLines (Source.scan source) found = pure (Document.importLines source found) := by
  rw [importLines, ofStatements_eq, pure_bind, mapM_eq_pure fun s _ => typeNames_eq s.text,
    pure_bind, ← List.flatMap_def, Document.importLines, Source.imports]

theorem generate_eq (options : Options) (source : Text) :
    generate options source = pure (Document.generate options source) := by
  simp only [generate, scan_eq, symbols_eq, importLines_eq, pure_bind]
  rw [Document.generate]
  cases Document.symbols options source <;> rfl

/-- **No cut goes wrong.** For every source and all options, and for every text that a stage may be
given, each cut is in order, in the text and between characters, each byte that is read is there,
and each literal that the type of an object goes into is shorter than the one around it: the checked
reader has no fault, and it gives what is given without checks. -/
theorem extraction_without_fault :
    (∀ source : Text, scan source = pure (Source.scan source)) ∧
    (∀ (fallback : Fallback) (b : Block),
      declare? fallback b = pure (Declaration.declare? fallback b)) ∧
    (∀ statement : Text, statement? statement = pure (Import.statement? statement)) ∧
    (∀ t : Text, typeNames t = pure (Import.typeNames t)) ∧
    (∀ (options : Options) (source : Text),
      generate options source = pure (Document.generate options source)) :=
  ⟨scan_eq, declare?_eq, statement?_eq, typeNames_eq, generate_eq⟩

end Ambient.Checked
