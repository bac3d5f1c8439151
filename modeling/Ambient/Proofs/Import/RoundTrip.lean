/-
A table of imports, printed for the names in use and read again.

Lines and tables meet at the list of bindings in them. The lines of a table are read as the bindings
whose names are in use, each of them once (`flatMap_boundBy_usedLines`), and a table in which no path
and no name of a module stands twice is made again by adding its bindings one by one
(`ofBindings_bindings`). Every table that was made by adding is of this kind (`valid_ofBindings`), so
that reading gives the table back, without the bindings that are not in use.
-/
import Ambient.Proofs.Import.Line
import Mathlib.Data.List.Nodup
import Mathlib.Data.List.Pairwise
import Mathlib.Data.List.Perm.Basic

namespace Ambient.Import

open Code (Balanced Gap Word)

/-! ## The bindings of a table -/

namespace Table

/-- All bindings, each with the path of its module. -/
def bindings (table : Table) : List (Text × Binding) :=
  table.flatMap fun m => m.bindings.map (m.path, ·)

def addAll (table : Table) (bs : List (Text × Binding)) : Table :=
  bs.foldl (fun table b => table.add b.1 b.2) table

/-- The table that bindings make when they are added one by one. -/
def ofBindings (bs : List (Text × Binding)) : Table :=
  addAll [] bs

/-- No module stands twice in the table, and no name twice in a module. -/
structure Distinct (table : Table) : Prop where
  paths : (table.map (·.path)).Nodup
  names : ∀ m ∈ table, (m.bindings.map (·.name)).Nodup

/-- Tables that can be printed. -/
structure Valid (table : Table) : Prop extends Distinct table where
  isPath : ∀ m ∈ table, IsPath m.path
  isImportable : ∀ m ∈ table, ∀ b ∈ m.bindings, b.IsImportable

end Table

theorem ModuleBindings.path_add (m : ModuleBindings) (b : Binding) : (m.add b).path = m.path := by
  rw [add]
  split <;> rfl

theorem ModuleBindings.add_of_not_mem {m : ModuleBindings} {b : Binding}
    (h : b.name ∉ m.bindings.map (·.name)) : m.add b = ⟨m.path, m.bindings ++ [b]⟩ := by
  have hnone : m.bindings.any (·.name == b.name) = false := by
    rw [List.any_eq_false]
    intro b' hb' heq
    exact h (List.mem_map.2 ⟨b', hb', by simpa using heq⟩)
  rw [add, hnone]
  rfl

namespace Table

variable {table : Table} {path : Text} {b : Binding}

theorem map_path_add (table : Table) (path : Text) (b : Binding) :
    (table.add path b).map (·.path) =
      if path ∈ table.map (·.path) then table.map (·.path) else table.map (·.path) ++ [path] := by
  induction table with
  | nil => rfl
  | cons m table ih =>
    rw [add]
    by_cases hm : m.path = path
    · simp [hm, m.path_add b]
    · rw [if_neg hm, List.map_cons, ih]
      by_cases hmem : path ∈ table.map (·.path)
      · simp [hmem]
      · simp [hmem, Ne.symm hm]

/-- A module of a table to which a binding was added is an old one, the old one for the path of the
binding, or a new one. -/
theorem mem_add {m : ModuleBindings} (h : m ∈ table.add path b) :
    m ∈ table ∨ (∃ old ∈ table, old.path = path ∧ m = old.add b) ∨ m = ⟨path, [b]⟩ := by
  induction table with
  | nil => exact .inr (.inr (List.mem_singleton.1 h))
  | cons old table ih =>
    rw [add] at h
    split at h
    · rename_i hpath
      rcases List.mem_cons.1 h with rfl | h
      · exact .inr (.inl ⟨old, List.mem_cons_self, hpath, rfl⟩)
      · exact .inl (List.mem_cons_of_mem old h)
    · rcases List.mem_cons.1 h with rfl | h
      · exact .inl List.mem_cons_self
      · rcases ih h with h | ⟨old', hold', hpath, rfl⟩ | rfl
        · exact .inl (List.mem_cons_of_mem old h)
        · exact .inr (.inl ⟨old', List.mem_cons_of_mem old hold', hpath, rfl⟩)
        · exact .inr (.inr rfl)

/-- Adding to a table passes over the modules with other paths. -/
theorem add_append (h : path ∉ table.map (·.path)) (b : Binding) (rest : Table) :
    add path b (table ++ rest) = table ++ add path b rest := by
  induction table with
  | nil => rfl
  | cons m table ih =>
    rw [List.map_cons, List.mem_cons, not_or] at h
    rw [List.cons_append, add, if_neg (Ne.symm h.1), ih h.2]
    rfl

end Table

/-! ## Every table that was made by adding is valid -/

theorem ModuleBindings.add_of_mem {m : ModuleBindings} {b : Binding}
    (h : b.name ∈ m.bindings.map (·.name)) : m.add b = m := by
  obtain ⟨b', hb', hname⟩ := List.mem_map.1 h
  have hany : m.bindings.any (·.name == b.name) = true :=
    List.any_eq_true.2 ⟨b', hb', by simpa using hname⟩
  rw [add, hany]
  rfl

namespace Table

variable {table : Table} {path : Text} {b : Binding}

theorem Distinct.add (h : table.Distinct) (path : Text) (b : Binding) : (table.add path b).Distinct where
  paths := by
    rw [map_path_add]
    split
    · exact h.paths
    · rename_i hnew
      simpa using h.paths.concat hnew
  names := by
    intro m hm
    rcases mem_add hm with hm | ⟨old, hold, -, rfl⟩ | rfl
    · exact h.names m hm
    · by_cases hmem : b.name ∈ old.bindings.map (·.name)
      · rw [ModuleBindings.add_of_mem hmem]
        exact h.names old hold
      · rw [ModuleBindings.add_of_not_mem hmem]
        simpa using (h.names old hold).concat hmem
    · exact List.nodup_singleton b.name

theorem Valid.add (h : table.Valid) (hpath : IsPath path) (hb : b.IsImportable) :
    (table.add path b).Valid where
  toDistinct := h.toDistinct.add path b
  isPath := by
    intro m hm
    rcases mem_add hm with hm | ⟨old, hold, -, rfl⟩ | rfl
    · exact h.isPath m hm
    · rw [old.path_add b]
      exact h.isPath old hold
    · exact hpath
  isImportable := by
    intro m hm
    rcases mem_add hm with hm | ⟨old, hold, -, rfl⟩ | rfl
    · exact h.isImportable m hm
    · by_cases hmem : b.name ∈ old.bindings.map (·.name)
      · rw [ModuleBindings.add_of_mem hmem]
        exact h.isImportable old hold
      · rw [ModuleBindings.add_of_not_mem hmem]
        exact List.forall_mem_append.2 ⟨h.isImportable old hold, by simpa using hb⟩
    · simpa using hb

theorem Valid.addAll (h : table.Valid) {bs : List (Text × Binding)}
    (hbs : ∀ b ∈ bs, IsPath b.1 ∧ b.2.IsImportable) : (table.addAll bs).Valid := by
  induction bs generalizing table with
  | nil => exact h
  | cons b bs ih =>
    obtain ⟨⟨hpath, hb⟩, hbs⟩ := List.forall_mem_cons.1 hbs
    exact ih (h.add hpath hb) hbs

theorem valid_ofBindings {bs : List (Text × Binding)}
    (h : ∀ b ∈ bs, IsPath b.1 ∧ b.2.IsImportable) : (ofBindings bs).Valid := by
  have hnil : Valid [] :=
    { paths := List.nodup_nil
      names := by simp
      isPath := by simp
      isImportable := by simp }
  exact hnil.addAll h

/-! ## A table is made again from its bindings -/

/-- Bindings of one module, added behind a table that does not have the module yet. -/
theorem addAll_module (h : path ∉ table.map (·.path)) {bs cs : List Binding}
    (hnames : ((bs ++ cs).map (·.name)).Nodup) :
    addAll (table ++ [⟨path, bs⟩]) (cs.map (path, ·)) = table ++ [⟨path, bs ++ cs⟩] := by
  induction cs generalizing bs with
  | nil => simp [addAll]
  | cons c cs ih =>
    have hnew : c.name ∉ bs.map (·.name) := by
      rw [List.map_append, List.nodup_append] at hnames
      exact fun hmem => hnames.2.2 c.name hmem c.name (by simp) rfl
    have hadd : add path c (table ++ [⟨path, bs⟩]) = table ++ [⟨path, bs ++ [c]⟩] := by
      have hmodule : ModuleBindings.add ⟨path, bs⟩ c = ⟨path, bs ++ [c]⟩ :=
        ModuleBindings.add_of_not_mem hnew
      rw [add_append h, add, if_pos rfl, hmodule]
    have hrest : addAll (table ++ [⟨path, bs ++ [c]⟩]) (cs.map (path, ·)) =
        table ++ [⟨path, bs ++ [c] ++ cs⟩] := ih (by simpa using hnames)
    rw [List.append_assoc, List.singleton_append] at hrest
    rw [← hrest, ← hadd]
    rfl

theorem addAll_bindings {rest : Table} (h : (table ++ rest).Distinct)
    (hne : ∀ m ∈ rest, m.bindings ≠ []) : addAll table rest.bindings = table ++ rest := by
  induction rest generalizing table with
  | nil => simp [addAll, bindings]
  | cons m rest ih =>
    obtain ⟨hm, hrest⟩ := List.forall_mem_cons.1 hne
    obtain ⟨path, bs⟩ := m
    obtain ⟨b, cs, rfl⟩ := List.exists_cons_of_ne_nil hm
    have hnew : path ∉ table.map (·.path) := by
      have hpaths := h.paths
      rw [List.map_append, List.nodup_append] at hpaths
      exact fun hmem => hpaths.2.2 path hmem path (by simp) rfl
    have hmodule : addAll table ((b :: cs).map (path, ·)) = table ++ [⟨path, b :: cs⟩] := by
      have hfirst : add path b table = table ++ [⟨path, [b]⟩] := by
        have hadd := add_append hnew b []
        rwa [List.append_nil] at hadd
      have hnames : (([b] ++ cs).map (·.name)).Nodup := h.names ⟨path, b :: cs⟩ (by simp)
      rw [← List.singleton_append, ← addAll_module hnew hnames, ← hfirst]
      rfl
    have hcut : addAll table (bindings (⟨path, b :: cs⟩ :: rest)) =
        addAll (addAll table ((b :: cs).map (path, ·))) (bindings rest) :=
      List.foldl_append
    have hall : addAll (table ++ [⟨path, b :: cs⟩]) (bindings rest) =
        table ++ [⟨path, b :: cs⟩] ++ rest :=
      ih (by simpa using h) hrest
    rw [hcut, hmodule, hall, List.append_assoc, List.singleton_append]

theorem ofBindings_bindings (h : table.Distinct) (hne : ∀ m ∈ table, m.bindings ≠ []) :
    ofBindings table.bindings = table := by
  have hall : addAll [] table.bindings = [] ++ table := addAll_bindings h hne
  exact hall

/-- In such a table, a path and a name stand for one binding. -/
theorem Distinct.nodup_bindings (h : table.Distinct) :
    (table.bindings.map fun b => (b.1, b.2.name)).Nodup := by
  have hmap : table.bindings.map (fun b => (b.1, b.2.name)) =
      table.flatMap fun m => m.bindings.map fun b => (m.path, b.name) := by
    simp [bindings, List.map_flatMap, Function.comp_def]
  rw [hmap, List.nodup_flatMap]
  refine ⟨fun m hm => ?_, (List.pairwise_map.1 h.paths).imp fun hne => ?_⟩
  · have hinjective : Function.Injective (Prod.mk m.path : Text → Text × Text) :=
      fun _ _ heq => (Prod.mk.inj heq).2
    have hpair := (h.names m hm).map hinjective
    rwa [List.map_map] at hpair
  · rintro ⟨path, name⟩ hfirst hsecond
    obtain ⟨_, _, hpath⟩ := List.mem_map.1 hfirst
    obtain ⟨_, _, hpath'⟩ := List.mem_map.1 hsecond
    exact hne ((congrArg Prod.fst hpath).trans (congrArg Prod.fst hpath').symm)

end Table

/-! ## The bindings of a line -/

/-- The bindings of a statement, each with the path of its module. -/
def boundBy (t : Text) : List (Text × Binding) :=
  match statement? t with
  | some (path, bs) => bs.map (path, ·)
  | none => []

/-- A table of statements is made of the bindings of these. -/
theorem ofStatements_eq (ts : List Text) :
    Table.ofStatements ts = Table.ofBindings (ts.flatMap boundBy) := by
  have hadd : ∀ (table : Table) (t : Text), table.addStatement t = table.addAll (boundBy t) := by
    intro table t
    rw [Table.addStatement, boundBy]
    cases statement? t with
    | none => rfl
    | some s =>
      show s.2.foldl (fun table b => table.add s.1 b) table = table.addAll (s.2.map (s.1, ·))
      rw [Table.addAll, List.foldl_map]
  have hall : ∀ (ts : List Text) (table : Table),
      ts.foldl Table.addStatement table = table.addAll (ts.flatMap boundBy) := by
    intro ts
    induction ts with
    | nil => exact fun _ => rfl
    | cons t ts ih =>
      intro table
      rw [List.foldl_cons, ih, hadd, List.flatMap_cons]
      exact List.foldl_append.symm
  exact hall ts []

theorem boundBy_braces {path : Text} (hpath : IsPath path) {ts : List Text} (hne : ts ≠ [])
    (h : ∀ t ∈ ts, ∃ b, Specifies t b) :
    boundBy (lineText (bracesText ts) path) = (ts.map namedBinding).map (path, ·) := by
  have hneat := neat_bracesText hne fun t ht => (h t ht).elim fun _ hb => hb.neat
  have hbalanced : Balanced (bracesText ts) :=
    (balanced_braces fun t ht => (h t ht).elim fun _ hb => hb.balanced).wrap rfl
  have hread := statement?_lineText hneat hbalanced (by decide) hpath
  rw [boundBy, bracesText, hread, ← bracesText, clause?_braces h]
  rfl

theorem boundBy_wholeModule {path : Text} (hpath : IsPath path) (name : Word) :
    boundBy (lineText (wholeModuleText name.text) path) = [(path, ⟨name.text, .wholeModule⟩)] := by
  have hread : statement? (lineText (wholeModuleText name.text) path) =
      (clause? (wholeModuleText name.text)).map (path, ·) :=
    statement?_lineText (neat_wholeModuleText name) (balanced_wholeModuleText name) (by decide) hpath
  rw [boundBy, hread, clause?_wholeModule]
  rfl

/-! ## The lines of a module -/

/-- Whether the binding stands for a whole module. -/
def Binding.isWhole (b : Binding) : Bool :=
  b.kind == .wholeModule

/-- The bindings of a module as its lines have them: first those that stand in braces. -/
def regroup (bs : List Binding) : List Binding :=
  (bs.filter (!·.isWhole)).map Binding.asNamed ++ bs.filter Binding.isWhole

theorem isNone_specifier? (b : Binding) : b.specifier?.isNone = b.isWhole := by
  obtain ⟨name, kind⟩ := b
  cases kind <;> rfl

theorem moduleLines_eq (path : Text) (bs : List Binding) :
    moduleLines path bs =
      (if (bs.filterMap Binding.specifier?).isEmpty then []
        else [lineText (bracesText (bs.filterMap Binding.specifier?)) path]) ++
      ((bs.filter Binding.isWhole).map fun b => lineText (wholeModuleText b.name) path) := by
  have hspace : Gap.space.text = [' '] := rfl
  unfold moduleLines lineText bracesText wholeModuleText
  simp [isNone_specifier?, hspace, Function.comp_def]

/-- The names in braces are read as the bindings that are not of a whole module. -/
theorem map_namedBinding_specifiers {bs : List Binding} (hbs : ∀ b ∈ bs, b.IsImportable) :
    (bs.filterMap Binding.specifier?).map namedBinding =
      (bs.filter (!·.isWhole)).map Binding.asNamed := by
  induction bs with
  | nil => rfl
  | cons b bs ih =>
    obtain ⟨hb, hbs⟩ := List.forall_mem_cons.1 hbs
    have hwhole := isNone_specifier? b
    cases hspecifier : b.specifier? with
    | none =>
      rw [hspecifier] at hwhole
      simp [hspecifier, ← hwhole, ih hbs]
    | some t =>
      rw [hspecifier] at hwhole
      simp [hspecifier, ← hwhole, ih hbs, (specifies_of_specifier? hb hspecifier).read]

theorem flatMap_boundBy_moduleLines {path : Text} (hpath : IsPath path) {bs : List Binding}
    (hbs : ∀ b ∈ bs, b.IsImportable) :
    (moduleLines path bs).flatMap boundBy = (regroup bs).map (path, ·) := by
  have hspecifies : ∀ t ∈ bs.filterMap Binding.specifier?, ∃ b, Specifies t b := by
    intro t ht
    obtain ⟨b, hb, hspecifier⟩ := List.mem_filterMap.1 ht
    exact ⟨b.asNamed, specifies_of_specifier? (hbs b hb) hspecifier⟩
  have hbraces : (if (bs.filterMap Binding.specifier?).isEmpty then []
      else [lineText (bracesText (bs.filterMap Binding.specifier?)) path]).flatMap boundBy =
      ((bs.filterMap Binding.specifier?).map namedBinding).map (path, ·) := by
    split
    · rename_i hnil
      rw [List.isEmpty_iff.1 hnil]
      rfl
    · rename_i hne
      rw [List.isEmpty_iff] at hne
      rw [List.flatMap_singleton, boundBy_braces hpath hne hspecifies]
  have hwhole : ∀ b ∈ bs.filter Binding.isWhole,
      boundBy (lineText (wholeModuleText b.name) path) = [(path, b)] := by
    intro b hb
    obtain ⟨hmem, hb⟩ := List.mem_filter.1 hb
    obtain ⟨name, kind⟩ := b
    obtain rfl : kind = .wholeModule := by simpa [Binding.isWhole] using hb
    exact boundBy_wholeModule hpath (hbs _ hmem).1.word
  rw [moduleLines_eq, List.flatMap_append, hbraces, map_namedBinding_specifiers hbs, List.flatMap_map,
    List.flatMap_congr hwhole, regroup, List.map_append]
  exact congrArg _ List.map_eq_flatMap.symm

/-! ## The lines of a table -/

/-- The table of the bindings whose names are used, as their lines have them. Modules without such a
binding are left out. -/
def Table.restrict (table : Table) (used : List Text) : Table :=
  (table.map fun m => ⟨m.path, regroup (m.bindings.filter (used.contains ·.name))⟩).filter
    (!·.bindings.isEmpty)

theorem bindings_filter (table : Table) :
    Table.bindings (table.filter (!·.bindings.isEmpty)) = table.bindings := by
  induction table with
  | nil => rfl
  | cons m table ih =>
    have hcons : ∀ rest : Table, Table.bindings (m :: rest) =
        m.bindings.map (m.path, ·) ++ rest.bindings := fun _ => List.flatMap_cons
    rw [List.filter_cons, hcons, ← ih]
    split
    · rw [hcons]
    · rename_i hempty
      have hnil : m.bindings = [] := by simpa using hempty
      rw [hnil]
      rfl

/-- **The lines of a table** are read as the bindings whose names are used. -/
theorem flatMap_boundBy_usedLines {table : Table} (h : table.Valid) (used : List Text) :
    (table.usedLines used).flatMap boundBy = (table.restrict used).bindings := by
  have hmodule : ∀ m ∈ table,
      (moduleLines m.path (m.bindings.filter (used.contains ·.name))).flatMap boundBy =
        (regroup (m.bindings.filter (used.contains ·.name))).map (m.path, ·) := fun m hm =>
    flatMap_boundBy_moduleLines (h.isPath m hm) fun b hb =>
      h.isImportable m hm b (List.mem_filter.1 hb).1
  rw [Table.usedLines, List.flatMap_assoc, List.flatMap_congr hmodule, Table.restrict, bindings_filter,
    Table.bindings, List.flatMap_map]

theorem map_name_regroup (bs : List Binding) :
    ((regroup bs).map (·.name)).Perm (bs.map (·.name)) := by
  have hname : ∀ b : Binding, b.asNamed.name = b.name := by
    rintro ⟨name, kind⟩
    cases kind <;> rfl
  have hmap : (regroup bs).map (·.name) =
      (bs.filter (!·.isWhole) ++ bs.filter Binding.isWhole).map (·.name) := by
    simp [regroup, Function.comp_def, hname]
  rw [hmap]
  exact (List.perm_append_comm.trans (List.filter_append_perm Binding.isWhole bs)).map _

theorem Table.Distinct.restrict {table : Table} (h : table.Distinct) (used : List Text) :
    (table.restrict used).Distinct where
  paths := by
    have hsublist := (List.filter_sublist (p := fun m => !m.bindings.isEmpty) (l := table.map fun m =>
      ModuleBindings.mk m.path (regroup (m.bindings.filter (used.contains ·.name))))).map (·.path)
    rw [List.map_map] at hsublist
    exact h.paths.sublist hsublist
  names := by
    intro m hm
    obtain ⟨old, hold, rfl⟩ := List.mem_map.1 (List.mem_filter.1 hm).1
    exact (map_name_regroup _).nodup_iff.2
      ((h.names old hold).sublist (List.filter_sublist.map _))

/-- **Printing a table for the names in use and reading it again** gives the table without the bindings
that are not in use, and each of the others stands in the lines once. -/
theorem ofStatements_usedLines (bs : List (Text × Binding))
    (h : ∀ b ∈ bs, IsPath b.1 ∧ b.2.IsImportable) (used : List Text) :
    Table.ofStatements ((Table.ofBindings bs).usedLines used) = (Table.ofBindings bs).restrict used ∧
      ((Table.ofBindings bs).usedLines used).flatMap boundBy =
        ((Table.ofBindings bs).restrict used).bindings ∧
      (((Table.ofBindings bs).restrict used).bindings.map fun b => (b.1, b.2.name)).Nodup := by
  have hvalid := Table.valid_ofBindings h
  have hdistinct := hvalid.toDistinct.restrict used
  have hread := flatMap_boundBy_usedLines hvalid used
  refine ⟨?_, hread, hdistinct.nodup_bindings⟩
  rw [ofStatements_eq, hread]
  refine Table.ofBindings_bindings hdistinct fun m hm => ?_
  simpa using (List.mem_filter.1 hm).2

/-- Bindings whose names and paths look like other parts of an import. -/
def oddBindings : List (Text × Binding) :=
  [("./a\\", ⟨"from", .named "as"⟩),
   ("//b", ⟨"type", .wholeModule⟩),
   ("./a\\", ⟨"default", .defaultExport⟩),
   ("//b", ⟨"as", .named "as"⟩),
   ("./c", ⟨"unused", .named "from"⟩)]

theorem ofStatements_usedLines_oddBindings :
    (∀ b ∈ oddBindings, IsPath b.1 ∧ b.2.IsImportable) ∧
      Table.ofStatements
          ((Table.ofBindings oddBindings).usedLines ["as", "default", "from", "type"]) =
        [⟨"./a\\", [⟨"from", .named "as"⟩, ⟨"default", .named "default"⟩]⟩,
         ⟨"//b", [⟨"as", .named "as"⟩, ⟨"type", .wholeModule⟩]⟩] :=
  have h : ∀ b ∈ oddBindings, IsPath b.1 ∧ b.2.IsImportable := by decide
  ⟨h, (ofStatements_usedLines oddBindings h ["as", "default", "from", "type"]).1.trans (by decide)⟩

end Ambient.Import
