/-
What a table of imports holds after any run of additions.

A table records the bindings that were added (`Records`): its modules and the names in each stand in the
order of their first additions, no module is without bindings, and for a path and a name the table has
the binding that was added first, once, and nothing else. An addition keeps this (`Records.add`), so it
holds after every run (`Records.addAll`).
-/
import Ambient.Proofs.Import.RoundTrip

namespace Ambient.Import

/-! ## Orders of first occurrence -/

/-- The members of `xs` come from `ys`, in the order in which they first occur there. -/
structure InOrderOf {α : Type} [BEq α] (ys xs : List α) : Prop where
  subset : xs ⊆ ys
  ordered : xs.Pairwise fun x x' => ys.idxOf x < ys.idxOf x'

namespace InOrderOf

variable {α : Type} [BEq α] [LawfulBEq α] {xs ys : List α}

theorem keep (h : InOrderOf ys xs) (zs : List α) : InOrderOf (ys ++ zs) xs where
  subset := fun x hx => List.mem_append_left zs (h.subset hx)
  ordered := by
    refine h.ordered.imp_of_mem fun hx hx' hlt => ?_
    rwa [List.idxOf_append_of_mem (h.subset hx), List.idxOf_append_of_mem (h.subset hx')]

/-- What occurs for the first time comes last. -/
theorem concat (h : InOrderOf ys xs) {z : α} (hz : z ∉ ys) : InOrderOf (ys ++ [z]) (xs ++ [z]) where
  subset := List.append_subset.2 ⟨(h.keep [z]).subset, List.subset_append_right ys [z]⟩
  ordered := by
    refine List.pairwise_append.2 ⟨(h.keep [z]).ordered, List.pairwise_singleton _ z, ?_⟩
    intro x hx z' hz'
    rw [List.mem_singleton.1 hz', List.idxOf_append_of_mem (h.subset hx),
      List.idxOf_append_of_notMem hz]
    exact Nat.lt_add_right _ (List.idxOf_lt_length_iff.2 (h.subset hx))

omit [LawfulBEq α] in
theorem singleton {z : α} (hz : z ∈ ys) : InOrderOf ys [z] where
  subset := by simpa using hz
  ordered := List.pairwise_singleton _ z

end InOrderOf

/-! ## Entries -/

/-- Whether a binding of a table is for a path and a name. -/
def isEntry (path name : Text) (e : Text × Binding) : Bool :=
  e.1 == path && e.2.name == name

theorem isEntry_iff {path name : Text} {e : Text × Binding} :
    isEntry path name e = true ↔ e.1 = path ∧ e.2.name = name := by
  simp [isEntry]

/-- The paths and names of bindings. -/
def keys (added : List (Text × Binding)) : List (Text × Text) :=
  added.map fun e => (e.1, e.2.name)

/-- What a table holds after bindings were added. -/
structure Records (table : Table) (added : List (Text × Binding)) : Prop where
  paths : InOrderOf (added.map Prod.fst) (table.map (·.path))
  ne_nil : ∀ m ∈ table, m.bindings ≠ []
  names : ∀ m ∈ table, InOrderOf (keys added) (m.bindings.map fun b => (m.path, b.name))
  /-- For a path and a name, the table has the first binding that was added, and no other. -/
  entries : ∀ path name,
    table.bindings.filter (isEntry path name) = (added.find? (isEntry path name)).toList

namespace Table

theorem mem_bindings {table : Table} {e : Text × Binding} :
    e ∈ table.bindings ↔ ∃ m ∈ table, m.path = e.1 ∧ e.2 ∈ m.bindings := by
  simp only [bindings, List.mem_flatMap, List.mem_map]
  constructor
  · rintro ⟨m, hm, b, hb, rfl⟩
    exact ⟨m, hm, rfl, hb⟩
  · rintro ⟨m, hm, hpath, hb⟩
    exact ⟨m, hm, e.2, hb, by rw [hpath]⟩

end Table

theorem filter_isEntry_eq_nil {m : ModuleBindings} {p n : Text} (h : m.path ≠ p) :
    (m.bindings.map (m.path, ·)).filter (isEntry p n) = [] := by
  rw [List.filter_eq_nil_iff]
  rintro e he hentry
  obtain ⟨b, -, rfl⟩ := List.mem_map.1 he
  exact h (isEntry_iff.1 hentry).1

/-- An addition to a module makes an entry where there was none, and changes no other. -/
theorem ModuleBindings.filter_add (m : ModuleBindings) (b : Binding) (p n : Text) :
    ((m.add b).bindings.map ((m.add b).path, ·)).filter (isEntry p n) =
      if (m.bindings.map (m.path, ·)).filter (isEntry p n) = [] then
        [(m.path, b)].filter (isEntry p n)
      else (m.bindings.map (m.path, ·)).filter (isEntry p n) := by
  by_cases hentry : isEntry p n (m.path, b) = true
  · obtain ⟨rfl, rfl⟩ := isEntry_iff.1 hentry
    by_cases hmem : b.name ∈ m.bindings.map (·.name)
    · obtain ⟨b', hb', hname⟩ := List.mem_map.1 hmem
      have hne : (m.bindings.map (m.path, ·)).filter (isEntry m.path b.name) ≠ [] := by
        refine List.ne_nil_of_mem (a := (m.path, b')) (List.mem_filter.2 ⟨?_, isEntry_iff.2 ⟨rfl, hname⟩⟩)
        exact List.mem_map_of_mem hb'
      rw [add_of_mem hmem, if_neg hne]
    · have hnil : (m.bindings.map (m.path, ·)).filter (isEntry m.path b.name) = [] := by
        rw [List.filter_eq_nil_iff]
        rintro e he hsame
        obtain ⟨b', hb', rfl⟩ := List.mem_map.1 he
        exact hmem (List.mem_map.2 ⟨b', hb', (isEntry_iff.1 hsame).2⟩)
      rw [add_of_not_mem hmem, if_pos hnil, List.map_append, List.filter_append, hnil]
      rfl
  · have hnew : [(m.path, b)].filter (isEntry p n) = [] := by simp [hentry]
    have hsame : ((m.add b).bindings.map ((m.add b).path, ·)).filter (isEntry p n) =
        (m.bindings.map (m.path, ·)).filter (isEntry p n) := by
      by_cases hmem : b.name ∈ m.bindings.map (·.name)
      · rw [add_of_mem hmem]
      · rw [add_of_not_mem hmem, List.map_append, List.filter_append, List.map_singleton, hnew,
          List.append_nil]
    rw [hsame, hnew]
    split
    · assumption
    · rfl

namespace Table

theorem bindings_cons (m : ModuleBindings) (rest : Table) :
    bindings (m :: rest) = m.bindings.map (m.path, ·) ++ rest.bindings :=
  List.flatMap_cons

/-- An addition to a table makes an entry where there was none, and changes no other. -/
theorem filter_bindings_add {table : Table} (h : (table.map (·.path)).Nodup) (path : Text) (b : Binding)
    (p n : Text) :
    (table.add path b).bindings.filter (isEntry p n) =
      if table.bindings.filter (isEntry p n) = [] then [(path, b)].filter (isEntry p n)
      else table.bindings.filter (isEntry p n) := by
  induction table with
  | nil => rfl
  | cons m rest ih =>
    obtain ⟨hm, hrest⟩ := List.nodup_cons.1 h
    rw [add]
    by_cases hpath : m.path = path
    · subst hpath
      rw [if_pos rfl, bindings_cons, bindings_cons, List.filter_append, List.filter_append, m.filter_add]
      by_cases hp : m.path = p
      · -- no other module has the path
        have hnone : (bindings rest).filter (isEntry p n) = [] := by
          rw [List.filter_eq_nil_iff]
          rintro e he hentry
          obtain ⟨m', hm', hpath, -⟩ := mem_bindings.1 he
          exact hm (List.mem_map.2 ⟨m', hm', hpath.trans ((isEntry_iff.1 hentry).1.trans hp.symm)⟩)
        rw [hnone, List.append_nil, List.append_nil]
      · have hnew : [(m.path, b)].filter (isEntry p n) = [] := by simp [isEntry, hp]
        rw [filter_isEntry_eq_nil hp, if_pos rfl, hnew, List.nil_append]
        split
        · assumption
        · rfl
    · rw [if_neg hpath, bindings_cons, bindings_cons, List.filter_append, List.filter_append, ih hrest]
      by_cases hp : m.path = p
      · have hnew : [(path, b)].filter (isEntry p n) = [] := by simp [isEntry, ← hp, Ne.symm hpath]
        rw [hnew]
        split <;> split <;> simp_all
      · rw [filter_isEntry_eq_nil hp, List.nil_append, List.nil_append]

end Table

/-! ## Runs -/

namespace Records

variable {table : Table} {added : List (Text × Binding)}

theorem nil : Records [] [] where
  paths := ⟨List.nil_subset _, .nil⟩
  ne_nil := by simp
  names := by simp
  entries := fun _ _ => rfl

/-- What was added is in the table, as far as paths and names go. -/
theorem exists_of_mem_keys (h : Records table added) {p n : Text} (hkey : (p, n) ∈ keys added) :
    ∃ m ∈ table, m.path = p ∧ n ∈ m.bindings.map (·.name) := by
  obtain ⟨e, he, hkey⟩ := List.mem_map.1 hkey
  obtain ⟨rfl, rfl⟩ := Prod.mk.inj hkey
  have hfound : (added.find? (isEntry e.1 e.2.name)).isSome = true :=
    List.find?_isSome.2 ⟨e, he, isEntry_iff.2 ⟨rfl, rfl⟩⟩
  obtain ⟨first, hfirst⟩ := Option.isSome_iff_exists.1 hfound
  have hentry : first ∈ table.bindings.filter (isEntry e.1 e.2.name) := by
    rw [h.entries, hfirst]
    simp
  obtain ⟨hmem, hsame⟩ := List.mem_filter.1 hentry
  obtain ⟨hpath, hname⟩ := isEntry_iff.1 hsame
  obtain ⟨m, hm, hm', hb⟩ := Table.mem_bindings.1 hmem
  exact ⟨m, hm, hm'.trans hpath, List.mem_map.2 ⟨first.2, hb, hname⟩⟩

/-- **One addition** is recorded. -/
theorem add (h : Records table added) (hd : table.Distinct) (path : Text) (b : Binding) :
    Records (table.add path b) (added ++ [(path, b)]) where
  paths := by
    rw [Table.map_path_add, List.map_append, List.map_singleton]
    split
    · exact h.paths.keep [path]
    · rename_i hnew
      refine h.paths.concat fun hmem => hnew ?_
      obtain ⟨e, he, rfl⟩ := List.mem_map.1 hmem
      obtain ⟨m, hm, hpath, -⟩ := h.exists_of_mem_keys (List.mem_map.2 ⟨e, he, rfl⟩)
      exact List.mem_map.2 ⟨m, hm, hpath⟩
  ne_nil := by
    intro m hm
    rcases Table.mem_add hm with hm | ⟨old, hold, -, rfl⟩ | rfl
    · exact h.ne_nil m hm
    · by_cases hmem : b.name ∈ old.bindings.map (·.name)
      · rw [ModuleBindings.add_of_mem hmem]
        exact h.ne_nil old hold
      · simp [ModuleBindings.add_of_not_mem hmem]
    · simp
  names := by
    intro m hm
    rw [keys, List.map_append, List.map_singleton, ← keys]
    rcases Table.mem_add hm with hm | ⟨old, hold, rfl, rfl⟩ | rfl
    · exact (h.names m hm).keep _
    · by_cases hmem : b.name ∈ old.bindings.map (·.name)
      · rw [ModuleBindings.add_of_mem hmem]
        exact (h.names old hold).keep _
      · rw [ModuleBindings.add_of_not_mem hmem, List.map_append, List.map_singleton]
        refine (h.names old hold).concat fun hkey => hmem ?_
        obtain ⟨m, hm, hpath, hname⟩ := h.exists_of_mem_keys hkey
        rwa [List.inj_on_of_nodup_map hd.paths hm hold hpath] at hname
    · exact .singleton (by simp)
  entries := by
    intro p n
    rw [Table.filter_bindings_add hd.paths, h.entries, List.find?_append]
    cases added.find? (isEntry p n) with
    | some e => simp
    | none => cases hentry : isEntry p n (path, b) <;> simp [hentry]

/-- **A run of additions** is recorded. -/
theorem addAll (h : Records table added) (hd : table.Distinct) (bs : List (Text × Binding)) :
    (table.addAll bs).Distinct ∧ Records (table.addAll bs) (added ++ bs) := by
  induction bs generalizing table added with
  | nil => simpa [Table.addAll] using ⟨hd, h⟩
  | cons b bs ih =>
    have hrest := ih (h.add hd b.1 b.2) (hd.add b.1 b.2)
    rw [List.append_assoc, List.singleton_append] at hrest
    exact hrest

end Records

/-- **What a table holds after any run**: for all statements that a table is made of and all bindings
that are added to it behind, no module and no name of a module stands twice in the table, and the table
records the bindings of the statements and then those added. -/
theorem records_run (ts : List Text) (bs : List (Text × Binding)) :
    ((Table.ofStatements ts).addAll bs).Distinct ∧
      Records ((Table.ofStatements ts).addAll bs) (ts.flatMap boundBy ++ bs) := by
  have hnil : Table.Distinct [] := ⟨List.nodup_nil, by simp⟩
  have hrun : ((Table.ofStatements ts).addAll bs) = Table.addAll [] (ts.flatMap boundBy ++ bs) := by
    rw [ofStatements_eq, Table.ofBindings, Table.addAll, Table.addAll, Table.addAll, List.foldl_append]
  rw [hrun]
  exact Records.nil.addAll hnil _

end Ambient.Import
