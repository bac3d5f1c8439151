/-
Discovery on a disk and in memory.

A walk goes into a tree entry by entry and leaves out the entries it skips. Where no file holds
rules, it skips installed packages only, so that it finds the files of the tree less those below such
an entry (`visit_eq_filter`). A store looks through all its paths. It has the same files in the same
order, but nothing tells it to leave packages out.
-/
import Ambient.Disk.Walk
import Ambient.Proofs.Path.Components
import Ambient.Proofs.Store

namespace Ambient

open Ambient.Path (Component IsName)

/-! ## The files of a tree -/

/-- Where the files with rules for walks are in a directory. -/
def Ignore.Scope.ruleFiles : List Location :=
  [[".ignore"], [".gitignore"], [".git", "info", "exclude"]]

namespace Tree

mutual

/-- The files of a tree by their path, when the path of the tree is `path`. -/
def filesAt (path : Path) : Tree → List Path
  | .file _ => [path]
  | .directory entries => filesOf path entries

def filesOf (path : Path) : List (Text × Tree) → List Path
  | [] => []
  | (name, t) :: rest => t.filesAt (path.join ⟨name⟩) ++ filesOf path rest

end

mutual

/-- Whether the entries of every directory have proper names, no two the same. -/
def Proper : Tree → Prop
  | .file _ => True
  | .directory entries => ProperEntries entries

def ProperEntries : List (Text × Tree) → Prop
  | [] => True
  | (name, t) :: rest =>
    IsName name ∧ (∀ entry ∈ rest, entry.1 ≠ name) ∧ t.Proper ∧ ProperEntries rest

end

theorem lookup_of_mem {entries : List (Text × Tree)} (h : ProperEntries entries) {name : Text}
    {t : Tree} (hmem : (name, t) ∈ entries) : entries.lookup name = some t := by
  induction entries with
  | nil => cases hmem
  | cons entry rest ih =>
    obtain ⟨first, u⟩ := entry
    rw [ProperEntries] at h
    rcases List.mem_cons.1 hmem with heq | hmem
    · cases heq
      simp
    · have hne : name ≠ first := h.2.1 _ hmem
      rw [List.lookup_cons, beq_eq_false_iff_ne.2 hne]
      exact ih h.2.2.2 hmem

theorem ProperEntries.of_lookup {entries : List (Text × Tree)} (h : ProperEntries entries)
    {name : Text} {t : Tree} (hlookup : entries.lookup name = some t) : t.Proper := by
  induction entries with
  | nil => cases hlookup
  | cons entry rest ih =>
    obtain ⟨first, u⟩ := entry
    rw [ProperEntries] at h
    rw [List.lookup_cons] at hlookup
    split at hlookup
    · cases hlookup
      exact h.2.2.1
    · exact ih h.2.2.2 hlookup

theorem Proper.get? {t : Tree} (h : t.Proper) {place : Location} {u : Tree}
    (hget : t.get? place = some u) : u.Proper := by
  induction place generalizing t with
  | nil =>
    cases hget
    exact h
  | cons name rest ih =>
    cases t with
    | file content => simp [Tree.get?, entry?] at hget
    | directory entries =>
      simp only [Tree.get?, entry?] at hget
      split at hget
      · rename_i v hv
        exact ih (h.of_lookup hv) hget
      · cases hget

mutual

/-- The path of a file goes on from the path of the tree. -/
theorem components_of_mem_filesAt {path p : Path} :
    ∀ {t : Tree}, t.Proper → p ∈ t.filesAt path → ∃ rest, p.components = path.components ++ rest
  | .file _, _, h => by
    rw [filesAt, List.mem_singleton] at h
    exact ⟨[], by rw [h, List.append_nil]⟩
  | .directory entries, ht, h => by
    obtain ⟨entry, -, rest, hp⟩ := components_of_mem_filesOf ht h
    exact ⟨_, hp⟩

theorem components_of_mem_filesOf {path p : Path} :
    ∀ {entries : List (Text × Tree)}, ProperEntries entries → p ∈ filesOf path entries →
      ∃ entry ∈ entries, ∃ rest, p.components = path.components ++ .name entry.1 :: rest
  | [], _, h => by cases h
  | (name, t) :: others, hentries, h => by
    obtain ⟨hname, -, ht, hothers⟩ := hentries
    rcases List.mem_append.1 h with h | h
    · obtain ⟨rest, hp⟩ := components_of_mem_filesAt ht h
      rw [Path.components_join_name hname, List.append_assoc] at hp
      exact ⟨(name, t), List.mem_cons_self, rest, hp⟩
    · obtain ⟨entry, hentry, hp⟩ := components_of_mem_filesOf hothers h
      exact ⟨entry, List.mem_cons_of_mem _ hentry, hp⟩

end

mutual

/-- No two files of a tree have the same path. -/
theorem pairwise_filesAt (path : Path) :
    ∀ {t : Tree}, t.Proper → (t.filesAt path).Pairwise fun p q => p.components ≠ q.components
  | .file _, _ => List.pairwise_singleton _ _
  | .directory _, ht => pairwise_filesOf path ht

theorem pairwise_filesOf (path : Path) :
    ∀ {entries : List (Text × Tree)}, ProperEntries entries →
      (filesOf path entries).Pairwise fun p q => p.components ≠ q.components
  | [], _ => .nil
  | (name, t) :: others, hentries => by
    obtain ⟨hname, hdistinct, ht, hothers⟩ := hentries
    refine List.pairwise_append.2 ⟨pairwise_filesAt _ ht, pairwise_filesOf path hothers, ?_⟩
    intro p hp q hq hsame
    obtain ⟨rest, hp⟩ := components_of_mem_filesAt ht hp
    obtain ⟨entry, hentry, rest', hq⟩ := components_of_mem_filesOf hothers hq
    rw [Path.components_join_name hname, List.append_assoc] at hp
    rw [hp, hq, List.append_cancel_left_eq] at hsame
    injection hsame with hsame
    injection hsame with hsame
    exact hdistinct entry hentry hsame.symm

end

/-- Whether no file of a tree holds rules for walks. -/
def Unruled (t : Tree) : Prop :=
  ∀ (place : Location), ∀ names ∈ Ignore.Scope.ruleFiles, ∀ content,
    t.get? (place ++ names) ≠ some (.file content)

theorem get?_append (t : Tree) (place names : Location) :
    t.get? (place ++ names) = (t.get? place).bind (·.get? names) := by
  induction place generalizing t with
  | nil => rfl
  | cons name rest ih =>
    rw [List.cons_append, get?, get?]
    cases t.entry? name with
    | none => rfl
    | some u => exact ih u

theorem Unruled.get? {t : Tree} (h : t.Unruled) (place : Location) {u : Tree}
    (hget : t.get? place = some u) : u.Unruled := by
  intro deeper names hnames content hfile
  refine h (place ++ deeper) names hnames content ?_
  rw [List.append_assoc, get?_append, hget]
  exact hfile

theorem Unruled.of_mem {entries : List (Text × Tree)} (h : (directory entries).Unruled)
    (hentries : ProperEntries entries) {entry : Text × Tree} (hmem : entry ∈ entries) :
    entry.2.Unruled := by
  refine h.get? [entry.1] ?_
  rw [Tree.get?, entry?, lookup_of_mem hentries hmem]
  rfl

theorem unruled_empty : empty.Unruled := by
  intro place names hnames content
  cases place ++ names with
  | nil => simp [Tree.get?, empty]
  | cons name rest => simp [Tree.get?, empty, entry?]

theorem mem_leavesOf {entries : List (Text × Tree)} {name : Text} {t : Tree}
    (hlookup : entries.lookup name = some t) {leaf : Location × Option Content}
    (hleaf : leaf ∈ t.leaves) : (name :: leaf.1, leaf.2) ∈ leavesOf entries := by
  induction entries with
  | nil => cases hlookup
  | cons entry rest ih =>
    obtain ⟨first, u⟩ := entry
    rw [List.lookup_cons] at hlookup
    rw [leavesOf, List.mem_append]
    split at hlookup
    · rename_i hname
      cases hlookup
      exact .inl (List.mem_map.2 ⟨leaf, hleaf, by rw [beq_iff_eq.1 hname]⟩)
    · exact .inr (ih hlookup)

theorem mem_leaves_of_get? {t : Tree} {place : Location} {content : Content}
    (h : t.get? place = some (.file content)) : (place, some content) ∈ t.leaves := by
  induction place generalizing t with
  | nil =>
    cases h
    exact List.mem_singleton.2 rfl
  | cons name rest ih =>
    cases t with
    | file _ => simp [Tree.get?, entry?] at h
    | directory entries =>
      simp only [Tree.get?, entry?] at h
      split at h
      · rename_i u hu
        cases entries with
        | nil => cases hu
        | cons entry others => exact mem_leavesOf hu (ih h)
      · cases h

theorem unruled_of_leaves {t : Tree}
    (h : ∀ leaf ∈ t.leaves, ∀ names ∈ Ignore.Scope.ruleFiles, ¬ names <:+ leaf.1) : t.Unruled :=
  fun place names hnames _ hfile => h _ (mem_leaves_of_get? hfile) names hnames ⟨place, rfl⟩

end Tree

/-! ## Scopes without rules -/

namespace Ignore.Scope

/-- A scope that says nothing. -/
structure Silent (s : Scope) : Prop where
  general : s.general = []
  tracked : s.tracked = []
  excluded : s.excluded = []
  faults : s.faults = []

theorem readAt_of_unruled {t : Tree} (h : t.Unruled) (place : Location) {names : Location}
    (hnames : names ∈ ruleFiles) : readAt place t names = ([], []) := by
  rw [readAt]
  split
  · rename_i content hfile
    exact absurd hfile (h [] names hnames content)
  · rfl

theorem silent_ofDirectory {t : Tree} (h : t.Unruled) (place : Location) :
    (ofDirectory place t).Silent := by
  have hgeneral : readAt place t [".ignore"] = ([], []) :=
    readAt_of_unruled h place (by simp [ruleFiles])
  have htracked : readAt place t [".gitignore"] = ([], []) :=
    readAt_of_unruled h place (by simp [ruleFiles])
  have hexcluded : readAt place t [".git", "info", "exclude"] = ([], []) :=
    readAt_of_unruled h place (by simp [ruleFiles])
  simp only [ofDirectory, hgeneral, htracked, hexcluded]
  exact ⟨rfl, rfl, rfl, rfl⟩

theorem mem_of_mem_inRepository {scopes : List Scope} {s : Scope} (h : s ∈ inRepository scopes) :
    s ∈ scopes := by
  induction scopes with
  | nil => cases h
  | cons first rest ih =>
    rw [inRepository] at h
    split at h
    · rw [List.mem_singleton.1 h]
      exact List.mem_cons_self
    · split at h
      · cases h
      · rcases List.mem_cons.1 h with rfl | h
        · exact List.mem_cons_self
        · exact List.mem_cons_of_mem _ (ih h)

/-- Scopes that say nothing decide nothing. -/
theorem decide?_of_silent {scopes : List Scope} (h : ∀ s ∈ scopes, s.Silent) (place : Location)
    (isDirectory : Bool) : decide? scopes place isDirectory = none := by
  have hfirst : ∀ (rules : Scope → List Rule) (few : List Scope), (∀ s ∈ few, rules s = []) →
      (few.findSome? fun s => Ignore.decide? (rules s) (s.pathOf place) isDirectory) = none := by
    intro rules few hfew
    refine List.findSome?_eq_none_iff.2 fun s hs => ?_
    rw [hfew s hs]
    rfl
  have hgeneral := hfirst general scopes fun s hs => (h s hs).general
  have htracked := hfirst tracked _ fun s hs => (h s (mem_of_mem_inRepository hs)).tracked
  have hexcluded := hfirst excluded _ fun s hs => (h s (mem_of_mem_inRepository hs)).excluded
  simp only [decide?, hgeneral, htracked, hexcluded, Option.or_none]

theorem silent_above {found : List Scope} (hfound : ∀ s ∈ found, s.Silent) (top : Location)
    {t : Tree} (ht : t.Unruled) (place : Location) : ∀ s ∈ above found top t place, s.Silent := by
  induction place generalizing found top t with
  | nil => exact hfound
  | cons name rest ih =>
    refine ih (List.forall_mem_cons.2 ⟨silent_ofDirectory ht top, hfound⟩) (top ++ [name]) ?_
    cases hentry : t.entry? name with
    | some u => exact ht.get? [name] (by rw [Tree.get?, hentry]; rfl)
    | none => exact Tree.unruled_empty

end Ignore.Scope

/-! ## Walks -/

namespace Disk

open Ignore (Scope)

/-- Whether a file is an installed package's, by its path below the root. -/
def isPackaged (root p : Path) : Bool :=
  (p.components.drop root.components.length).contains (.name packages)

theorem isPackaged_of_append {root p : Path} {names : List Component}
    (hp : p.components = root.components ++ names) :
    isPackaged root p = names.contains (.name packages) := by
  rw [isPackaged, hp, List.drop_left]

mutual

/-- **A walk without rules** finds all files but those of installed packages. -/
theorem visit_eq_filter {root path : Path} {names : List Component}
    (hpath : path.components = root.components ++ names) (hnames : .name packages ∉ names)
    {scopes : List Scope} (hscopes : ∀ s ∈ scopes, s.Silent) (place : Location) :
    ∀ {t : Tree}, t.Proper → t.Unruled →
      visit scopes place path t = (t.filesAt path).filter (!isPackaged root ·)
  | .file _, _, _ => by
    have hnot : isPackaged root path = false := by
      rw [isPackaged_of_append hpath]
      simpa using hnames
    simp [visit, Tree.filesAt, hnot]
  | .directory entries, hproper, hunruled => by
    refine visitAll_eq_filter hpath hnames ?_ place hproper fun entry hentry =>
      hunruled.of_mem hproper hentry
    exact List.forall_mem_cons.2 ⟨Scope.silent_ofDirectory hunruled place, hscopes⟩

theorem visitAll_eq_filter {root path : Path} {names : List Component}
    (hpath : path.components = root.components ++ names) (hnames : .name packages ∉ names)
    {scopes : List Scope} (hscopes : ∀ s ∈ scopes, s.Silent) (place : Location) :
    ∀ {entries : List (Text × Tree)}, Tree.ProperEntries entries →
      (∀ entry ∈ entries, entry.2.Unruled) →
      visitAll scopes place path entries = (Tree.filesOf path entries).filter (!isPackaged root ·)
  | [], _, _ => rfl
  | (name, t) :: rest, hproper, hunruled => by
    obtain ⟨hname, -, ht, hrest⟩ := hproper
    obtain ⟨htree, hothers⟩ := List.forall_mem_cons.1 hunruled
    have hentry : (path.join ⟨name⟩).components = root.components ++ (names ++ [.name name]) := by
      rw [Path.components_join_name hname, hpath, List.append_assoc]
    have hskipped : isSkipped scopes (place ++ [name]) name t = (name == packages) := by
      rw [isSkipped, Scope.decide?_of_silent hscopes]
      simp
    rw [visitAll, Tree.filesOf, List.filter_append, hskipped,
      visitAll_eq_filter hpath hnames hscopes place hrest hothers]
    congr 1
    by_cases hpackages : name = packages
    · have hall : ∀ p ∈ t.filesAt (path.join ⟨name⟩), ¬ (!isPackaged root p) = true := by
        intro p hp
        obtain ⟨deeper, hp⟩ := Tree.components_of_mem_filesAt ht hp
        rw [hentry, List.append_assoc] at hp
        simp [isPackaged_of_append hp, hpackages]
      rw [List.filter_eq_nil_iff.2 hall, if_pos (beq_iff_eq.2 hpackages)]
    · rw [if_neg (by simpa using hpackages)]
      refine visit_eq_filter hentry ?_ hscopes (place ++ [name]) ht htree
      simpa [hnames] using fun h => hpackages h.symm

end

theorem get?_of_find {d : Disk} {root : Path} {place : Location} {t : Tree}
    (h : d.find root = .ok (place, t)) : d.top.get? place = some t := by
  simp only [find, bind, Except.bind, pure, Except.pure] at h
  split at h
  · cases h
  · split at h
    · cases h
    · rename_i found _
      cases hget : d.top.get? found with
      | none =>
        rw [hget] at h
        cases h
      | some u =>
        rw [hget] at h
        cases u with
        | directory entries =>
          cases h
          exact hget
        | file content =>
          dsimp only at h
          split at h
          · cases h
          · cases h
            exact hget

/-- The files under a path of a disk, spelled from that path on. -/
def filesUnder (d : Disk) (root : Path) : List Path :=
  match d.find root with
  | .ok (_, t) => t.filesAt root
  | .error _ => []

theorem pairwise_filesUnder {d : Disk} (h : d.top.Proper) (root : Path) :
    (d.filesUnder root).Pairwise fun p q => p.components ≠ q.components := by
  rw [filesUnder]
  split
  · rename_i hfind
    exact Tree.pairwise_filesAt root (h.get? (get?_of_find hfind))
  · exact .nil

theorem walk_eq_filter {d : Disk} (hproper : d.top.Proper) (hunruled : d.top.Unruled) {root : Path}
    (hinput : isStandardInput root = false) {place : Location} {t : Tree}
    (hfind : d.find root = .ok (place, t)) :
    d.walk root = .ok ((d.filesUnder root).filter (!isPackaged root ·)) := by
  have hget := get?_of_find hfind
  have hroot : root.components = root.components ++ [] := (List.append_nil _).symm
  have hscopes := Scope.silent_above (List.forall_mem_nil _) [] hunruled place
  have hvisit := visit_eq_filter hroot List.not_mem_nil hscopes place (hproper.get? hget)
    (hunruled.get? place hget)
  have hfaults : (Scope.above [] [] d.top place).reverse.flatMap Scope.faults = [] := by
    refine List.flatMap_eq_nil_iff.2 fun s hs => (hscopes s (List.mem_reverse.1 hs)).faults
  rw [walk, hinput, filesUnder, hfind]
  cases t with
  | file content => exact congrArg Except.ok hvisit
  | directory entries => simpa [walkFrom, hfaults] using hvisit

/-- Sorting what a walk found gives the one list in the order of paths with the same members. -/
theorem selectSources_eq {globs : List Glob} {root : Path} {found sorted : List Path}
    (hfound : found.Pairwise fun p q => p.components ≠ q.components)
    (hsorted : sorted.Pairwise fun p q => p.compare q = .lt)
    (hmem : ∀ p, p ∈ found ∧ isSelected globs root p = true ↔ p ∈ sorted) :
    selectSources globs root found = sorted := by
  let le (p q : Path) : Bool := p.compare q != .gt
  have hle : ∀ p q, le p q = true ↔ (p.compare q).isLE = true := by
    intro p q
    simp only [le]
    cases p.compare q <;> decide
  have htrans : ∀ p q r, le p q = true → le q r = true → le p r = true := by
    intro p q r
    simp only [hle]
    exact Std.TransCmp.isLE_trans
  have htotal : ∀ p q, (le p q || le q p) = true := by
    intro p q
    have hswap : q.compare p = (p.compare q).swap := Std.OrientedCmp.eq_swap
    simp only [le, hswap]
    cases p.compare q <;> decide
  have hperm : ((found.filter (isSelected globs root)).mergeSort le).Perm
      (found.filter (isSelected globs root)) := List.mergeSort_perm _ le
  have hdistinct : ((found.filter (isSelected globs root)).mergeSort le).Pairwise
      fun p q => p.components ≠ q.components :=
    (hperm.pairwise_iff fun h => h.symm).2 (hfound.sublist List.filter_sublist)
  have hordered := (List.pairwise_mergeSort htrans htotal (found.filter (isSelected globs root))).and
    hdistinct
  refine Store.eq_of_ascending (hordered.imp fun {p q} h => ?_) hsorted fun p => ?_
  · have hne : p.compare q ≠ .eq := fun heq => h.2 (Path.compare_eq_iff.1 heq)
    have hlt := (hle p q).1 h.1
    revert hne hlt
    cases p.compare q <;> simp
  · rw [selectSources, List.mem_mergeSort, List.mem_filter, hmem]

end Disk

/-- Whether the files of a store under a root are those that a disk has there. -/
def Store.Mirrors (s : Store) (d : Disk) (root : Path) : Prop :=
  ∀ p, p ∈ s.paths ∧ p.startsWith root = true ↔ p ∈ d.filesUnder root

namespace Disk

variable {d : Disk} {s : Store} {root : Path}

theorem selectSources_walk (hproper : d.top.Proper) (hmirrors : s.Mirrors d root)
    (globs : List Glob) :
    selectSources globs root ((d.filesUnder root).filter (!isPackaged root ·)) =
      (s.paths.filter (isSelected globs root)).filter (!isPackaged root ·) := by
  refine selectSources_eq
    ((pairwise_filesUnder hproper root).sublist List.filter_sublist) ?_ fun p => ?_
  · have hpaths : s.paths.Pairwise fun p q => p.compare q = .lt := List.pairwise_map.2 s.ascending
    exact hpaths.sublist (List.filter_sublist.trans List.filter_sublist)
  · simp only [List.mem_filter]
    constructor
    · rintro ⟨⟨hfile, hpackaged⟩, hselected⟩
      exact ⟨⟨((hmirrors p).2 hfile).1, hselected⟩, hpackaged⟩
    · rintro ⟨⟨hpath, hselected⟩, hpackaged⟩
      exact ⟨⟨(hmirrors p).1 ⟨hpath, startsWith_of_isSelected hselected⟩, hpackaged⟩, hselected⟩

/-- **Discovery on a disk and in memory.** In a tree with proper names and without ignore files, a
walk finds what the store with the same files finds, less the files of installed packages below the
root. The two agree exactly when there are none of these, apart from a root that is not there, which
fails a walk, and the one that stands for the standard input, where a walk looks at nothing. -/
theorem sources_eq_filter_store (hproper : d.top.Proper) (hunruled : d.top.Unruled)
    (hmirrors : s.Mirrors d root) (entrypoints : List Text) :
    d.sources root entrypoints = (do
      let found ← s.sources root entrypoints
      if isStandardInput root then return []
      match d.find root with
      | .error e => throw (rootFailure root e)
      | .ok _ => return found.filter (!isPackaged root ·)) ∧
    (d.sources root entrypoints = s.sources root entrypoints ↔
      ∀ found, s.sources root entrypoints = .ok found →
        if isStandardInput root then found = []
        else (d.find root).isOk = true ∧ ∀ p ∈ found, isPackaged root p = false) := by
  cases hglobs : compileEntrypoints entrypoints with
  | error e => simp [sources, Store.sources, hglobs, bind, Except.bind]
  | ok globs =>
    have hstore : s.sources root entrypoints = .ok (s.paths.filter (isSelected globs root)) := by
      rw [Store.sources, hglobs]
      rfl
    have hdisk : d.sources root entrypoints = (d.walk root).map (selectSources globs root) := by
      rw [sources, hglobs]
      cases d.walk root <;> rfl
    rw [hstore, hdisk]
    cases hinput : isStandardInput root with
    | true =>
      have hwalk : d.walk root = .ok [] := by rw [walk, hinput, if_pos rfl]
      have hempty : selectSources globs root [] = [] := by simp [selectSources]
      rw [hwalk, Except.map, hempty]
      refine ⟨rfl, ?_, fun h => ?_⟩
      · rintro h found ⟨⟩
        exact (Except.ok.inj h).symm
      · exact congrArg Except.ok (h _ rfl).symm
    | false =>
      cases hfind : d.find root with
      | error e =>
        have hwalk : d.walk root = .error (rootFailure root e) := by
          rw [walk, hinput, hfind]
          rfl
        rw [hwalk, Except.map]
        refine ⟨rfl, ⟨fun h => ?_, fun h => ?_⟩⟩
        · cases h
        · cases (h _ rfl).1
      | ok found =>
        rw [walk_eq_filter hproper hunruled hinput hfind, Except.map,
          selectSources_walk hproper hmirrors]
        refine ⟨rfl, ?_, fun h => ?_⟩
        · rintro h found ⟨⟩
          refine ⟨rfl, fun p hp => ?_⟩
          simpa using List.filter_eq_self.1 (Except.ok.inj h) p hp
        · refine congrArg Except.ok (List.filter_eq_self.2 fun p hp => ?_)
          simpa using (h _ rfl).2 p hp

/-- A source beside a package that is installed below the root. -/
theorem sources_eq_filter_store_installed :
    let code : Tree := .file (.text "export const a = 1")
    let d : Disk := ⟨.directory [("src", .directory [("b.ts", code),
      ("node_modules", .directory [("pkg", .directory [("index.ts", code)])])])], []⟩
    let s : Store := ((Store.insert {} "./src/b.ts" []).insert
      "./src/node_modules/pkg/index.ts" []).insert "./lib/outside.ts" []
    d.top.Proper ∧ d.top.Unruled ∧ s.Mirrors d "./src" ∧
      d.sources "./src" ["**/*"] = .ok ["./src/b.ts"] ∧
      s.sources "./src" ["**/*"] = .ok ["./src/b.ts", "./src/node_modules/pkg/index.ts"] := by
  intro code d s
  have hproper : d.top.Proper := by
    have hindex : IsName "index.ts" := ⟨by decide, by decide⟩
    have hpkg : IsName "pkg" := ⟨by decide, by decide⟩
    have hmodules : IsName "node_modules" := ⟨by decide, by decide⟩
    have hb : IsName "b.ts" := ⟨by decide, by decide⟩
    have hsrc : IsName "src" := ⟨by decide, by decide⟩
    have hinner : Tree.ProperEntries [("pkg".toList, .directory [("index.ts".toList, code)])] :=
      ⟨hpkg, by simp, ⟨hindex, by simp, trivial, trivial⟩, trivial⟩
    exact ⟨hsrc, by simp, ⟨hb, by decide, trivial, hmodules, by simp, hinner, trivial⟩, trivial⟩
  have hunruled : d.top.Unruled := Tree.unruled_of_leaves (by decide)
  have hpaths : s.paths =
      ([⟨"./lib/outside.ts"⟩, ⟨"./src/b.ts"⟩, ⟨"./src/node_modules/pkg/index.ts"⟩] : List Path) := by
    decide +kernel
  have hfiles : d.filesUnder "./src" =
      ([⟨"./src/b.ts"⟩, ⟨"./src/node_modules/pkg/index.ts"⟩] : List Path) := by
    decide +kernel
  have hmirrors : s.Mirrors d "./src" := by
    intro p
    rw [hpaths, hfiles]
    simp only [List.mem_cons, List.not_mem_nil, or_false]
    constructor
    · rintro ⟨rfl | h, hroot⟩
      · exact absurd hroot (by decide)
      · exact h
    · intro h
      refine ⟨.inr h, ?_⟩
      rcases h with rfl | rfl <;> decide
  have hstore : s.sources "./src" ["**/*"] =
      .ok ["./src/b.ts", "./src/node_modules/pkg/index.ts"] := by decide +kernel
  refine ⟨hproper, hunruled, hmirrors, ?_, hstore⟩
  rw [(sources_eq_filter_store hproper hunruled hmirrors ["**/*"]).1, hstore]
  decide +kernel

end Disk

end Ambient
