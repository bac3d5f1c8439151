/-
The chain of project files behind a project, in a store in memory.

`Loads` is the loading of project files with no bound on their number: what one file does, and what
follows for the file that extends it. A chain that goes on reads another file of the store each time,
so it comes to an end within as many files as the store has (`exists_loads`), and the bound of `follow`
is never what ends it (`Loads.follow_run`). It ends well exactly when the files form a `Chain` in which
none is met twice (`loads_ok_iff`).
-/
import Ambient.Proofs.Store
import Ambient.Isolation.Chain
import Mathlib.Data.List.Perm.Subperm

namespace Ambient.Isolation

open Store (run_bind)

/-- The project that a file of the store holds. -/
def projectAt? (store : Store) (parse? : Text → Option Project) (path : Path) : Option Project :=
  (store.get? path).bind parse?

/-- The directory in which a project file stands. -/
def directoryOf (path : Path) : Path :=
  path.parent?.getD ⟨[]⟩

/-- The file that a base stands for: the first of its candidates that the store has. -/
def baseIn? (store : Store) (directory : Path) (base : Text) : Option Path :=
  (candidates directory base).find? fun p => (store.get? p).isSome

/-- The fault of a base that stands for no file. -/
def baseFault (directory : Path) (base : Text) : Fault :=
  if isPlace base then .missingBase base else .unresolvedBase base directory

/-- Project files from `path` on, with what they hold: each extends the next, and the last extends
none. -/
inductive Chain (store : Store) (parse? : Text → Option Project) :
    Path → List (Path × Project) → Prop where
  | last {path : Path} {project : Project} (hproject : projectAt? store parse? path = some project)
      (hbase : project.base = none) : Chain store parse? path [(path, project)]
  | extending {path next : Path} {project : Project} {base : Text} {rest : List (Path × Project)}
      (hproject : projectAt? store parse? path = some project) (hbase : project.base = some base)
      (hnext : baseIn? store (directoryOf path) base = some next)
      (hrest : Chain store parse? next rest) : Chain store parse? path ((path, project) :: rest)

/-- The keys under which the files of a chain are remembered. -/
def keys (chain : List (Path × Project)) : List Path :=
  chain.map fun link => link.1.normalize

/-- The setting of the first file that has one. -/
def nearest (chain : List (Path × Project)) : Option Bool :=
  chain.findSome? fun link => link.2.isolated

/-- The loading of the project file at `path` behind those in `visited`: the files that are loaded,
in order, and the outcome. -/
inductive Loads (store : Store) (parse? : Text → Option Project) :
    List Path → Path → List Path → Except Fault (Option Bool) → Prop where
  | cycle {visited : List Path} {path : Path} (hvisited : path.normalize ∈ visited) :
      Loads store parse? visited path [path] (.error (.cycle path))
  | unreadable {visited : List Path} {path : Path} (hnew : path.normalize ∉ visited)
      (hread : store.get? path = none) :
      Loads store parse? visited path [path] (.error (.unreadable .absent path))
  | unparsable {visited : List Path} {path : Path} {text : Text} (hnew : path.normalize ∉ visited)
      (hread : store.get? path = some text) (hparse : parse? text = none) :
      Loads store parse? visited path [path] (.error (.unparsable path))
  | last {visited : List Path} {path : Path} {project : Project} (hnew : path.normalize ∉ visited)
      (hproject : projectAt? store parse? path = some project) (hbase : project.base = none) :
      Loads store parse? visited path [path] (.ok project.isolated)
  | unresolved {visited : List Path} {path : Path} {project : Project} {base : Text}
      (hnew : path.normalize ∉ visited) (hproject : projectAt? store parse? path = some project)
      (hbase : project.base = some base) (hnone : baseIn? store (directoryOf path) base = none) :
      Loads store parse? visited path [path] (.error (baseFault (directoryOf path) base))
  | extending {visited : List Path} {path next : Path} {project : Project} {base : Text}
      {loaded : List Path} {outcome : Except Fault (Option Bool)} (hnew : path.normalize ∉ visited)
      (hproject : projectAt? store parse? path = some project) (hbase : project.base = some base)
      (hnext : baseIn? store (directoryOf path) base = some next)
      (hrest : Loads store parse? (path.normalize :: visited) next loaded outcome) :
      Loads store parse? visited path (path :: loaded) (outcome.map project.isolated.or)

variable {store : Store} {parse? : Text → Option Project} {visited loaded : List Path}
  {path : Path} {outcome : Except Fault (Option Bool)}

theorem projectAt?_eq_some {project : Project} :
    projectAt? store parse? path = some project ↔
      ∃ text, store.get? path = some text ∧ parse? text = some project :=
  Option.bind_eq_some_iff

theorem isSome_get?_of_projectAt? {project : Project}
    (h : projectAt? store parse? path = some project) : (store.get? path).isSome := by
  obtain ⟨text, htext, -⟩ := projectAt?_eq_some.1 h
  simp [htext]

/-! ## The bound -/

theorem normalize_congr {p q : Path} (h : p.same q = true) : p.normalize = q.normalize := by
  simp only [Path.normalize, Path.same_iff.1 h]

/-- Keys of files that the store has. -/
def Stored (store : Store) (keys : List Path) : Prop :=
  ∀ key ∈ keys, ∃ p : Path, (store.get? p).isSome ∧ p.normalize = key

theorem Stored.cons (h : Stored store visited) (hpath : (store.get? path).isSome) :
    Stored store (path.normalize :: visited) := by
  intro key hkey
  rcases List.mem_cons.1 hkey with rfl | hkey
  · exact ⟨path, hpath, rfl⟩
  · exact h key hkey

/-- There are no more distinct keys than files. -/
theorem Stored.length_le (h : Stored store visited) (hdistinct : visited.Nodup) :
    visited.length ≤ store.files.length := by
  have hsubset : visited ⊆ store.files.map fun f => f.1.normalize := by
    intro key hkey
    obtain ⟨p, hp, rfl⟩ := h key hkey
    rw [Store.get?, Option.isSome_map, List.find?_isSome] at hp
    obtain ⟨f, hf, hsame⟩ := hp
    exact List.mem_map.2 ⟨f, hf, normalize_congr hsame⟩
  simpa using (hdistinct.subperm hsubset).length_le

/-- **Loading comes to an end**, within one file more than the store has besides those visited. -/
theorem exists_loads {visited : List Path} (hdistinct : visited.Nodup)
    (hstored : Stored store visited) (path : Path) :
    ∃ loaded outcome, Loads store parse? visited path loaded outcome ∧
      visited.length + loaded.length ≤ store.files.length + 1 := by
  -- The files that are not visited yet get fewer with each file that extends another.
  induction hleft : store.files.length - visited.length using Nat.strongRecOn
    generalizing visited path with | _ left ih => ?_
  have hbound := hstored.length_le hdistinct
  by_cases hvisited : path.normalize ∈ visited
  · exact ⟨[path], _, .cycle hvisited, by simp [hbound]⟩
  cases hread : store.get? path with
  | none => exact ⟨[path], _, .unreadable hvisited hread, by simp [hbound]⟩
  | some text =>
    cases hparse : parse? text with
    | none => exact ⟨[path], _, .unparsable hvisited hread hparse, by simp [hbound]⟩
    | some project =>
      have hproject := projectAt?_eq_some.2 ⟨text, hread, hparse⟩
      cases hbase : project.base with
      | none => exact ⟨[path], _, .last hvisited hproject hbase, by simp [hbound]⟩
      | some base =>
        cases hnext : baseIn? store (directoryOf path) base with
        | none => exact ⟨[path], _, .unresolved hvisited hproject hbase hnext, by simp [hbound]⟩
        | some next =>
          have hstored' := hstored.cons (isSome_get?_of_projectAt? hproject)
          have hdistinct' := List.nodup_cons.2 ⟨hvisited, hdistinct⟩
          have hlt := hstored'.length_le hdistinct'
          rw [List.length_cons] at hlt
          obtain ⟨loaded, outcome, hloads, hlength⟩ :=
            ih _ (by rw [List.length_cons]; omega) hdistinct' hstored' next rfl
          refine ⟨path :: loaded, _, .extending hvisited hproject hbase hnext hloads, ?_⟩
          simp only [List.length_cons] at hlength ⊢
          omega

/-! ## The bounded loading -/

theorem read_run (store : Store) (path : Path) :
    (Store.fileOps.read path).run store = (store.read path, store) :=
  rfl

theorem firstReadable_run (store : Store) (ps : List Path) :
    (firstReadable Store.fileOps.read ps).run store =
      (ps.find? fun p => (store.get? p).isSome, store) := by
  induction ps with
  | nil => rfl
  | cons p rest ih =>
    rw [firstReadable, run_bind, read_run, Store.read]
    cases hread : store.get? p with
    | none =>
      simp only [List.find?_cons, hread, Option.isSome_none]
      exact ih
    | some text =>
      simp only [List.find?_cons, hread, Option.isSome_some]
      rfl

theorem resolveBase_run (store : Store) (directory : Path) (base : Text) :
    (resolveBase Store.fileOps.read directory base).run store =
      ((baseIn? store directory base).elim (.error (baseFault directory base)) .ok, store) := by
  rw [resolveBase, run_bind, firstReadable_run, baseIn?]
  cases (candidates directory base).find? fun p => (store.get? p).isSome <;> rfl

/-- One file of a bounded loading. -/
theorem follow_run_succ (store : Store) (parse? : Text → Option Project) (bound : Nat)
    (visited : List Path) (path : Path) :
    (follow Store.fileOps.read parse? (bound + 1) visited path).run store =
      if path.normalize ∈ visited then (.error (.cycle path), store)
      else match store.get? path with
        | none => (.error (.unreadable .absent path), store)
        | some text => match parse? text with
          | none => (.error (.unparsable path), store)
          | some project => match project.base with
            | none => (.ok project.isolated, store)
            | some base => match baseIn? store (directoryOf path) base with
              | none => (.error (baseFault (directoryOf path) base), store)
              | some next =>
                ((follow Store.fileOps.read parse? bound (path.normalize :: visited) next).run
                  store).map (Except.map project.isolated.or) id := by
  by_cases hvisited : path.normalize ∈ visited
  · simp only [follow, List.contains_iff_mem, hvisited, if_true]
    rfl
  simp only [follow, List.contains_iff_mem, hvisited, if_false, run_bind, read_run, Store.read]
  cases store.get? path with
  | none => rfl
  | some text =>
    dsimp only
    cases parse? text with
    | none => rfl
    | some project =>
      dsimp only
      cases project.base with
      | none => rfl
      | some base =>
        simp only [run_bind, resolveBase_run, directoryOf]
        cases baseIn? store (path.parent?.getD ⟨[]⟩) base with
        | none => rfl
        | some next =>
          simp only [Option.elim_some, run_bind]
          rcases (follow Store.fileOps.read parse? bound (path.normalize :: visited) next).run store
            with ⟨_ | _, _⟩ <;> rfl

/-- A bound that the loaded files do not exceed plays no role. -/
theorem Loads.follow_run (h : Loads store parse? visited path loaded outcome) {bound : Nat}
    (hbound : loaded.length ≤ bound) :
    (follow Store.fileOps.read parse? bound visited path).run store = (outcome, store) := by
  induction h generalizing bound with
  | cycle hvisited =>
    obtain ⟨bound, rfl⟩ := Nat.exists_eq_add_of_le' hbound
    simp [follow_run_succ, hvisited]
  | unreadable hnew hread => 
    obtain ⟨bound, rfl⟩ := Nat.exists_eq_add_of_le' hbound
    simp [follow_run_succ, hnew, hread]
  | unparsable hnew hread hparse => 
    obtain ⟨bound, rfl⟩ := Nat.exists_eq_add_of_le' hbound
    simp [follow_run_succ, hnew, hread, hparse]
  | last hnew hproject hbase =>
    obtain ⟨text, hread, hparse⟩ := projectAt?_eq_some.1 hproject
    obtain ⟨bound, rfl⟩ := Nat.exists_eq_add_of_le' hbound
    simp [follow_run_succ, hnew, hread, hparse, hbase]
  | unresolved hnew hproject hbase hnone =>
    obtain ⟨text, hread, hparse⟩ := projectAt?_eq_some.1 hproject
    obtain ⟨bound, rfl⟩ := Nat.exists_eq_add_of_le' hbound
    simp [follow_run_succ, hnew, hread, hparse, hbase, hnone]
  | extending hnew hproject hbase hnext hrest ih =>
    obtain ⟨text, hread, hparse⟩ := projectAt?_eq_some.1 hproject
    obtain ⟨bound, rfl⟩ := Nat.exists_eq_add_of_le' hbound
    rw [List.length_cons, ← Nat.add_assoc, follow_run_succ]
    simp [hnew, hread, hparse, hbase, hnext, ih]

/-- What is loaded, and the outcome, follow from the file that is loaded first. -/
theorem Loads.unique {loaded' : List Path} {outcome' : Except Fault (Option Bool)}
    (h : Loads store parse? visited path loaded outcome)
    (h' : Loads store parse? visited path loaded' outcome') :
    loaded = loaded' ∧ outcome = outcome' := by
  induction h generalizing loaded' outcome' with
  | cycle hvisited => cases h' <;> simp_all
  | unreadable hnew hread => cases h' <;> simp_all [projectAt?]
  | unparsable hnew hread hparse => cases h' <;> simp_all [projectAt?]
  | last hnew hproject hbase => cases h' <;> simp_all [projectAt?]
  | unresolved hnew hproject hbase hnone => cases h' <;> simp_all [projectAt?]
  | extending hnew hproject hbase hnext hrest ih =>
    cases h' with
    | extending _ hproject' hbase' hnext' hrest' =>
      cases hproject.symm.trans hproject'
      cases hbase.symm.trans hbase'
      cases hnext.symm.trans hnext'
      obtain ⟨rfl, rfl⟩ := ih hrest'
      exact ⟨rfl, rfl⟩
    | _ => simp_all [projectAt?]

/-! ## Chains -/

/-- **A loading ends well** exactly along a chain whose files are new and distinct. -/
theorem loads_ok_iff {setting : Option Bool} :
    Loads store parse? visited path loaded (.ok setting) ↔
      ∃ chain, Chain store parse? path chain ∧ (keys chain).Nodup ∧
        (∀ key ∈ keys chain, key ∉ visited) ∧ chain.map Prod.fst = loaded ∧
        nearest chain = setting := by
  constructor
  · intro h
    generalize houtcome : Except.ok setting = outcome at h
    induction h generalizing setting with
    | cycle | unreadable | unparsable | unresolved => cases houtcome
    | @last _ path project hnew hproject hbase =>
      cases houtcome
      exact ⟨[(path, project)], .last hproject hbase, by simp [keys], by simpa [keys] using hnew,
        rfl, by simp [nearest]⟩
    | @extending _ path _ project _ _ outcome hnew hproject hbase hnext hrest ih =>
      cases outcome with
      | error fault => cases houtcome
      | ok inherited =>
        cases houtcome
        obtain ⟨chain, hchain, hdistinct, hnews, hloaded, hnearest⟩ := ih rfl
        refine ⟨(path, project) :: chain, .extending hproject hbase hnext hchain, ?_, ?_, ?_, ?_⟩
        · refine List.nodup_cons.2 ⟨fun hmem => ?_, hdistinct⟩
          exact hnews _ hmem List.mem_cons_self
        · intro key hkey
          rcases List.mem_cons.1 hkey with rfl | hkey
          · exact hnew
          · exact fun hmem => hnews key hkey (List.mem_cons_of_mem _ hmem)
        · rw [List.map_cons, hloaded]
        · rw [← hnearest, nearest, List.findSome?_cons]
          cases project.isolated <;> rfl
  · rintro ⟨chain, hchain, hdistinct, hnews, rfl, rfl⟩
    induction hchain generalizing visited with
    | @last path project hproject hbase =>
      have hnew : path.normalize ∉ visited := hnews _ List.mem_cons_self
      have hnearest : nearest [(path, project)] = project.isolated := by simp [nearest]
      rw [hnearest]
      exact .last hnew hproject hbase
    | @extending path next project base rest hproject hbase hnext hrest ih =>
      obtain ⟨hfirst, hdistinct⟩ := List.nodup_cons.1 hdistinct
      have hnew : path.normalize ∉ visited := hnews _ List.mem_cons_self
      have hload : Loads store parse? (path.normalize :: visited) next (rest.map Prod.fst)
          (.ok (nearest rest)) := by
        refine ih hdistinct fun key hkey hmem => ?_
        rcases List.mem_cons.1 hmem with rfl | hmem
        · exact hfirst hkey
        · exact hnews key (List.mem_cons_of_mem _ hkey) hmem
      have hnearest : nearest ((path, project) :: rest) = project.isolated.or (nearest rest) := by
        rw [nearest, List.findSome?_cons]
        cases project.isolated <;> rfl
      rw [hnearest]
      exact .extending hnew hproject hbase hnext hload

theorem enabled_run (h : Loads store parse? [] path loaded outcome)
    (hlength : loaded.length ≤ store.files.length + 1) :
    (enabled Store.fileOps parse? path).run store = (outcome.map (·.getD false), store) := by
  show (Except.map (·.getD false) ((follow Store.fileOps.read parse? (store.files.length + 1) []
    path).run store).1, ((follow Store.fileOps.read parse? (store.files.length + 1) [] path).run
    store).2) = _
  rw [h.follow_run hlength]

/-- **Whether a project asks for isolated declarations**, in any store and for any way to read
project files. Loading ends after at most one file more than the store has. It ends well exactly when
the files from `path` on form a chain in which no file is met twice, and then the setting nearest to
`path` counts. -/
theorem enabled_on_store (store : Store) (parse? : Text → Option Project) (path : Path) :
    ∃ loaded outcome,
      Loads store parse? [] path loaded outcome ∧
      (∀ loaded' outcome', Loads store parse? [] path loaded' outcome' →
        loaded' = loaded ∧ outcome' = outcome) ∧
      loaded.length ≤ store.files.length + 1 ∧
      (enabled Store.fileOps parse? path).run store = (outcome.map (·.getD false), store) ∧
      (∀ b, outcome.map (·.getD false) = .ok b ↔
        ∃ chain, Chain store parse? path chain ∧ (keys chain).Nodup ∧
          (nearest chain).getD false = b) ∧
      ((∃ fault, outcome = .error fault) ↔
        ¬ ∃ chain, Chain store parse? path chain ∧ (keys chain).Nodup) := by
  have hstored : Stored store [] := fun _ h => absurd h List.not_mem_nil
  obtain ⟨loaded, outcome, hloads, hlength⟩ : ∃ loaded outcome,
      Loads store parse? [] path loaded outcome ∧ 0 + loaded.length ≤ store.files.length + 1 :=
    exists_loads List.nodup_nil hstored path
  have hlength : loaded.length ≤ store.files.length + 1 := by omega
  -- The outcomes along chains: by uniqueness these are the only ones.
  have hok : ∀ setting, outcome = .ok setting ↔
      ∃ chain, Chain store parse? path chain ∧ (keys chain).Nodup ∧ nearest chain = setting := by
    intro setting
    constructor
    · rintro rfl
      obtain ⟨chain, hchain, hdistinct, -, -, hnearest⟩ := loads_ok_iff.1 hloads
      exact ⟨chain, hchain, hdistinct, hnearest⟩
    · rintro ⟨chain, hchain, hdistinct, hnearest⟩
      exact (hloads.unique
        (loads_ok_iff.2 ⟨chain, hchain, hdistinct, fun _ _ => List.not_mem_nil, rfl, hnearest⟩)).2
  refine ⟨loaded, outcome, hloads, fun _ _ h => h.unique hloads, hlength, enabled_run hloads hlength,
    fun b => ?_, ?_⟩
  · constructor
    · intro hb
      cases outcome with
      | error fault => cases hb
      | ok setting =>
        cases hb
        obtain ⟨chain, hchain, hdistinct, hnearest⟩ := (hok setting).1 rfl
        exact ⟨chain, hchain, hdistinct, by rw [hnearest]⟩
    · rintro ⟨chain, hchain, hdistinct, rfl⟩
      rw [(hok _).2 ⟨chain, hchain, hdistinct, rfl⟩]
      rfl
  · constructor
    · rintro ⟨fault, rfl⟩ ⟨chain, hchain, hdistinct⟩
      cases (hok _).2 ⟨chain, hchain, hdistinct, rfl⟩
    · intro hnone
      cases outcome with
      | error fault => exact ⟨fault, rfl⟩
      | ok setting =>
        obtain ⟨chain, hchain, hdistinct, -⟩ := (hok setting).1 rfl
        exact absurd ⟨chain, hchain, hdistinct⟩ hnone

end Ambient.Isolation
