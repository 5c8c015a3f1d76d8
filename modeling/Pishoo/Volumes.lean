import Pishoo.Acceptance
import Pishoo.Layout
import Pishoo.LegacyTransfers

namespace Pishoo.Volumes

open Registry Registration Result FileTree Tree Effects Effect Relocation Layout

/-- The directories that the rest of the server writes to. -/
inductive HostRoot
  | sys
  | lib
  | app
  | log
  | repo
  deriving DecidableEq

def HostRoot.path : HostRoot → Path
  | .sys => [".volume", "sys"]
  | .lib => ["lib"]
  | .app => ["app"]
  | .log => ["log"]
  | .repo => ["repo"]

structure System (γ : Type) where
  registry : Registry
  files : Disk γ

/-- A server starts with `start` and a `load` for each registered component, an installation
is a `load` for each component in it and `install`, and a request for a project is a `load`. A
component leaves any contents in its volume. -/
inductive Operation (γ : Type)
  | start (backup : γ → Except Error γ)
  | load (id : Id) (document compiled : Except Error Unit)
  | guest (id : Id) (contents : Disk γ)
  | host (root : HostRoot) (contents : Disk γ)
  | install (sandbox : Sandbox) (items : List Item) (now : String → Int) (finished : Bool)
  | remove (id : Id) (finished : Bool)
  | transfer (host : Legacy.Host) (groups : Json)

section

variable {γ : Type} [DecidableEq γ] (normalizeName : String → Option String)

def registered (r : Registry) : Operation γ → Registry
  | .install sandbox items now finished =>
      (DependencyGraph.step normalizeName r (.install sandbox items now finished)).getD r
  | .remove id finished => (DependencyGraph.step normalizeName r (.remove id finished)).getD r
  | .transfer host groups => DependencyGraph.committed r (Legacy.migrateLegacyGroups host groups r)
  | _ => r

def stored (files : Disk γ) : Operation γ → Disk γ
  | .start backup => ((initializeDirectories backup).outcome files).2
  | .load id document compiled => ((load normalizeName id document compiled).outcome files).2
  | .guest id contents => replace files (volume id) contents
  | .host root contents => replace files root.path contents
  | _ => files

def step (s : System γ) (o : Operation γ) : System γ :=
  ⟨registered normalizeName s.registry o, stored normalizeName s.files o⟩

def run (s : System γ) (os : List (Operation γ)) : System γ := os.foldl (step normalizeName) s

end

/-- A part of the files: what the server keeps in `.volume/sys`, or the volume of a component. -/
inductive Owner
  | host
  | lib (id : Id)
  deriving DecidableEq

def Owner.area : Owner → Path
  | .host => HostRoot.sys.path
  | .lib id => volume id

def Owner.Registered (r : Registry) : Owner → Prop
  | .host => True
  | .lib id => ∃ p ∈ r.packages, p.id = id

/-- Whose files an operation changes. -/
def actor {γ : Type} : Operation γ → Option Owner
  | .start _ | .host .sys _ => some .host
  | .load id _ _ | .guest id _ => some (.lib id)
  | _ => none

def ordinarySys (id : Id) : Prop := standard id = false ∧ id.name = "sys"

/-- When one owner reaches the files of another one. -/
def Reaches : Owner → Owner → Prop
  | .host, .host => True
  | .host, .lib id | .lib id, .host => ordinarySys id
  | .lib id, .lib other => (id.name = other.name ∧ standard id = standard other) ∨
      (id.name = "std" ∧ standard id = false ∧ standard other = true)

section

variable {id other : Id}

theorem volume_prefix_iff : volume id <+: volume other ↔ Reaches (.lib id) (.lib other) := by
  unfold volume volumeParent Reaches
  cases hid : standard id <;> cases hother : standard other <;>
    simp [List.cons_prefix_cons, hid, hother]

theorem volume_prefix_sys_iff : volume id <+: Owner.host.area ↔ ordinarySys id := by
  unfold volume volumeParent ordinarySys Owner.area HostRoot.path
  cases standard id <;> simp [List.cons_prefix_cons]

theorem sys_prefix_volume_iff : Owner.host.area <+: volume id ↔ ordinarySys id := by
  unfold volume volumeParent ordinarySys Owner.area HostRoot.path
  cases standard id <;> simp [List.cons_prefix_cons, eq_comm]

end

def ordinaryStd : Owner → Prop
  | .host => False
  | .lib id => standard id = false ∧ id.name = "std"

/-- The paths of a part of the files are unchanged. -/
def Unchanged {γ : Type} (area : Path) (t t' : Disk γ) : Prop :=
  ∀ rest, t'.find (area ++ rest) = t.find (area ++ rest)

section

variable {γ : Type} {area : Path}

instance : Std.Refl (Unchanged (γ := γ) area) := ⟨fun _ _ => rfl⟩

instance : IsTrans (Disk γ) (Unchanged area) :=
  ⟨fun _ _ _ h h' rest => (h' rest).trans (h rest)⟩

variable [DecidableEq γ]

theorem unchanged_allows : Allows (Unchanged (γ := γ) area) (fun path => ¬ area <+: path)
    (fun m => Apart m.source area ∧ Apart m.dest area) where
  create := by
    intro t t' parent name entry hpath h rest
    obtain ⟨-, -, hfind⟩ := create_spec h
    rw [hfind, if_neg]
    intro heq
    exact hpath (heq ▸ List.prefix_append area rest)
  move := by
    intro m t t' hm h rest
    exact (rename_spec h).other (hm.1.not_below rest) (hm.2.not_below rest)

theorem replace_unchanged {root : Path} (h : Apart root area) (t contents : Disk γ) :
    Unchanged area t (replace t root contents) :=
  fun rest => replace_other (h.not_below rest)

end

section

variable {a q : Owner} {id : Id}

theorem area_cons (q : Owner) : ∃ name rest, q.area = ".volume" :: name :: rest := by
  cases q with
  | host => exact ⟨_, _, rfl⟩
  | lib id =>
      simp only [Owner.area, volume, volumeParent]
      cases standard id
      · exact ⟨id.name, [], rfl⟩
      · exact ⟨"std", [id.name], rfl⟩

theorem apart_area {name : String} (h : name ≠ ".volume") (rest : Path) (q : Owner) :
    Apart (name :: rest) q.area := by
  obtain ⟨first, rest', hrest⟩ := area_cons q
  rw [hrest]
  exact apart_of_ne h rest _

theorem apart_of_not_reaches (hq : ¬ ordinaryStd q) (h : ¬ Reaches a q) : Apart a.area q.area := by
  cases a with
  | host =>
      cases q with
      | host => exact absurd trivial h
      | lib id => exact ⟨fun hbegins => h (sys_prefix_volume_iff.mp hbegins),
          fun hbegins => h (volume_prefix_sys_iff.mp hbegins)⟩
  | lib id =>
      cases q with
      | host => exact ⟨fun hbegins => h (volume_prefix_sys_iff.mp hbegins),
          fun hbegins => h (sys_prefix_volume_iff.mp hbegins)⟩
      | lib other =>
          refine ⟨fun hbegins => h (volume_prefix_iff.mp hbegins), fun hbegins => ?_⟩
          rcases volume_prefix_iff.mp hbegins with ⟨hname, hstandard⟩ | ⟨hname, hstandard, -⟩
          · exact h (.inl ⟨hname.symm, hstandard.symm⟩)
          · exact hq ⟨hstandard, hname⟩

theorem area_prefix_std (h : q.area <+: [".volume", "std"]) : ordinaryStd q := by
  cases q with
  | host => simp [Owner.area, HostRoot.path, List.cons_prefix_cons] at h
  | lib id =>
      simp only [Owner.area, volume, volumeParent] at h
      cases hid : standard id <;> rw [hid] at h
      · exact ⟨hid, by simpa [List.cons_prefix_cons] using h⟩
      · simp [List.cons_prefix_cons] at h

/-- Of the directories of an identity none is in a part of the files that the server does not reach. -/
theorem not_below_of_directory (hstd : ¬ ordinaryStd q) (hsys : ¬ Reaches .host q) {parent : Path}
    {name : String} (h : (parent, name) ∈ directories) : ¬ q.area <+: parent ++ [name] := by
  have hshape : ∀ d ∈ directories, (d.1 ++ [d.2]).head? ≠ some ".volume" ∨ (d.1 ++ [d.2]).length = 1 ∨
      HostRoot.sys.path <+: d.1 ++ [d.2] ∨ d.1 ++ [d.2] = [".volume", "std"] := by
    decide
  intro hbegins
  obtain ⟨first, rest, harea⟩ := area_cons q
  rcases hshape _ h with hhead | hlength | hbelow | heq
  · obtain ⟨rest', hrest⟩ := hbegins
    rw [harea] at hrest
    exact hhead (hrest ▸ rfl)
  · have hle := hbegins.length_le
    rw [hlength, harea] at hle
    simp at hle
  · have hapart := apart_of_not_reaches hstd hsys
    rcases List.prefix_or_prefix_of_prefix hbelow hbegins with hfirst | hsecond
    · exact hapart.1 hfirst
    · exact hapart.2 hsecond
  · exact hstd (area_prefix_std (heq ▸ hbegins))

theorem load_unchanged {γ : Type} [DecidableEq γ] (hq : ¬ ordinaryStd q)
    (h : ¬ Reaches (.lib id) q) (normalizeName : String → Option String)
    (document compiled : Except Error Unit) :
    Keeps (Unchanged q.area) (load normalizeName id document compiled : Program γ Unit) := by
  have hapart : Apart (volume id) q.area := apart_of_not_reaches (a := .lib id) hq h
  apply keeps_load unchanged_allows
  · intro path _ hpath hbegins
    exact hapart.2 (hbegins.trans hpath)
  · intro m hm
    obtain ⟨rest, hsource, hdest⟩ := legacy_source hm
    rw [hsource, hdest]
    exact ⟨apart_area (by decide) rest q, hapart⟩

theorem initialize_unchanged {γ : Type} [DecidableEq γ] (hq : ¬ ordinaryStd q)
    (h : ¬ Reaches .host q) (backup : γ → Except Error γ) :
    Keeps (Unchanged q.area) (initializeDirectories backup) := by
  apply keeps_initializeDirectories unchanged_allows
  · intro old new hroot
    have hnames : ∀ root ∈ runtimeRoots, root.1 ≠ ".volume" ∧ root.2 ≠ ".volume" := by
      decide
    obtain ⟨hold, hnew⟩ := hnames _ hroot
    exact ⟨apart_area hold [] q, apart_area hnew [] q⟩
  · intro parent name hdirectory
    exact not_below_of_directory hq h hdirectory
  · intro old area _ hbegins
    have hapart : Apart HostRoot.sys.path q.area := apart_of_not_reaches (a := .host) hq h
    have hbelow : HostRoot.sys.path <+: [".volume", "sys", area, "database"] := ⟨[area, "database"], rfl⟩
    rcases List.prefix_or_prefix_of_prefix hbelow hbegins with hfirst | hsecond
    · exact hapart.1 hfirst
    · exact hapart.2 hsecond

theorem stored_unchanged {γ : Type} [DecidableEq γ] (hq : ¬ ordinaryStd q)
    (normalizeName : String → Option String) (files : Disk γ) (o : Operation γ)
    (h : ∀ a, actor o = some a → ¬ Reaches a q) :
    Unchanged q.area files (stored normalizeName files o) := by
  cases o with
  | start backup => exact initialize_unchanged hq (h .host rfl) backup files
  | load id document compiled =>
      exact load_unchanged hq (h (.lib id) rfl) normalizeName document compiled files
  | guest id contents =>
      exact replace_unchanged (apart_of_not_reaches hq (h (.lib id) rfl)) files contents
  | host root contents =>
      cases root with
      | sys => exact replace_unchanged (apart_of_not_reaches hq (h .host rfl)) files contents
      | lib => exact replace_unchanged (apart_area (by decide) [] q) files contents
      | app => exact replace_unchanged (apart_area (by decide) [] q) files contents
      | log => exact replace_unchanged (apart_area (by decide) [] q) files contents
      | repo => exact replace_unchanged (apart_area (by decide) [] q) files contents
  | install sandbox items now finished => exact Std.Refl.refl files
  | remove id finished => exact Std.Refl.refl files
  | transfer host groups => exact Std.Refl.refl files

end

section

variable {normalizeName : String → Option String} {r r' : Registry} {sandbox : Sandbox}
  {items : List Item} {now : String → Int} {changed : List Release}

/-- No package has the name of the directory for the standard ones. -/
def Named (r : Registry) : Prop := ∀ p ∈ r.packages, p.name ≠ "std"

theorem Named.of_package (h : Named r)
    (hpackage : ∀ p, r'.package p.name = some p → ∃ p' ∈ r.packages, p'.name = p.name) : Named r' := by
  intro p hp
  obtain ⟨p', hp', hname⟩ := hpackage p (package_eq_some.mpr ⟨hp, rfl⟩)
  rw [← hname]
  exact h p' hp'

theorem Named.migrated (h : Named r) (hopened : migrateRegistration r = .ok r') : Named r' := by
  unfold Named
  rwa [migrateRegistration_tables hopened]

theorem installed_named (h : Named r) (htx : installTx normalizeName r sandbox items now =
    .ok (changed, r')) : Named r' := by
  obtain ⟨hexamine, hsave⟩ := examineAll_of_installTx htx
  intro p hp
  by_cases hchanged : p.name ∈ changed.map fun rel => rel.id.name
  · obtain ⟨rel, hrel, hname⟩ := List.mem_map.mp hchanged
    obtain ⟨item, -, haccepted⟩ := accepted_of_mem hexamine hrel
    rw [← hname, haccepted.identity]
    exact haccepted.reserved
  · have hp' : r'.package p.name = some p := package_eq_some.mpr ⟨hp, rfl⟩
    rw [saveAll_package_other hsave hchanged] at hp'
    exact h p (package_eq_some.mp hp').1

/-- A transfer leaves each package its name and its volume. -/
theorem transferred_volume {host : Legacy.Host} {groups : Json}
    (h : Legacy.migrateLegacyGroups host groups r = .ok r') {p : Package} (hp : p ∈ r'.packages) :
    ∃ p' ∈ r.packages, p'.name = p.name ∧ volume p'.id = volume p.id := by
  obtain ⟨gs, r₀, -, -, hopened, rfl⟩ := LegacyTransfers.migrateLegacyGroups_eq_ok.mp h
  have h₀ : r₀.packages = r.packages := by
    obtain ⟨-, rfl⟩ | ⟨-, hopened⟩ := hopened
    · rfl
    · rw [migrateRegistration_tables hopened]
  have hcore := (LegacyTransfers.run_kept host r₀ gs).core p.name
  rw [show (LegacyTransfers.run host r₀ gs).package p.name = some p from package_eq_some.mpr ⟨hp, rfl⟩]
    at hcore
  obtain ⟨p', hp', hsame⟩ := Option.map_eq_some_iff.mp hcore.symm
  obtain ⟨hmem, hname⟩ := package_eq_some.mp hp'
  simp only [LegacyTransfers.core, Prod.mk.injEq] at hsame
  obtain ⟨-, -, -, hstandard⟩ := hsame
  refine ⟨p', h₀ ▸ hmem, hname, ?_⟩
  have hstandard' : standard p'.id = standard p.id := hstandard
  rw [volume, volume, volumeParent, volumeParent, hstandard']
  exact congrArg _ (congrArg ([·]) hname)

theorem committed_named {x : Except Error Registry} (h : Named r) (hx : ∀ r', x = .ok r' → Named r') :
    Named (DependencyGraph.committed r x) := by
  cases x with
  | error e => exact h
  | ok r' => exact hx r' rfl

theorem registered_named {γ : Type} (h : Named r) (o : Operation γ) :
    Named (registered normalizeName r o) := by
  cases o with
  | start backup => exact h
  | load id document compiled => exact h
  | guest id contents => exact h
  | host root contents => exact h
  | install sandbox items now finished =>
      rw [registered, DependencyGraph.step, Option.getD_some]
      split
      · exact h
      · rename_i r₀ haccepted
        obtain ⟨_, -, hopened⟩ := bind_eq_ok.mp haccepted
        have h₀ := h.migrated hopened
        split
        · apply committed_named h₀
          intro r' hinstalled
          cases htx : installTx normalizeName r₀ sandbox items now with
          | error e =>
              rw [htx] at hinstalled
              cases hinstalled
          | ok out =>
              rw [htx] at hinstalled
              cases hinstalled
              exact installed_named h₀ htx
        · exact h₀
  | remove id finished =>
      rw [registered, DependencyGraph.step, Option.getD_some]
      split
      · exact h
      · rename_i r₀ hopened
        have h₀ := h.migrated hopened
        split
        · apply committed_named h₀
          intro r' hremoved
          apply h₀.of_package
          intro p hp
          rw [removeTx_package hremoved] at hp
          split at hp
          · cases hp
          · exact ⟨p, (package_eq_some.mp hp).1, rfl⟩
        · exact h₀
  | transfer host groups =>
      apply committed_named h
      intro r' htransfer
      apply h.of_package
      intro p hp
      obtain ⟨p', hp', hname, -⟩ := transferred_volume htransfer (package_eq_some.mp hp).1
      exact ⟨p', hp', hname⟩

end

section

variable {γ : Type} [DecidableEq γ] {normalizeName : String → Option String} {a q : Owner}

theorem run_named {s : System γ} (h : Named s.registry) (os : List (Operation γ)) :
    Named (run normalizeName s os).registry := by
  induction os generalizing s with
  | nil => exact h
  | cons o os ih => exact ih (registered_named h o)

theorem not_ordinaryStd {r : Registry} (h : Named r) (hq : q.Registered r) : ¬ ordinaryStd q := by
  cases q with
  | host => exact fun hstd => hstd
  | lib id =>
      obtain ⟨p, hp, rfl⟩ := hq
      exact fun hstd => h p hp hstd.2

theorem run_unchanged {s : System γ} (hq : ¬ ordinaryStd q) {os : List (Operation γ)}
    (h : ∀ o ∈ os, ∀ a, actor o = some a → ¬ Reaches a q) :
    Unchanged q.area s.files (run normalizeName s os).files := by
  induction os generalizing s with
  | nil => exact Std.Refl.refl s.files
  | cons o os ih =>
      have hfirst : Unchanged q.area s.files (step normalizeName s o).files :=
        stored_unchanged hq normalizeName s.files o (h o List.mem_cons_self)
      have hrest : Unchanged q.area (step normalizeName s o).files
          (run normalizeName (step normalizeName s o) os).files :=
        ih fun o ho => h o (List.mem_cons_of_mem _ ho)
      exact IsTrans.trans _ _ _ hfirst hrest

/-- Registered components reach neither the files of each other nor those of the server. Only an
ordinary component with the name `sys` shares the directory of the server. -/
theorem reaches_registered {r : Registry} (h : Named r) (ha : a.Registered r) (hq : q.Registered r)
    (hne : a ≠ q) (hreaches : Reaches a q) : ∃ p ∈ r.packages, ordinarySys p.id ∧
      (a = .host ∧ q = .lib p.id ∨ a = .lib p.id ∧ q = .host) := by
  cases a with
  | host =>
      cases q with
      | host => exact absurd rfl hne
      | lib id =>
          obtain ⟨p, hp, rfl⟩ := hq
          exact ⟨p, hp, hreaches, .inl ⟨rfl, rfl⟩⟩
  | lib id =>
      obtain ⟨p, hp, rfl⟩ := ha
      cases q with
      | host => exact ⟨p, hp, hreaches, .inr ⟨rfl, rfl⟩⟩
      | lib other =>
          obtain ⟨p', hp', rfl⟩ := hq
          rcases hreaches with ⟨hname, -⟩ | ⟨hname, -⟩
          · have hfirst := package_eq_some.mpr ⟨hp, hname⟩
            have hsecond : r.package p'.name = some p' := package_eq_some.mpr ⟨hp', rfl⟩
            obtain rfl := Option.some.inj (hfirst.symm.trans hsecond)
            exact absurd rfl hne
          · exact absurd hname (h p hp)

/-- From any moment of a run the files of the server and of each registered component are only changed
by those that reach them. -/
theorem files_kept (normalizeName : String → Option String) (os os' : List (Operation γ))
    (files : Disk γ) :
    (∀ q : Owner, q.Registered (run normalizeName ⟨.empty, files⟩ os).registry →
      (∀ o ∈ os', ∀ a, actor o = some a → ¬ Reaches a q) → ∀ rest,
        (run normalizeName ⟨.empty, files⟩ (os ++ os')).files.find (q.area ++ rest) =
          (run normalizeName ⟨.empty, files⟩ os).files.find (q.area ++ rest)) ∧
    (∀ a q : Owner, a.Registered (run normalizeName ⟨.empty, files⟩ os).registry →
      q.Registered (run normalizeName ⟨.empty, files⟩ os).registry → a ≠ q → Reaches a q →
      ∃ p ∈ (run normalizeName ⟨.empty, files⟩ os).registry.packages, ordinarySys p.id ∧
        (a = .host ∧ q = .lib p.id ∨ a = .lib p.id ∧ q = .host)) ∧
    ∀ (host : Legacy.Host) (groups : Json), ∀ p ∈ (step normalizeName
        (run normalizeName ⟨.empty, files⟩ os) (.transfer host groups)).registry.packages,
      ∃ p' ∈ (run normalizeName ⟨.empty, files⟩ os).registry.packages,
        p'.name = p.name ∧ volume p'.id = volume p.id := by
  have hnamed : Named (run normalizeName ⟨.empty, files⟩ os).registry :=
    run_named (fun p hp => by cases hp) os
  refine ⟨fun q hq h => ?_, fun a q ha hq hne hreaches => reaches_registered hnamed ha hq hne hreaches,
    fun host groups p hp => ?_⟩
  · rw [run, List.foldl_append]
    exact run_unchanged (not_ordinaryStd hnamed hq) h
  · generalize run normalizeName ⟨.empty, files⟩ os = s at hp ⊢
    change p ∈ (DependencyGraph.committed s.registry
      (Legacy.migrateLegacyGroups host groups s.registry)).packages at hp
    cases htransfer : Legacy.migrateLegacyGroups host groups s.registry with
    | error e =>
        rw [htransfer] at hp
        exact ⟨p, hp, rfl, rfl⟩
    | ok r' =>
        rw [htransfer] at hp
        exact transferred_volume htransfer hp

end

section

variable {γ : Type} {os : List (Operation γ)} {m : Move String} {root : Path}

/-- The moves that the operations of a run can make. -/
def Moves (os : List (Operation γ)) (m : Move String) : Prop :=
  (∃ old new, (old, new) ∈ runtimeRoots ∧ m = rootMove old new) ∨
    ∃ id document compiled, .load id document compiled ∈ os ∧ m ∈ legacy id

/-- The directories in which operations of a run leave other contents. -/
def Writes (os : List (Operation γ)) (root : Path) : Prop :=
  (∃ id contents, .guest id contents ∈ os ∧ root = volume id) ∨
    ∃ host contents, .host host contents ∈ os ∧ root = host.path

theorem moves_source (h : Moves os m) :
    ∃ name rest, m.source = name :: rest ∧ name ∈ ["libs", "apps", "logs", "db"] := by
  rcases h with ⟨old, new, hroot, rfl⟩ | ⟨id, document, compiled, -, hm⟩
  · have hold : ∀ root ∈ runtimeRoots, root.1 ∈ ["libs", "apps", "logs", "db"] := by
      decide
    exact ⟨old, [], rfl, hold _ hroot⟩
  · obtain ⟨rest, hsource, -⟩ := legacy_source hm
    exact ⟨_, rest, hsource, by simp⟩

theorem moves_dest (h : Moves os m) :
    ∃ name rest, m.dest = name :: rest ∧ name ∈ [".volume", "lib", "app", "log", "repo"] := by
  rcases h with ⟨old, new, hroot, rfl⟩ | ⟨id, document, compiled, -, hm⟩
  · have hnew : ∀ root ∈ runtimeRoots, root.2 ∈ [".volume", "lib", "app", "log", "repo"] := by
      decide
    exact ⟨new, [], rfl, hnew _ hroot⟩
  · obtain ⟨-, -, hdest⟩ := legacy_source hm
    obtain ⟨name, rest, harea⟩ := area_cons (.lib id)
    exact ⟨_, _, hdest.trans harea, by simp⟩

theorem writes_root (h : Writes os root) :
    ∃ name rest, root = name :: rest ∧ name ∈ [".volume", "lib", "app", "log", "repo"] := by
  rcases h with ⟨id, contents, -, rfl⟩ | ⟨host, contents, -, rfl⟩
  · obtain ⟨name, rest, harea⟩ := area_cons (.lib id)
    exact ⟨_, _, harea, by simp⟩
  · cases host with
    | sys => exact ⟨_, _, rfl, by simp⟩
    | lib => exact ⟨_, _, rfl, by simp⟩
    | app => exact ⟨_, _, rfl, by simp⟩
    | log => exact ⟨_, _, rfl, by simp⟩
    | repo => exact ⟨_, _, rfl, by simp⟩

theorem apart_source (h : Moves os m) {path : Path} (hpath : ∃ name rest, path = name :: rest ∧
    name ∈ [".volume", "lib", "app", "log", "repo"]) : Apart m.source path := by
  obtain ⟨name, rest, hsource, hname⟩ := moves_source h
  obtain ⟨name', rest', rfl, hname'⟩ := hpath
  rw [hsource]
  have hne : ∀ name ∈ ["libs", "apps", "logs", "db"],
      ∀ name' ∈ [".volume", "lib", "app", "log", "repo"], name ≠ name' := by
    decide
  exact apart_of_ne (hne name hname name' hname') rest rest'

/-- What a run may move and change. -/
def policy (os : List (Operation γ)) : Policy String where
  moves := Moves os
  writes := Writes os
  moved_apart := fun _ _ hm hm' => apart_source hm (moves_dest hm')
  written_apart := fun _ _ hroot hm => (apart_source hm (writes_root hroot)).symm

variable [DecidableEq γ]

theorem relocated_allows : Allows (Relocated (γ := Leaf γ) (policy os)) (fun _ => True) (Moves os) where
  create := fun _ _ _ _ _ _ h => create_relocated h
  move := fun _ _ _ hm h => rename_relocated h hm

theorem stored_relocated (normalizeName : String → Option String) (files : Disk γ)
    {o : Operation γ} (h : o ∈ os) : Relocated (policy os) files (stored normalizeName files o) := by
  cases o with
  | start backup =>
      apply keeps_initializeDirectories relocated_allows
      · exact fun old new hroot => .inl ⟨old, new, hroot, rfl⟩
      · exact fun _ _ _ => trivial
      · exact fun _ _ _ => trivial
  | load id document compiled =>
      apply keeps_load relocated_allows
      · exact fun _ _ _ => trivial
      · exact fun m hm => .inr ⟨id, document, compiled, h, hm⟩
  | guest id contents => exact replace_relocated (.inl ⟨id, contents, h, rfl⟩)
  | host root contents => exact replace_relocated (.inr ⟨root, contents, h, rfl⟩)
  | install sandbox items now finished => exact Std.Refl.refl files
  | remove id finished => exact Std.Refl.refl files
  | transfer host groups => exact Std.Refl.refl files

theorem run_relocated {normalizeName : String → Option String} {os' : List (Operation γ)}
    (h : ∀ o ∈ os', o ∈ os) (s : System γ) :
    Relocated (policy os) s.files (run normalizeName s os').files := by
  induction os' generalizing s with
  | nil => exact Std.Refl.refl s.files
  | cons o os' ih =>
      have hfirst : Relocated (policy os) s.files (step normalizeName s o).files :=
        stored_relocated normalizeName s.files (h o List.mem_cons_self)
      exact IsTrans.trans _ _ _ hfirst (ih (fun o ho => h o (List.mem_cons_of_mem _ ho)) _)

end

/-- The component is installed and loaded, another one is loaded and leaves a file. -/
def sampleOperations : List (Operation Nat) :=
  [.load baseId (.ok ()) (.ok ()), .install .empty [sampleItem "base" "1.0.0" []] (fun _ => 100) true,
    .load ⟨some "alice.example", "shop"⟩ (.ok ()) (.ok ())]

theorem files_kept_base :
    (∃ p ∈ (run some ⟨.empty, sampleFiles⟩ sampleOperations).registry.packages, p.id = baseId) ∧
    (run some ⟨.empty, sampleFiles⟩ (sampleOperations ++
      [.guest ⟨some "alice.example", "shop"⟩ sampleFiles])).files.find [".volume", "base", "data"] =
        some (.file (.regular 1)) := by
  have hbase : ∃ p ∈ (run some ⟨.empty, sampleFiles⟩ sampleOperations).registry.packages,
      p.id = baseId := by decide +kernel
  obtain ⟨hkept, -⟩ := files_kept some sampleOperations
    [.guest ⟨some "alice.example", "shop"⟩ sampleFiles] sampleFiles
  refine ⟨hbase, (hkept (.lib baseId) hbase ?_ ["data"]).trans (by decide +kernel)⟩
  intro o ho a ha hreaches
  rw [List.mem_singleton] at ho
  subst ho
  cases ha
  rcases hreaches with ⟨hname, -⟩ | ⟨hname, -⟩
  · exact absurd hname (by decide)
  · exact absurd hname (by decide)

end Pishoo.Volumes
