import Pishoo.Sqlite

namespace Pishoo.Configuration

open Sqlite Result

variable {V : Type}

inductive File (V : Type)
  | absent
  | irregular
  | database (d : Database V)

/-- The three databases of an identity, with the setting databases that have been archived. -/
structure Profile (V : Type) where
  setting : File V
  registry : File V
  access : File V
  archived : List (Database V)

def settingTables : List (String × List String) :=
  [("setting", ["key", "value"]), ("proxy_location", ["location", "proxy_pass"])]

def evidenceColumns : List String :=
  ["author_owner_hash", "package_sha256", "signer_leaf_fingerprint_sha256"]

def packageColumns : List String :=
  ["name", "author", "version", "title", "description", "license", "repository", "installed_at",
    "upgraded_at", "has_lib", "has_app"]

def registryTables : List (String × List String) :=
  [("package", packageColumns ++ evidenceColumns),
    ("package_dependency", ["package_name", "dependency_name", "version"])]

def accessTables : List (String × List String) :=
  [("lib_capability", ["lib_name", "capability_id", "title"]),
    ("lib_capability_operation", ["lib_name", "capability_id", "method", "path"])]

/-- A missing file is created empty. -/
def File.created : File V → File V
  | .absent => .database .empty
  | f => f

def hasTables (d : Database V) (tables : List (String × List String)) : Bool :=
  tables.all (fun e => (d.table e.1).isSome)

def hasSigningEvidence (registry : Database V) : Bool :=
  (registry.table "package").any
    (fun t => decide ("signer_leaf_fingerprint_sha256" ∈ t.columns))

/-- `v4_add_signing_evidence.sql`. -/
def addSigningEvidence (registry : Database V) : Except String (Database V) := do
  let registry ← registry.alter "package" "author_owner_hash"
  let registry ← registry.alter "package" "package_sha256"
  let registry ← registry.alter "package" "signer_leaf_fingerprint_sha256"
  .ok (registry.setVersion 4)

/-- The branch of `initialize_config` for a setting database of version 3. -/
def upgrade (p : Profile V) (setting registry access : Database V) :
    Profile V × Except String Unit :=
  if (hasTables setting settingTables && hasTables registry registryTables &&
      hasTables access accessTables) = false then (p, .error "incomplete package registry schema")
  else if hasSigningEvidence registry then (p, .ok ())
  else match addSigningEvidence registry with
    | .error e => (p, .error e)
    | .ok registry => ({ p with registry := .database registry }, .ok ())

/-- The branch of `initialize_config` for a new setting database. -/
def fresh (p : Profile V) (setting registry access : Database V) : Profile V :=
  { p with
    setting := .database ((setting.createAll settingTables).setVersion 3)
    registry := .database ((registry.createAll registryTables).setVersion 4)
    access := .database (access.createAll accessTables) }

/-- The part of `initialize_config` after the files have been created. -/
def opened (p : Profile V) : Profile V × Except String Unit :=
  match p.setting with
  | .database setting =>
      if setting.version ≠ 3 ∧ setting.version ≠ 0 then
        (p, .error (s!"unsupported configuration schema {setting.version}; " ++
          "reinitialize the identity service (existing data preserved)"))
      else match p.registry, p.access with
        | .database registry, .database access =>
            match [setting.check, registry.check, access.check].find? (fun check => check != "ok") with
            | some check => (p, .error check)
            | none =>
                if setting.version = 3 then upgrade p setting registry access
                else (fresh p setting registry access, .ok ())
        | _, _ => (p, .error "attached database must be a regular file")
  | _ => (p, .error "configuration must be a regular file")

def createFiles (p : Profile V) : Profile V :=
  { p with
    setting := p.setting.created
    registry := p.registry.created
    access := p.access.created }

def initializeConfig (p : Profile V) : Profile V × Except String Unit :=
  match p.setting with
  | .irregular => (p, .error "configuration must be a regular file")
  | .absent => opened (createFiles p)
  | .database previous =>
      if previous.version = 1 ∨ previous.version = 2 then
        opened (createFiles { p with setting := .absent, archived := p.archived ++ [previous] })
      else if previous.version ≠ 3 ∧ (previous.version ≠ 0 ∨ previous.occupied = true) then
        (p, .error s!"unsupported configuration schema {previous.version}; existing data preserved")
      else opened (createFiles p)

/-- Every row of the file is still there, unchanged in the columns it had. -/
def File.Kept : File V → File V → Prop
  | .database d, f => ∃ d', f = .database d' ∧ d.Extends d'
  | _, _ => True

/-- The current schema in the three files. -/
structure Ready (p : Profile V) (setting registry access : Database V) : Prop where
  setting_eq : p.setting = .database setting
  registry_eq : p.registry = .database registry
  access_eq : p.access = .database access
  setting_version : setting.version = 3
  checked : [setting.check, registry.check, access.check].find? (fun check => check != "ok") = none
  settingTables : ∀ e ∈ settingTables, ∃ t, setting.table e.1 = some t
  registryTables : ∀ e ∈ registryTables, ∃ t, registry.table e.1 = some t
  accessTables : ∀ e ∈ accessTables, ∃ t, access.table e.1 = some t

def HasEvidence (registry : Database V) : Prop :=
  ∃ t, registry.table "package" = some t ∧ ∀ column ∈ evidenceColumns, column ∈ t.columns

/-- What an initialization from `p` is for. -/
structure Initialized (p p' : Profile V) : Prop where
  current : ∃ setting registry access, Ready p' setting registry access ∧ HasEvidence registry ∧
    registry.version = 4
  registry_kept : p.registry.Kept p'.registry
  access_kept : p.access.Kept p'.access
  again : initializeConfig p' = (p', .ok ())

/-- The registries that the code has ever written: none or an empty one, one without the evidence
columns, and the current one. -/
inductive Known : File V → Prop
  | absent : Known .absent
  | irregular : Known .irregular
  | empty {d} : d.table "package" = none → Known (.database d)
  | old {d t} : d.table "package" = some t → (∀ column ∈ evidenceColumns, column ∉ t.columns) →
      Known (.database d)
  | current {d} : HasEvidence d → d.version = 4 → Known (.database d)

def OldRegistry (f : File V) : Prop :=
  ∃ d t, f = .database d ∧ d.table "package" = some t ∧
    "signer_leaf_fingerprint_sha256" ∉ t.columns

def CurrentSetting (f : File V) : Prop := ∃ d, f = .database d ∧ d.version = 3

section

variable {p p' : Profile V} {setting registry access registry' : Database V}
  {tables : List (String × List String)}

theorem hasTables_iff {d : Database V} :
    hasTables d tables = true ↔ ∀ e ∈ tables, ∃ t, d.table e.1 = some t := by
  simp [hasTables, List.all_eq_true, Option.isSome_iff_exists]

theorem hasSigningEvidence_iff : hasSigningEvidence registry = true ↔
    ∃ t, registry.table "package" = some t ∧ "signer_leaf_fingerprint_sha256" ∈ t.columns := by
  simp [hasSigningEvidence, Option.any_eq_true]

theorem HasEvidence.signed (h : HasEvidence registry) : hasSigningEvidence registry = true := by
  obtain ⟨t, ht, hcolumns⟩ := h
  exact hasSigningEvidence_iff.mpr ⟨t, ht, hcolumns _ (by decide)⟩

theorem addSigningEvidence_ok (h : addSigningEvidence registry = .ok registry') :
    registry.Extends registry' ∧ HasEvidence registry' ∧ registry'.version = 4 ∧
      registry'.check = registry.check := by
  obtain ⟨d₁, h₁, h⟩ := bind_eq_ok.mp h
  obtain ⟨d₂, h₂, h⟩ := bind_eq_ok.mp h
  obtain ⟨d₃, h₃, h⟩ := bind_eq_ok.mp h
  cases h
  have hextends := ((Database.extends_alter h₁).trans (Database.extends_alter h₂)).trans
    (Database.extends_alter h₃)
  refine ⟨hextends.trans (Database.extends_setVersion 4), ?_, rfl, ?_⟩
  · obtain ⟨t, ht, -, -⟩ := Database.alter_ok.mp h₁
    have hpackage : d₃.table "package" = some (((t.addColumn "author_owner_hash").addColumn
        "package_sha256").addColumn "signer_leaf_fingerprint_sha256") := by
      simp [Database.table_alter h₃, Database.table_alter h₂, Database.table_alter h₁, ht]
    refine ⟨_, hpackage, ?_⟩
    simp [evidenceColumns, Table.addColumn]
  · exact (Database.check_alter h₃).trans ((Database.check_alter h₂).trans (Database.check_alter h₁))

theorem createFiles_database (hs : p.setting = .database setting)
    (hr : p.registry = .database registry) (ha : p.access = .database access) :
    createFiles p = p := by
  obtain ⟨_, _, _, _⟩ := p
  cases hs
  cases hr
  cases ha
  rfl

/-- A profile with the current schema is left as it is. -/
theorem initialize_ready (h : Ready p setting registry access) (he : HasEvidence registry) :
    initializeConfig p = (p, .ok ()) := by
  have hupgrade : upgrade p setting registry access = (p, .ok ()) := by
    have htables : (hasTables setting settingTables && hasTables registry registryTables &&
        hasTables access accessTables) = true := by
      rw [hasTables_iff.mpr h.settingTables, hasTables_iff.mpr h.registryTables,
        hasTables_iff.mpr h.accessTables]
      rfl
    simp [upgrade, htables, he.signed]
  have hopened : opened p = (p, .ok ()) := by
    simp only [opened, h.setting_eq, h.registry_eq, h.access_eq, h.checked, h.setting_version]
    simpa using hupgrade
  simp only [initializeConfig, h.setting_eq, h.setting_version]
  simpa [createFiles_database h.setting_eq h.registry_eq h.access_eq] using hopened

theorem opened_ok (h : opened p = (p', .ok ())) : ∃ setting registry access,
    p.setting = .database setting ∧ p.registry = .database registry ∧ p.access = .database access ∧
      [setting.check, registry.check, access.check].find? (fun check => check != "ok") = none ∧
      (setting.version = 3 ∧ upgrade p setting registry access = (p', .ok ()) ∨
        setting.version = 0 ∧ p' = fresh p setting registry access) := by
  unfold opened at h
  split at h
  · rename_i setting hs
    split at h
    · cases h
    · rename_i hversion
      split at h
      · rename_i registry access hr ha
        split at h
        · cases h
        · rename_i hcheck
          refine ⟨setting, registry, access, hs, hr, ha, hcheck, ?_⟩
          split at h
          · rename_i h3
            exact .inl ⟨h3, h⟩
          · rename_i h3
            cases h
            exact .inr ⟨by omega, rfl⟩
      · cases h
  · cases h

/-- The setting database is new, has been archived or is the current one. -/
theorem initialize_ok (h : initializeConfig p = (p', .ok ())) : ∃ q,
    opened (createFiles q) = (p', .ok ()) ∧ q.registry = p.registry ∧ q.access = p.access ∧
      (CurrentSetting q.setting ↔ CurrentSetting p.setting) := by
  unfold initializeConfig at h
  split at h
  · cases h
  · exact ⟨p, h, rfl, rfl, .rfl⟩
  · rename_i previous hs
    split at h
    · rename_i hold
      refine ⟨_, h, rfl, rfl, ?_⟩
      constructor
      · rintro ⟨d, hd, -⟩
        cases hd
      · rintro ⟨d, hd, hversion⟩
        rw [hs] at hd
        cases hd
        omega
    · split at h
      · cases h
      · exact ⟨p, h, rfl, rfl, .rfl⟩

theorem Kept.database {f : File V} {d d' : Database V} (hf : f.created = .database d)
    (h : d.Extends d') : f.Kept (.database d') := by
  cases f with
  | absent => trivial
  | irregular => trivial
  | database d₀ =>
      cases hf
      exact ⟨d', rfl, h⟩

theorem currentSetting_created {f : File V} (hf : f.created = .database setting) :
    CurrentSetting f ↔ setting.version = 3 := by
  cases f with
  | absent =>
      cases hf
      constructor
      · rintro ⟨d, hd, -⟩
        cases hd
      · intro h
        cases h
  | irregular => cases hf
  | database d =>
      cases hf
      exact ⟨fun ⟨d, hd, h⟩ => by cases hd; exact h, fun h => ⟨_, rfl, h⟩⟩

theorem oldRegistry_created {f : File V} (hf : f.created = .database registry) :
    OldRegistry f ↔ ∃ t, registry.table "package" = some t ∧
      "signer_leaf_fingerprint_sha256" ∉ t.columns := by
  cases f with
  | absent =>
      cases hf
      constructor
      · rintro ⟨d, t, hd, -⟩
        cases hd
      · rintro ⟨t, ht, -⟩
        cases ht
  | irregular => cases hf
  | database d =>
      cases hf
      exact ⟨fun ⟨d, t, hd, h⟩ => by cases hd; exact ⟨t, h⟩, fun ⟨t, h⟩ => ⟨_, t, rfl, h⟩⟩

theorem known_evidence {f : File V} (hk : Known f) (hf : f.created = .database registry)
    {t : Table V} (ht : registry.table "package" = some t)
    (hsigned : "signer_leaf_fingerprint_sha256" ∈ t.columns) :
    HasEvidence registry ∧ registry.version = 4 := by
  cases hk with
  | absent => cases hf; cases ht
  | irregular => cases hf
  | empty hnone =>
      cases hf
      rw [hnone] at ht
      cases ht
  | old ht' hcolumns =>
      cases hf
      rw [ht'] at ht
      cases ht
      exact absurd hsigned (hcolumns _ (by decide))
  | current hevidence hversion =>
      cases hf
      exact ⟨hevidence, hversion⟩

theorem upgrade_initialized {q : Profile V} (hk : Known p.registry)
    (hs : q.setting = .database setting) (hr : p.registry.created = .database registry)
    (ha : p.access.created = .database access) (hqr : q.registry = .database registry)
    (hqa : q.access = .database access) (hversion : setting.version = 3)
    (hcheck : [setting.check, registry.check, access.check].find? (fun check => check != "ok") = none)
    (h : upgrade q setting registry access = (p', .ok ())) : Initialized p p' := by
  unfold upgrade at h
  split at h
  · cases h
  · rename_i htables
    rw [Bool.not_eq_false, Bool.and_eq_true, Bool.and_eq_true, hasTables_iff, hasTables_iff,
      hasTables_iff] at htables
    obtain ⟨⟨hsetting, hregistry⟩, haccess⟩ := htables
    have hready {r : Database V} (hextends : registry.Extends r) (hc : r.check = registry.check) :
        Ready { q with registry := .database r } setting r access := by
      refine ⟨hs, rfl, hqa, hversion, by rw [hc]; exact hcheck, hsetting, fun e he => ?_, haccess⟩
      obtain ⟨t, ht⟩ := hregistry e he
      obtain ⟨t', ht', -⟩ := hextends e.1 t ht
      exact ⟨t', ht'⟩
    have hinitialized {r : Database V} (hextends : registry.Extends r)
        (hc : r.check = registry.check) (he : HasEvidence r) (h4 : r.version = 4) :
        Initialized p { q with registry := .database r } := by
      refine ⟨⟨setting, r, access, hready hextends hc, he, h4⟩, Kept.database hr hextends, ?_,
        initialize_ready (hready hextends hc) he⟩
      rw [hqa]
      exact Kept.database ha (.refl access)
    split at h
    · rename_i hsigned
      cases h
      obtain ⟨t, ht, hmem⟩ := hasSigningEvidence_iff.mp hsigned
      obtain ⟨he, h4⟩ := known_evidence hk hr ht hmem
      have hsame := hinitialized (.refl registry) rfl he h4
      rwa [← hqr] at hsame
    · split at h
      · cases h
      · rename_i r hadd
        cases h
        obtain ⟨hextends, he, h4, hc⟩ := addSigningEvidence_ok hadd
        exact hinitialized hextends hc he h4

theorem fresh_evidence (hk : Known p.registry) (hr : p.registry.created = .database registry) :
    HasEvidence (registry.createAll registryTables) ↔ ¬OldRegistry p.registry := by
  rw [oldRegistry_created hr]
  constructor
  · rintro ⟨t, ht, hcolumns⟩ ⟨t₀, ht₀, hunsigned⟩
    rw [Database.table_createAll_of_some registryTables ht₀] at ht
    cases ht
    exact hunsigned (hcolumns _ (by decide))
  · intro hnew
    cases ht : registry.table "package" with
    | none =>
        have hcreated := @Database.table_create_self _ _ _ (packageColumns ++ evidenceColumns) ht
        refine ⟨_, Database.table_createAll_of_some registryTables.tail hcreated, ?_⟩
        exact fun column hc => List.mem_append_right _ hc
    | some t =>
        have hsigned : "signer_leaf_fingerprint_sha256" ∈ t.columns := by
          by_contra hunsigned
          exact hnew ⟨t, ht, hunsigned⟩
        obtain ⟨t', ht', hcolumns⟩ := (known_evidence hk hr ht hsigned).1
        exact ⟨t', Database.table_createAll_of_some registryTables ht', hcolumns⟩

theorem fresh_initialized_iff {q : Profile V} (hk : Known p.registry)
    (hr : p.registry.created = .database registry) (ha : p.access.created = .database access)
    (hcheck : [setting.check, registry.check, access.check].find? (fun check => check != "ok") = none) :
    Initialized p (fresh q setting registry access) ↔ ¬OldRegistry p.registry := by
  have hready : Ready (fresh q setting registry access)
      ((setting.createAll settingTables).setVersion 3)
      ((registry.createAll registryTables).setVersion 4) (access.createAll accessTables) := by
    refine ⟨rfl, rfl, rfl, rfl, ?_, ?_, ?_, ?_⟩
    · have hs := Database.check_createAll (d := setting) settingTables
      have hr := Database.check_createAll (d := registry) registryTables
      have ha := Database.check_createAll (d := access) accessTables
      rw [ha]
      exact hs.symm ▸ hr.symm ▸ hcheck
    · exact fun e he => Database.table_createAll_of_mem he
    · exact fun e he => Database.table_createAll_of_mem he
    · exact fun e he => Database.table_createAll_of_mem he
  rw [← fresh_evidence hk hr]
  constructor
  · intro h
    obtain ⟨s, r, a, hcurrent, he, -⟩ := h.current
    have hfile := hcurrent.registry_eq
    cases hfile
    exact he
  · intro he
    refine ⟨⟨_, _, _, hready, he, rfl⟩, ?_, ?_, initialize_ready hready he⟩
    · exact Kept.database hr (Database.extends_createAll registryTables)
    · exact Kept.database ha (Database.extends_createAll accessTables)

/-- A successful initialization reaches the current schema unless it starts a new setting
database next to a registry without the evidence columns. -/
theorem initialized_iff (hk : Known p.registry) (h : initializeConfig p = (p', .ok ())) :
    Initialized p p' ↔ (CurrentSetting p.setting ∨ ¬OldRegistry p.registry) := by
  obtain ⟨q, hopened, hqr, hqa, hcurrent⟩ := initialize_ok h
  obtain ⟨setting, registry, access, hs, hr, ha, hcheck, ⟨hversion, hupgrade⟩ | ⟨hversion, rfl⟩⟩ :=
    opened_ok hopened
  · have hthree := hcurrent.mp ((currentSetting_created hs).mpr hversion)
    refine iff_of_true ?_ (.inl hthree)
    exact upgrade_initialized hk hs (hqr ▸ hr) (hqa ▸ ha) hr ha hversion hcheck hupgrade
  · have hnew : ¬CurrentSetting p.setting := by
      intro hthree
      have := (currentSetting_created hs).mp (hcurrent.mpr hthree)
      omega
    rw [fresh_initialized_iff hk (hqr ▸ hr) (hqa ▸ ha) hcheck]
    exact ⟨.inr, fun hor => hor.resolve_left hnew⟩

end

/-- A registry of schema v3 with one package. -/
def oldRegistry : Database String where
  version := 3
  tables := [("package", ⟨packageColumns, [[some "mail", some "example", some "1.0.0", none, none,
      none, none, some "5", some "5", some "1", some "0"]], by simp [packageColumns]⟩),
    ("package_dependency", .blank ["package_name", "dependency_name", "version"])]
  check := "ok"

theorem known_oldRegistry : Known (.database oldRegistry) :=
  .old (t := ⟨packageColumns, _, _⟩) rfl (by decide)

/-- The setting database is of version 2 and is archived. -/
def archivedSetting : Profile String where
  setting := .database (Database.empty.setVersion 2)
  registry := .database oldRegistry
  access := .absent
  archived := []

theorem old_registry_left_behind : ¬∀ p p' : Profile String, Known p.registry →
    initializeConfig p = (p', .ok ()) → Initialized p p' := by
  intro h
  obtain ⟨p', hp'⟩ : ∃ p', initializeConfig archivedSetting = (p', .ok ()) := ⟨_, rfl⟩
  have hinitialized := h archivedSetting p' known_oldRegistry hp'
  obtain ⟨setting, registry, access, hready, ⟨t, ht, hcolumns⟩, -⟩ := hinitialized.current
  have hregistry := hready.registry_eq
  cases hp'
  cases hregistry
  cases ht
  exact absurd (hcolumns "package_sha256" (by decide)) (by decide)

/-- The setting database is current and the registry is upgraded. -/
def currentSetting : Profile String where
  setting := .database ((Database.empty.createAll settingTables).setVersion 3)
  registry := .database oldRegistry
  access := .database (Database.empty.createAll accessTables)
  archived := []

theorem initialized_upgrade : ∃ p', initializeConfig currentSetting = (p', .ok ()) ∧
    Initialized currentSetting p' := by
  obtain ⟨p', hp'⟩ : ∃ p', initializeConfig currentSetting = (p', .ok ()) := ⟨_, rfl⟩
  exact ⟨p', hp', (initialized_iff known_oldRegistry hp').mpr (.inl ⟨_, rfl, rfl⟩)⟩

end Pishoo.Configuration
