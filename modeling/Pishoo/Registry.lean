import Mathlib.Data.List.DropRight
import Mathlib.Data.List.Sort
import Mathlib.Data.String.Basic
import Pishoo.Rows
import Pishoo.Result
import Pishoo.PackageId

namespace Pishoo

open Result

/-- A row of `package`. -/
structure Package where
  name : String
  author : Option String
  version : String
  title : Option String
  description : Option String
  license : Option String
  repository : Option String
  installedAt : Option Int
  upgradedAt : Option Int
  hasLib : Bool
  hasApp : Bool
  authorOwnerHash : Option String
  packageSha256 : Option String
  signerLeafFingerprintSha256 : Option String
  deriving DecidableEq

def Package.id (p : Package) : Id := ⟨p.author, p.name⟩

structure PackageDependency where
  packageName : String
  dependencyName : String
  version : String
  deriving DecidableEq

structure LibCapability where
  libName : String
  capabilityId : String
  title : String
  deriving DecidableEq

structure LibCapabilityOperation where
  libName : String
  capabilityId : String
  method : String
  path : String
  deriving DecidableEq

def PackageDependency.key (d : PackageDependency) : String × String :=
  (d.packageName, d.dependencyName)

def LibCapability.key (c : LibCapability) : String × String := (c.libName, c.capabilityId)

def LibCapabilityOperation.parent (o : LibCapabilityOperation) : String × String :=
  (o.libName, o.capabilityId)

def LibCapabilityOperation.route (o : LibCapabilityOperation) : String × String :=
  (o.method, o.path)

/-- `trim`, which takes only spaces away. -/
def sqlTrim (text : List Char) : List Char := (text.dropWhile (· == ' ')).rdropWhile (· == ' ')

/-- `length`, which stops at the first NUL character. -/
def sqlLength (text : List Char) : Nat := (text.takeWhile (· != '\x00')).length

def LibCapability.checks (c : LibCapability) : Bool :=
  decide (0 < sqlLength c.capabilityId.toList) && decide (0 < sqlLength (sqlTrim c.title.toList))

def LibCapabilityOperation.checks (o : LibCapabilityOperation) : Bool :=
  decide (0 < sqlLength o.method.toList) && o.method.toList.all (fun ch => !lowercase ch) &&
    o.path.toList.head? == some '/' && decide (1 < sqlLength o.path.toList)

structure Tables where
  packages : List Package
  dependencies : List PackageDependency
  capabilities : List LibCapability
  operations : List LibCapabilityOperation

/-- The constraints of the four tables, foreign keys included. -/
structure Tables.Valid (t : Tables) : Prop where
  names : (t.packages.map Package.name).Nodup
  contents : ∀ p ∈ t.packages, p.hasLib = true ∨ p.hasApp = true
  edges : (t.dependencies.map PackageDependency.key).Nodup
  loops : ∀ d ∈ t.dependencies, d.packageName ≠ d.dependencyName
  sources : ∀ d ∈ t.dependencies, d.packageName ∈ t.packages.map Package.name
  targets : ∀ d ∈ t.dependencies, d.dependencyName ∈ t.packages.map Package.name
  capabilityKeys : (t.capabilities.map LibCapability.key).Nodup
  capabilityChecks : ∀ c ∈ t.capabilities, c.checks = true
  operationKeys : (t.operations.map LibCapabilityOperation.route).Nodup
  operationChecks : ∀ o ∈ t.operations, o.checks = true
  parents : ∀ o ∈ t.operations, o.parent ∈ t.capabilities.map LibCapability.key

instance (t : Tables) : Decidable t.Valid :=
  decidable_of_iff ((t.packages.map Package.name).Nodup ∧
      (∀ p ∈ t.packages, p.hasLib = true ∨ p.hasApp = true) ∧
      (t.dependencies.map PackageDependency.key).Nodup ∧
      (∀ d ∈ t.dependencies, d.packageName ≠ d.dependencyName) ∧
      (∀ d ∈ t.dependencies, d.packageName ∈ t.packages.map Package.name) ∧
      (∀ d ∈ t.dependencies, d.dependencyName ∈ t.packages.map Package.name) ∧
      (t.capabilities.map LibCapability.key).Nodup ∧ (∀ c ∈ t.capabilities, c.checks = true) ∧
      (t.operations.map LibCapabilityOperation.route).Nodup ∧
      (∀ o ∈ t.operations, o.checks = true) ∧
      ∀ o ∈ t.operations, o.parent ∈ t.capabilities.map LibCapability.key)
    ⟨fun ⟨a, b, c, d, e, f, g, h, i, j, k⟩ => ⟨a, b, c, d, e, f, g, h, i, j, k⟩,
      fun ⟨a, b, c, d, e, f, g, h, i, j, k⟩ => ⟨a, b, c, d, e, f, g, h, i, j, k⟩⟩

/-- The package registry and the capability declarations of one identity. -/
structure Registry extends Tables where
  valid : toTables.Valid

namespace Registry

def empty : Registry := ⟨⟨[], [], [], []⟩, by constructor <;> simp⟩

def constraintFailed : Error := .configDatabase "constraint failed"

def stored (t : Tables) : Except Error Registry :=
  if h : t.Valid then .ok ⟨t, h⟩ else .error constraintFailed

theorem stored_ok {t : Tables} {r : Registry} (h : stored t = .ok r) : r.toTables = t := by
  unfold stored at h
  split at h <;> cases h
  rfl

def package (r : Registry) (name : String) : Option Package :=
  Rows.select Package.name r.packages name

def registered (r : Registry) (id : Id) : Option Package := r.packages.find? (fun p => p.id == id)

theorem package_eq_some {r : Registry} {name : String} {p : Package} :
    r.package name = some p ↔ p ∈ r.packages ∧ p.name = name :=
  Rows.select_eq_some r.valid.names

theorem package_eq_none {r : Registry} {name : String} :
    r.package name = none ↔ name ∉ r.packages.map Package.name := by
  simp [package, Rows.select_eq_none]

theorem registered_eq_some {r : Registry} {id : Id} {p : Package} :
    r.registered id = some p ↔ r.package id.name = some p ∧ p.author = id.author := by
  rw [package_eq_some]
  constructor
  · intro h
    have hid : p.id = id := by simpa using List.find?_some h
    exact ⟨⟨List.mem_of_find?_eq_some h, congrArg Id.name hid⟩, congrArg Id.author hid⟩
  · rintro ⟨⟨hm, hn⟩, ha⟩
    have hid : p.id = id := by
      rw [Package.id, hn, ha]
    cases hq : r.registered id with
    | none =>
        rw [registered, List.find?_eq_none] at hq
        exact absurd hid (by simpa using hq p hm)
    | some q =>
        have hqid : q.id = id := by simpa using List.find?_some hq
        have hnames : q.name = p.name := (congrArg Id.name hqid).trans hn.symm
        rw [List.inj_on_of_nodup_map r.valid.names (List.mem_of_find?_eq_some hq) hm hnames]

/-- `ON CONFLICT(name) DO UPDATE SET …, upgraded_at=unixepoch()`. -/
def upgrade (row : Package) (now : Int) (old : Package) : Package :=
  { row with name := old.name, installedAt := old.installedAt, upgradedAt := some now }

def fresh (row : Package) (now : Int) : Package :=
  { row with installedAt := some now, upgradedAt := none }

def upsertPackage (r : Registry) (row : Package) (now : Int) : Except Error Registry :=
  stored { r.toTables with
    packages := match r.package row.name with
      | none => r.packages ++ [fresh row now]
      | some _ => Rows.updateWhere (fun p => p.name == row.name) (upgrade row now) r.packages }

def deletePackage (r : Registry) (name : String) : Except Error Registry :=
  stored { r.toTables with
    packages := Rows.deleteWhere (fun p => p.name == name) r.packages
    dependencies := Rows.deleteWhere (fun d => d.packageName == name) r.dependencies }

def deleteDependencies (r : Registry) (name : String) : Except Error Registry :=
  stored { r.toTables with
    dependencies := Rows.deleteWhere (fun d => d.packageName == name) r.dependencies }

def insertDependency (r : Registry) (d : PackageDependency) : Except Error Registry :=
  stored { r.toTables with dependencies := r.dependencies ++ [d] }

def deleteCapabilities (r : Registry) (name : String) : Except Error Registry :=
  stored { r.toTables with
    capabilities := Rows.deleteWhere (fun c => c.libName == name) r.capabilities
    operations := Rows.deleteWhere (fun o => o.libName == name) r.operations }

def insertCapability (r : Registry) (c : LibCapability) : Except Error Registry :=
  stored { r.toTables with capabilities := r.capabilities ++ [c] }

def insertOperation (r : Registry) (o : LibCapabilityOperation) : Except Error Registry :=
  stored { r.toTables with operations := r.operations ++ [o] }

section

variable {r r' : Registry}

theorem package_congr (h : r'.packages = r.packages) (name : String) :
    r'.package name = r.package name := by
  rw [package, h]
  rfl

theorem upsertPackage_package {row : Package} {now : Int} (h : r.upsertPackage row now = .ok r')
    (name : String) : r'.package name = if name = row.name then
      some ((r.package row.name).elim (fresh row now) (upgrade row now)) else r.package name := by
  have ht := stored_ok h
  rw [package, ht]
  cases hp : r.package row.name with
  | none =>
      simp only [Rows.select_append]
      by_cases hn : name = row.name
      · subst hn
        have hnone : Rows.select Package.name r.packages row.name = none := hp
        have hnew : Rows.select Package.name [fresh row now] row.name = some (fresh row now) := by
          simp [Rows.select, fresh]
        rw [hnone, hnew, if_pos rfl]
        rfl
      · have hne : Rows.select Package.name [fresh row now] name = none := by
          rw [Rows.select_eq_none]
          simpa [fresh] using fun h => hn h.symm
        rw [hne, Option.or_none, if_neg hn]
        rfl
  | some p =>
      have hname : ∀ q, (upgrade row now q).name = q.name := fun _ => rfl
      have hsel : Rows.select Package.name
          (Rows.updateWhere (fun p => p.name == row.name) (upgrade row now) r.packages) name = _ :=
        Rows.select_updateWhere _ _ hname name
      simp only [hsel]
      by_cases hn : name = row.name
      · subst hn
        rw [package] at hp
        have hpn : p.name = row.name := Rows.key_of_select hp
        simp [hp, hpn]
      · rw [if_neg hn]
        cases hq : r.package name with
        | none =>
            rw [package] at hq
            rw [hq]
            rfl
        | some q =>
            have hqn := (package_eq_some.mp hq).2
            rw [package] at hq
            simp [hq, hqn, hn]

theorem upsertPackage_rest {row : Package} {now : Int} (h : r.upsertPackage row now = .ok r') :
    r'.dependencies = r.dependencies ∧ r'.capabilities = r.capabilities ∧
      r'.operations = r.operations := by
  rw [stored_ok h]
  exact ⟨rfl, rfl, rfl⟩

theorem deletePackage_package {name : String} (h : r.deletePackage name = .ok r') (other : String) :
    r'.package other = if other = name then none else r.package other := by
  rw [package, stored_ok h]
  exact Rows.select_deleteWhere_key name other

theorem deletePackage_dependencies {name : String} (h : r.deletePackage name = .ok r') :
    r'.dependencies = Rows.deleteWhere (fun d => d.packageName == name) r.dependencies := by
  rw [stored_ok h]

theorem deleteDependencies_eq {name : String} (h : r.deleteDependencies name = .ok r') :
    r'.packages = r.packages ∧
      r'.dependencies = Rows.deleteWhere (fun d => d.packageName == name) r.dependencies ∧
      r'.capabilities = r.capabilities ∧ r'.operations = r.operations := by
  rw [stored_ok h]
  exact ⟨rfl, rfl, rfl, rfl⟩

theorem insertDependency_eq {d : PackageDependency} (h : r.insertDependency d = .ok r') :
    r'.packages = r.packages ∧ r'.dependencies = r.dependencies ++ [d] ∧
      r'.capabilities = r.capabilities ∧ r'.operations = r.operations := by
  rw [stored_ok h]
  exact ⟨rfl, rfl, rfl, rfl⟩

theorem deleteCapabilities_eq {name : String} (h : r.deleteCapabilities name = .ok r') :
    r'.packages = r.packages ∧ r'.dependencies = r.dependencies ∧
      r'.capabilities = Rows.deleteWhere (fun c => c.libName == name) r.capabilities ∧
      r'.operations = Rows.deleteWhere (fun o => o.libName == name) r.operations := by
  rw [stored_ok h]
  exact ⟨rfl, rfl, rfl, rfl⟩

theorem insertCapability_eq {c : LibCapability} (h : r.insertCapability c = .ok r') :
    r'.packages = r.packages ∧ r'.dependencies = r.dependencies ∧
      r'.capabilities = r.capabilities ++ [c] ∧ r'.operations = r.operations := by
  rw [stored_ok h]
  exact ⟨rfl, rfl, rfl, rfl⟩

theorem insertOperation_eq {o : LibCapabilityOperation} (h : r.insertOperation o = .ok r') :
    r'.packages = r.packages ∧ r'.dependencies = r.dependencies ∧
      r'.capabilities = r.capabilities ∧ r'.operations = r.operations ++ [o] := by
  rw [stored_ok h]
  exact ⟨rfl, rfl, rfl, rfl⟩

end

end Registry

/-- A value that SQLite writes into a JSON array. -/
inductive SqlValue
  | null
  | integer (n : Int)
  | text (s : String)
  deriving DecidableEq

namespace SqlValue

def ofInt : Option Int → SqlValue
  | none => null
  | some n => integer n

def ofText : Option String → SqlValue
  | none => null
  | some s => text s

def ofBool (b : Bool) : SqlValue := integer (if b then 1 else 0)

end SqlValue

/-- The JSON object of `registration_facts.sql`. -/
structure Facts where
  package : Option (List SqlValue)
  dependencies : List (String × String)
  capabilities : List (String × String)
  operations : List (String × String × String)
  deriving DecidableEq

namespace Facts

open SqlValue

/-- The eleven columns of the v3 projection. -/
def rowV3 (p : Package) : List SqlValue :=
  [text p.name, ofText p.author, text p.version, ofText p.title, ofText p.description,
    ofText p.license, ofText p.repository, ofInt p.installedAt, ofInt p.upgradedAt,
    ofBool p.hasLib, ofBool p.hasApp]

def row (p : Package) : List SqlValue :=
  rowV3 p ++ [ofText p.authorOwnerHash, ofText p.packageSha256, ofText p.signerLeafFingerprintSha256]

def sortedBy {α : Type} (key : α → List String) (rows : List α) : List α :=
  rows.insertionSort (fun a b => key a ≤ key b)

def dependencyFacts (rows : List PackageDependency) : List (String × String) :=
  (sortedBy (fun d => [d.dependencyName]) rows).map (fun d => (d.dependencyName, d.version))

def capabilityFacts (rows : List LibCapability) : List (String × String) :=
  (sortedBy (fun c => [c.capabilityId]) rows).map (fun c => (c.capabilityId, c.title))

def operationFacts (rows : List LibCapabilityOperation) : List (String × String × String) :=
  (sortedBy (fun o => [o.capabilityId, o.method, o.path]) rows).map
    (fun o => (o.capabilityId, o.method, o.path))

end Facts

def factsWith (row : Package → List SqlValue) (r : Registry) (name : String) : Facts where
  package := (r.package name).map row
  dependencies := Facts.dependencyFacts (r.dependencies.filter (fun d => d.packageName == name))
  capabilities := Facts.capabilityFacts (r.capabilities.filter (fun c => c.libName == name))
  operations := Facts.operationFacts (r.operations.filter (fun o => o.libName == name))

def registrationFacts : Registry → String → Facts := factsWith Facts.row

def registrationFactsV3 : Registry → String → Facts := factsWith Facts.rowV3

/-- Facts of a journal are also compared with the projection of the previous schema. -/
def matchesFacts (r : Registry) (name : String) (facts : Facts) : Bool :=
  facts == registrationFacts r name || facts == registrationFactsV3 r name

end Pishoo
