import Pishoo.Digraph
import Pishoo.Registry

namespace Pishoo

open Result

inductive Kind
  | lib | app
  deriving DecidableEq, Repr

/-- An entry of the manifest's `dependencies`. -/
structure Dependency where
  id : Id
  version : String
  deriving DecidableEq, Repr

/-- An operation of the validated OpenAPI document. Its paths begin with a slash. -/
structure Endpoint where
  method : String
  path : String
  rooted : path.toList.head? = some '/'

/-- A group of `capability_rows`. `app` says that its declaration asks for the app grant. -/
structure AccessGroup where
  id : String
  title : String
  endpoints : List Endpoint
  app : Bool

/-- The metadata of a verified package together with its signing evidence. -/
structure Release where
  id : Id
  version : String
  title : String
  description : String
  license : String
  repository : Option String
  dependencies : List Dependency
  hasLib : Bool
  hasApp : Bool
  authorOwnerHash : Option String
  packageSha256 : Option String
  signerLeafFingerprintSha256 : Option String
  groups : Except Error (List AccessGroup)

def Release.has (rel : Release) : Kind → Bool
  | .lib => rel.hasLib
  | .app => rel.hasApp

def Release.row (rel : Release) : Package where
  name := rel.id.name
  author := rel.id.author
  version := rel.version
  title := some rel.title
  description := some rel.description
  license := some rel.license
  repository := rel.repository
  installedAt := none
  upgradedAt := none
  hasLib := rel.hasLib
  hasApp := rel.hasApp
  authorOwnerHash := rel.authorOwnerHash
  packageSha256 := rel.packageSha256
  signerLeafFingerprintSha256 := rel.signerLeafFingerprintSha256

/-- The `_previous_release` proof of a package that was installed without signing evidence. -/
structure PreviousRelease where
  id : Id
  version : String
  purpose : String
  receipt : Except Error Unit
  authorOwnerHash : Option String

/-- One element of a batch: its id and what the checks of its bytes and its proof give. -/
structure Item where
  id : Id
  version : Option String
  evidence : Except Error Release
  previous : Option PreviousRelease
  routes : Kind → Except Error Unit

/-- The loaded libs and apps with their versions. -/
structure Sandbox where
  libs : Id → Option String
  apps : Id → Option String
  closed : Bool

def Sandbox.empty : Sandbox := ⟨fun _ => none, fun _ => none, false⟩

namespace Registration

open Registry

def conflict (message : String) : Error := .invalidInput message

def checkName (r : Registry) (id : Id) : Except Error Unit :=
  match r.package id.name with
  | none => .ok ()
  | some p => failIf (p.id ≠ id)
      (conflict s!"name is already installed as {p.id.text}; cannot install {id.text}")

def checkOwner (r : Registry) (rel : Release) : Except Error Unit :=
  failIf (∃ p ∈ r.package rel.id.name, ∃ owner ∈ p.authorOwnerHash,
    rel.authorOwnerHash ≠ some owner) .publisherOwnershipConflict

/-- The installed packages that pin the release's name to another version. -/
def required (r : Registry) (rel : Release) : List PackageDependency :=
  r.dependencies.filter (fun d => d.dependencyName == rel.id.name && d.version != rel.version)

def requiredMessage (r : Registry) (rel : Release) : String :=
  "package version is required by installed dependencies: " ++ "; ".intercalate
    ((Facts.sortedBy (fun d => [d.packageName]) (required r rel)).filterMap (fun d =>
      (r.package d.packageName).map (fun p => s!"{p.id.text} requires {rel.id.text}@{d.version}")))

def checkRequired (r : Registry) (rel : Release) : Except Error Unit :=
  failIf (required r rel ≠ []) (conflict (requiredMessage r rel))

def edges (r : Registry) : List (String × String) := r.dependencies.map PackageDependency.key

def checkDependencyCycle (r : Registry) (id dependency : Id) : Except Error Unit :=
  failIf (Digraph.search (edges r) id.name [dependency.name] [] = true)
    (conflict s!"cyclic backend dependency involving {id.text}")

def installedAs (dep : Dependency) (p : Package) : Bool :=
  p.author == dep.id.author && p.name == dep.id.name && p.version == dep.version

def saveDependency (id : Id) (r : Registry) (dep : Dependency) : Except Error Registry := do
  failIf (r.packages.any (installedAs dep) = false)
    (conflict s!"dependency {dep.id.text}@{dep.version} is not installed")
  checkDependencyCycle r id dep.id
  r.insertDependency ⟨id.name, dep.id.name, dep.version⟩

structure GroupRow where
  id : String
  title : String
  endpoints : List (String × String)

def groupRow (rel : Release) (g : AccessGroup) : Except Error GroupRow := do
  failIf (g.app = true ∧ rel.hasApp = false)
    (.invalidComponent "app capability requires this package's public resources")
  let place := if standard rel.id then "/std" else "/" ++ rel.id.name
  .ok ⟨g.id, g.title, g.endpoints.map (fun e => (e.method, place ++ e.path)) ++
    if g.app then [("GET", "/app/" ++ rel.id.name)] else []⟩

def groupRows (rel : Release) : Except Error (List GroupRow) :=
  if rel.hasLib then do
    let groups ← rel.groups
    groups.mapM (groupRow rel)
  else .ok []

def saveGroup (name : String) (r : Registry) (g : GroupRow) : Except Error Registry := do
  let r ← r.insertCapability ⟨name, g.id, g.title⟩
  g.endpoints.foldlM (fun r e => r.insertOperation ⟨name, g.id, e.1, e.2⟩) r

def permissions (r : Registry) (name : String) (groups : List GroupRow) : Except Error Registry := do
  let r ← r.deleteCapabilities name
  groups.foldlM (saveGroup name) r

/-- `now` is the reading of `unixepoch()` in the statement that writes the row. -/
def saveRegistration (r : Registry) (rel : Release) (now : Int) : Except Error Registry := do
  checkName r rel.id
  checkOwner r rel
  checkRequired r rel
  let r ← r.upsertPackage rel.row now
  let r ← r.deleteDependencies rel.id.name
  let r ← rel.dependencies.foldlM (saveDependency rel.id) r
  let groups ← groupRows rel
  permissions r rel.id.name groups

def saveAt (now : String → Int) (r : Registry) (rel : Release) : Except Error Registry :=
  saveRegistration r rel (now rel.id.name)

/-- All outgoing edges of the changed packages go before the first of them is registered. -/
def saveAll (r : Registry) (changed : List Release) (now : String → Int) : Except Error Registry := do
  let r ← changed.foldlM (fun r rel => r.deleteDependencies rel.id.name) r
  changed.foldlM (saveAt now) r

def previousOwner (current : Package) (item : Item) : Except Error (Option String) :=
  match item.previous with
  | none => .error .publisherOwnershipConflict
  | some previous => do
      failIf (previous.id ≠ item.id ∨ previous.version ≠ current.version ∨
        previous.purpose ≠ "code_signing") .publisherOwnershipConflict
      previous.receipt
      .ok previous.authorOwnerHash

def checkCurrent (current : Package) (item : Item) (rel : Release) : Except Error Unit := do
  let owner ← (match current.authorOwnerHash with
    | none => previousOwner current item
    | some owner => .ok (some owner))
  failIf (owner ≠ rel.authorOwnerHash) .publisherOwnershipConflict
  failIf (current.version = rel.version ∧ current.packageSha256 ≠ none ∧
    current.packageSha256 ≠ rel.packageSha256) (.packagePolicy "package_version_conflict" 409)

def checkInstalled (r : Registry) (item : Item) (rel : Release) : Except Error Unit :=
  match r.registered item.id with
  | none => .ok ()
  | some current => checkCurrent current item rel

/-- The member is registered and loaded already, so it is left as it is. -/
def reused (sandbox : Sandbox) (current : Package) (rel : Release) : Bool :=
  current.version == rel.version && current.packageSha256 == rel.packageSha256 &&
    current.signerLeafFingerprintSha256 == rel.signerLeafFingerprintSha256 &&
    current.hasLib == rel.hasLib && current.hasApp == rel.hasApp &&
    (!rel.hasLib || sandbox.libs rel.id == some rel.version) &&
    (!rel.hasApp || sandbox.apps rel.id == some rel.version)

/-- The checks of one batch element. It gives nothing for a member that is left as it is. -/
def examine (normalizeName : String → Option String) (r : Registry) (sandbox : Sandbox)
    (seen : List String) (last : Bool) (item : Item) : Except Error (Option Release) := do
  validId normalizeName item.id
  failIf (item.id.name = "std" ∨ item.id.name ∈ seen)
    (.badRequest "reserved or duplicate package name")
  failIf (item.id.author = none) (.packagePolicy "signing_identity_mismatch" 403)
  failIf (item.version = none) .packagePolicyUpgradeRequired
  let rel ← item.evidence
  failIf (rel.id ≠ item.id) (.invalidComponent "Lib ID and manifest identity disagree")
  checkName r item.id
  checkInstalled r item rel
  if !last && (r.registered item.id).any (fun current => reused sandbox current rel) then .ok none
  else do
    doIf (rel.hasLib = true) (item.routes .lib)
    doIf (rel.hasApp = true) (item.routes .app)
    .ok (some rel)

/-- The changed members of a batch, in order. -/
def examineAll (normalizeName : String → Option String) (r : Registry) (sandbox : Sandbox) :
    List String → List Item → Except Error (List Release)
  | _, [] => .ok []
  | seen, item :: items => do
      let rel ← examine normalizeName r sandbox seen items.isEmpty item
      let rels ← examineAll normalizeName r sandbox (item.id.name :: seen) items
      .ok (rel.toList ++ rels)

def acceptBatch (sandbox : Sandbox) (items : List Item) : Except Error Unit := do
  failIf (items = [] ∨ 100 < items.length) (.badRequest "installation requires 1 to 100 packages")
  failIf (sandbox.closed = true) .denied

/-- The transaction of `install_packages` up to its file operations. -/
def installTx (normalizeName : String → Option String) (r : Registry) (sandbox : Sandbox)
    (items : List Item) (now : String → Int) : Except Error (List Release × Registry) := do
  let changed ← examineAll normalizeName r sandbox [] items
  let r ← saveAll r changed now
  .ok (changed, r)

/-- The transaction of `remove_package` up to its file operations. -/
def removeTx (r : Registry) (id : Id) : Except Error Registry := do
  failIf (r.dependencies.any (fun d => d.dependencyName == id.name) = true)
    (conflict "package is required by installed dependencies")
  let r ← permissions r id.name []
  r.deletePackage id.name

/-- `substr(path,1,5)='/std/'` for an operation of a lib outside the standard publishers. -/
def misplaced (r : Registry) (o : LibCapabilityOperation) : Bool :=
  o.path.toList.take 5 == "/std/".toList &&
    r.packages.any (fun p => p.name == o.libName && p.hasLib && !p.author.any isStandardAuthor)

def replaced (o : LibCapabilityOperation) : LibCapabilityOperation :=
  { o with path := "/" ++ o.libName ++ String.ofList (o.path.toList.drop 4) }

def broken (r : Registry) (d : PackageDependency) : Bool :=
  r.packages.any (fun p => p.name == d.dependencyName && p.version != d.version)

/-- A transaction of its own, which every writer of the registry commits first. -/
def migrateRegistration (r : Registry) : Except Error Registry := do
  let r ← stored { r.toTables with
    operations := Rows.updateWhere (misplaced r) replaced r.operations }
  failIf (r.dependencies.any (broken r) = true) (.invalidConfig "broken exact package dependencies")
  .ok r

structure Transfer where
  name : String
  author : String
  owner : String

def transferred (t : Transfer) (p : Package) : Package :=
  { p with author := some t.author, authorOwnerHash := some t.owner }

def transferAuthor (r : Registry) (t : Transfer) : Except Error Registry :=
  stored { r.toTables with
    packages := Rows.updateWhere (fun p => p.name == t.name) (transferred t) r.packages }

/-- A signed library of one publisher without access groups. -/
def sampleRelease (name version : String) (dependencies : List (String × String)) : Release where
  id := ⟨some "alice.example", name⟩
  version := version
  title := name
  description := "A library"
  license := "MIT"
  repository := none
  dependencies := dependencies.map (fun d => ⟨⟨some "alice.example", d.1⟩, d.2⟩)
  hasLib := true
  hasApp := false
  authorOwnerHash := some "owner"
  packageSha256 := some version
  signerLeafFingerprintSha256 := some "leaf"
  groups := .ok []

def sampleItem (name version : String) (dependencies : List (String × String)) : Item where
  id := ⟨some "alice.example", name⟩
  version := some version
  evidence := .ok (sampleRelease name version dependencies)
  previous := none
  routes := fun _ => .ok ()

end Registration

end Pishoo
