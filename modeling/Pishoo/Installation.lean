import Pishoo.CommitOutcome

namespace Pishoo.Installation

open Result World Prog PackageFiles Registration

variable {γ : Type}

/-- What the calls use besides their arguments: `dhttp_home::normalize_name`, the length of a
serialized journal, the files of a release, and the version that `Lib::load` finds in a component. -/
structure Installer (γ : Type) where
  normalizeName : String → Option String
  size : List JournalEntry → Nat
  contents : Release → Kind → γ
  libVersion : γ → String

def migrate : Op γ Unit :=
  change fun w => match migrateRegistration w.db.registry with
    | .ok r => .ok { w with db := { w.db with registry := r } }
    | .error e => .error (.of e)

/-- `installation_database`, which migrates the registry in a transaction of its own. -/
def openDatabase : Op γ Unit := do
  sync
  migrate
  sync

def stageKind (inst : Installer γ) (n : String) (rel : Release) (kind : Kind) : Op γ Unit :=
  doIf (rel.has kind) do
    writeNew n rel.id.name kind (inst.contents rel kind)
    sync

def stagePackage (inst : Installer γ) (n : String) (rel : Release) : Op γ Unit := do
  makeMember n rel.id.name
  forEach [Kind.lib, Kind.app] (stageKind inst n rel)
  sync

/-- The releases of which the rows speak when a batch has been registered. -/
def installedReleases (changed : List Release) (releases : String → Option Release)
    (name : String) : Option Release :=
  (changed.find? fun rel => rel.id.name == name).or (releases name)

def entriesOf (changed : List Release) : List (Id × String) :=
  changed.map fun rel => (rel.id, rel.id.name)

/-- The maps after the changed packages have been replaced in them. -/
def switched (inst : Installer γ) (changed : List Release) (s : Sandbox) : Sandbox where
  libs id := match changed.find? (fun rel => rel.id == id) with
    | some rel => if rel.hasLib then some (inst.libVersion (inst.contents rel .lib)) else none
    | none => s.libs id
  apps id := match changed.find? (fun rel => rel.id == id) with
    | some rel => if rel.hasApp then some rel.version else none
    | none => s.apps id
  closed := s.closed

/-- `n` is the name of the staging directory. -/
def installPackages (inst : Installer γ) (items : List Item) (now : String → Int) (n : String) :
    Op γ Unit := do
  let w ← get
  ofExcept ((acceptBatch w.sandbox items).mapError .of)
  openDatabase
  let w ← get
  let tx ← ofExcept ((installTx inst.normalizeName w.db.registry w.sandbox items now).mapError .of)
  makeStage n
  onError (do forEach tx.1 (stagePackage inst n); sync) (removeStage n)
  commitPackagesFiles inst.size (entriesOf tx.1) n
    ⟨tx.2, installedReleases tx.1 w.db.releases⟩
  modify fun w => { w with sandbox := switched inst tx.1 w.sandbox }

def removedReleases (id : Id) (releases : String → Option Release) (name : String) :
    Option Release :=
  if name = id.name then none else releases name

def referenced (r : Registry) (id : Id) : Bool :=
  r.dependencies.any fun d => d.dependencyName == id.name

def removeRegistered (inst : Installer γ) (id : Id) (n : String) (db : Database) : Op γ Unit := do
  makeStage n
  sync
  doIf (referenced db.registry id) (removeStage n)
  let r ← ofExcept ((removeTx db.registry id).mapError .of)
  commitPackagesFiles inst.size [(id, "")] n ⟨r, removedReleases id db.releases⟩

def removePackage (inst : Installer γ) (id : Id) (n : String) : Op γ Unit := do
  ofExcept ((validId inst.normalizeName id).mapError .of)
  openDatabase
  let w ← get
  doIf (w.db.registry.registered id).isSome (removeRegistered inst id n w.db)

/-- Without its library and its frontend. -/
def Sandbox.without (s : Sandbox) (id : Id) : Sandbox where
  libs := Function.update s.libs id none
  apps := Function.update s.apps id none
  closed := s.closed

def removeLoaded (inst : Installer γ) (name : String) (n : String) (id : Id) : Op γ Unit := do
  ofExcept ((validId inst.normalizeName id).mapError .of)
  ofExcept (failIf (id.name ≠ name) (.of (.invalidConfig "invalid installed package name")))
  removePackage inst id n
  modify fun w => { w with sandbox := Sandbox.without w.sandbox id }

/-- The DELETE branch of `pkg_management_request`. `expected` is the identity that the client has
seen. -/
def pkgManagementRequest (inst : Installer γ) (name : String) (expected : Option String)
    (n : String) : Op γ Unit := do
  sync
  let w ← get
  let registered := (w.db.registry.package name).map Package.id
  ofExcept (failIf (expected ≠ none ∧ registered.map Id.text ≠ expected) (.of (.invalidInput
    "installed package identity changed; query the catalog before removing")))
  ofExcept (failIf (w.sandbox.closed = true) (.of .denied))
  match registered with
  | none => pure ()
  | some id => removeLoaded inst name n id

/-- An installer for the sample releases, whose files are their versions. -/
def sampleInstaller : Installer String where
  normalizeName := some
  size packages := 512 * packages.length
  contents rel _ := rel.version
  libVersion c := c

def emptyWorld : World String where
  db := ⟨.empty, fun _ => none⟩
  runtime := fun _ => none
  roots := fun _ => false
  stages := fun _ => none
  sandbox := .empty

end Pishoo.Installation
