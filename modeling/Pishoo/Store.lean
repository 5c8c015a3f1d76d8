import Pishoo.Registry

namespace Pishoo

open Result

/-- An exact package version: the requested root or a dependency of a manifest. -/
structure Request where
  publisher : String
  name : String
  version : String
  deriving DecidableEq

def Request.id (q : Request) : Id := ⟨some q.publisher, q.name⟩

theorem Request.eq_of_id {q q' : Request} (hid : q.id = q'.id) (hversion : q.version = q'.version) :
    q = q' := by
  simp only [Request.id, Id.mk.injEq, Option.some.injEq] at hid
  cases q
  cases q'
  simp_all

/-- The manifest of a verified package, as far as the resolution reads it. -/
structure Verified where
  dependencies : List Request
  bounded : dependencies.length ≤ 100
  deriving DecidableEq

/-- The remote store, and the name rules of the identity home. -/
structure Store where
  normalizeName : String → Option String
  fetch : Request → Except Error Verified

structure Resource where
  request : Request
  package : Verified
  previous : Option Verified
  deriving DecidableEq

namespace Resource

def id (r : Resource) : Id := r.request.id

end Resource

namespace Store

def downloadRelease (s : Store) (q : Request) : Except Error Verified := do
  validId s.normalizeName q.id
  failIf (releaseVersion q.version = false) (.badRequest "version must be MAJOR.MINOR.PATCH")
  s.fetch q

/-- The installed release of a package that has no signing evidence yet. -/
def previousRelease (s : Store) (installed : List Package) (q : Request) :
    Except Error (Option Verified) :=
  match installed.find? (fun p => p.id == q.id) with
  | none => .ok none
  | some current =>
      if current.authorOwnerHash = none then
        match s.downloadRelease { q with version := current.version } with
        | .ok release => .ok (some release)
        | .error .signingStatusUnavailable => .error .signingStatusUnavailable
        | .error _ => .error .publisherOwnershipConflict
      else .ok none

def sameName (q : Request) (r : Resource) : Bool := r.id != q.id && r.request.name == q.name

def takenName (q : Request) (p : Package) : Bool := p.name == q.name && p.id != q.id

/-- The body of the loop for a package that is not among the resources yet. -/
def resource (s : Store) (installed : List Package) (resources : List Resource) (q : Request) :
    Except Error Resource := do
  failIf (100 ≤ resources.length) (.badRequest "installation exceeds 100 packages")
  failIf (resources.any (sameName q) = true) (.invalidInput "conflicting package authors")
  failIf (installed.any (takenName q) = true)
    (.invalidInput s!"package {q.name} is already installed by another author")
  let package ← s.downloadRelease q
  let previous ← s.previousRelease installed q
  .ok ⟨q, package, previous⟩

section

variable {s : Store} {installed : List Package} {resources : List Resource} {q : Request}
  {r : Resource}

theorem resource_ok (h : s.resource installed resources q = .ok r) :
    r.request = q ∧ resources.length < 100 ∧ resources.any (sameName q) = false ∧
      installed.any (takenName q) = false ∧ s.downloadRelease q = .ok r.package ∧
      s.previousRelease installed q = .ok r.previous := by
  obtain ⟨_, hlength, h⟩ := bind_eq_ok.mp h
  obtain ⟨_, hsame, h⟩ := bind_eq_ok.mp h
  obtain ⟨_, htaken, h⟩ := bind_eq_ok.mp h
  obtain ⟨package, hpackage, h⟩ := bind_eq_ok.mp h
  obtain ⟨previous, hprevious, h⟩ := bind_eq_ok.mp h
  cases h
  exact ⟨rfl, not_le.mp (failIf_eq_ok.mp hlength),
    Bool.not_eq_true _ ▸ failIf_eq_ok.mp hsame, Bool.not_eq_true _ ▸ failIf_eq_ok.mp htaken,
    hpackage, hprevious⟩

end

/-- The worklist of `install_store_package`. The top of its stack is the head of the list. -/
def resolve (s : Store) (installed : List Package) (resources : List Resource) :
    List Request → Except Error (List Resource)
  | [] => .ok resources
  | q :: pending =>
      match resources.find? (fun r => r.id == q.id) with
      | some r =>
          if r.request.version ≠ q.version then
            .error (.invalidInput s!"conflicting dependency versions for {q.id.text}")
          else resolve s installed resources pending
      | none =>
          match _ : s.resource installed resources q with
          | .error e => .error e
          | .ok r => resolve s installed (resources ++ [r])
              (r.package.dependencies.reverse ++ pending)
termination_by pending => (100 - resources.length) * 101 + pending.length
decreasing_by
  · simp
  · rename_i h
    have hlength := (resource_ok h).2.1
    have hbounded := r.package.bounded
    simp only [List.length_append, List.length_reverse, List.length_cons, List.length_nil]
    omega

def ready (ordered : List Resource) (r : Resource) : Bool :=
  r.package.dependencies.all (fun d => ordered.any (fun o => o.id == d.id))

/-- Moves the first ready resource to the end of `ordered` until none is left. -/
def orderPackages (ordered : List Resource) (resources : List Resource) :
    Except Error (List Resource) :=
  if resources.isEmpty then .ok ordered
  else match _ : resources.find? (ready ordered) with
    | none => .error (.badRequest "cyclic package dependencies")
    | some r => orderPackages (ordered ++ [r]) (resources.eraseP (ready ordered))
termination_by resources.length
decreasing_by
  rename_i h
  rw [List.length_eraseP_of_mem (List.mem_of_find?_eq_some h) (List.find?_some h)]
  have := List.length_pos_of_mem (List.mem_of_find?_eq_some h)
  omega

/-- `install_store_package` up to its call of `install_packages`. -/
def installStorePackage (s : Store) (installed : List Package) (root : Request) :
    Except Error (List Resource) := do
  validId s.normalizeName root.id
  let resources ← s.resolve installed [] [root]
  orderPackages [] resources

end Store

end Pishoo
