import Mathlib.Logic.Function.Basic
import Pishoo.Entry
import Pishoo.Fault
import Pishoo.Swap

namespace Pishoo

open Result

/-- The registry, and the release of which each registered row speaks. Only the registry is
stored; the releases say what the runtime files ought to be. -/
structure Database where
  registry : Registry
  releases : String → Option Release

inductive Root
  | lib | std | app
  deriving DecidableEq

/-- The place of a package's `.wasm` file or of its app directory. -/
structure Slot where
  root : Root
  name : String
  deriving DecidableEq

def rootOf (id : Id) : Kind → Root
  | .lib => if standard id then .std else .lib
  | .app => .app

def slotOf (id : Id) (kind : Kind) : Slot := ⟨rootOf id kind, id.name⟩

theorem rootOf_ne {id : Id} : rootOf id .lib ≠ rootOf id .app := by
  simp only [rootOf]
  split <;> simp

/-- The staging directory of one package, with `new-lib`, `new-app`, `old-lib` and `old-app`. -/
structure Member (γ : Type) where
  new : Kind → Option γ
  old : Kind → Option γ

namespace Member

variable {γ : Type}

def empty : Member γ := ⟨fun _ => none, fun _ => none⟩

/-- A directory of which at most the parts of `rest` are left. -/
def leave (rest m : Member γ) : Member γ where
  new kind := (m.new kind).bind fun _ => rest.new kind
  old kind := (m.old kind).bind fun _ => rest.old kind

end Member

structure JournalResource where
  kind : Kind
  old : Bool
  new : Bool
  deriving DecidableEq

structure JournalEntry where
  id : Id
  directory : String
  resources : List JournalResource
  facts : Facts
  deriving DecidableEq

/-- The file `.transaction.json`. -/
inductive Marker
  | torn
  | complete (packages : List JournalEntry)
  deriving DecidableEq

/-- What a failed or interrupted operation leaves: of a runtime file, and of a stage. -/
structure Leftover (γ : Type) where
  file : Option γ
  keepMarker : Bool
  members : String → Option (Member γ)

/-- A directory `.pishoo-…`. The member with the empty name is the directory itself. -/
structure Stage (γ : Type) where
  marker : Option Marker
  members : String → Option (Member γ)

def Stage.empty {γ : Type} : Stage γ :=
  ⟨none, fun d => if d = "" then some .empty else none⟩

def Stage.leave {γ : Type} (l : Leftover γ) (s : Stage γ) : Stage γ where
  marker := if l.keepMarker then s.marker else none
  members d := (s.members d).bind fun m =>
    if d = "" then some (((l.members d).getD .empty).leave m) else (l.members d).map (·.leave m)

/-- The directory of one identity with its database, and the sandbox of the process. -/
structure World (γ : Type) where
  db : Database
  runtime : Slot → Option γ
  roots : Root → Bool
  stages : String → Option (Stage γ)
  sandbox : Sandbox

/-- A failed call. `rolledBack` is false if the error has been kept from a rollback that itself
failed; the caller sees the error only. -/
structure Failure where
  error : Error
  rolledBack : Bool
  deriving DecidableEq

def Failure.of (error : Error) : Failure := ⟨error, true⟩

/-- One runtime file of a transaction, as the journal describes it. -/
structure Target where
  id : Id
  directory : String
  kind : Kind
  old : Bool
  new : Bool

def Target.slot (t : Target) : Slot := slotOf t.id t.kind

def targets (packages : List JournalEntry) : List Target :=
  packages.flatMap (fun e => e.resources.map (fun r => ⟨e.id, e.directory, r.kind, r.old, r.new⟩))

namespace World

variable {γ : Type}

def marker (w : World γ) (n : String) : Option Marker := (w.stages n).bind Stage.marker

def member (w : World γ) (n d : String) : Option (Member γ) := (w.stages n).bind (·.members d)

def candidate (w : World γ) (n d : String) (kind : Kind) : Option γ :=
  (w.member n d).bind (·.new kind)

def backup (w : World γ) (n d : String) (kind : Kind) : Option γ :=
  (w.member n d).bind (·.old kind)

def swap (w : World γ) (n : String) (t : Target) : Swap γ :=
  ⟨w.runtime t.slot, w.backup n t.directory t.kind, w.candidate n t.directory t.kind⟩

def updateStage (w : World γ) (n : String) (f : Stage γ → Stage γ) : World γ :=
  { w with stages := Function.update w.stages n ((w.stages n).map f) }

def updateMember (w : World γ) (n d : String) (f : Member γ → Member γ) : World γ :=
  w.updateStage n fun s => { s with members := Function.update s.members d ((s.members d).map f) }

def setRuntime (w : World γ) (slot : Slot) (c : Option γ) : World γ :=
  { w with runtime := Function.update w.runtime slot c }

section

variable {w : World γ} {n d : String} {slot : Slot}

theorem stages_updateStage {f : Stage γ → Stage γ} (m : String) :
    (w.updateStage n f).stages m = if m = n then (w.stages n).map f else w.stages m := by
  by_cases hm : m = n
  · subst hm
    simp [updateStage]
  · simp [updateStage, hm]

@[simp] theorem marker_updateMember {f : Member γ → Member γ} (m : String) :
    (w.updateMember n d f).marker m = w.marker m := by
  rw [marker, updateMember, stages_updateStage, marker]
  split
  · rename_i hm
    subst hm
    cases w.stages m <;> rfl
  · rfl

theorem member_updateMember {f : Member γ → Member γ} (m e : String) :
    (w.updateMember n d f).member m e =
      if m = n ∧ e = d then (w.member n d).map f else w.member m e := by
  rw [member, updateMember, stages_updateStage, member, member]
  by_cases hm : m = n
  · subst hm
    cases w.stages m with
    | none => simp
    | some s =>
        by_cases he : e = d
        · subst he
          simp
        · simp [he]
  · simp [hm]

theorem member_isSome_updateMember {f : Member γ → Member γ} (m e : String) :
    ((w.updateMember n d f).member m e).isSome = (w.member m e).isSome := by
  rw [member_updateMember]
  split
  · rename_i h
    obtain ⟨rfl, rfl⟩ := h
    simp
  · rfl

theorem backup_updateMember {f : Member γ → Member γ} (m e : String) (kind : Kind) :
    (w.updateMember n d f).backup m e kind =
      if m = n ∧ e = d then (w.member n d).bind (fun x => (f x).old kind)
      else w.backup m e kind := by
  rw [backup, member_updateMember]
  split
  · cases w.member n d <;> rfl
  · rfl

theorem candidate_updateMember {f : Member γ → Member γ} (m e : String) (kind : Kind) :
    (w.updateMember n d f).candidate m e kind =
      if m = n ∧ e = d then (w.member n d).bind (fun x => (f x).new kind)
      else w.candidate m e kind := by
  rw [candidate, member_updateMember]
  split
  · cases w.member n d <;> rfl
  · rfl

@[simp] theorem marker_setRuntime {c : Option γ} (m : String) :
    (w.setRuntime slot c).marker m = w.marker m :=
  rfl

@[simp] theorem member_setRuntime {c : Option γ} (m e : String) :
    (w.setRuntime slot c).member m e = w.member m e :=
  rfl

@[simp] theorem backup_setRuntime {c : Option γ} (m e : String) (kind : Kind) :
    (w.setRuntime slot c).backup m e kind = w.backup m e kind :=
  rfl

@[simp] theorem candidate_setRuntime {c : Option γ} (m e : String) (kind : Kind) :
    (w.setRuntime slot c).candidate m e kind = w.candidate m e kind :=
  rfl

theorem runtime_setRuntime {c : Option γ} (other : Slot) :
    (w.setRuntime slot c).runtime other = if other = slot then c else w.runtime other := by
  by_cases h : other = slot
  · subst h
    simp [setRuntime]
  · simp [setRuntime, h]

@[simp] theorem runtime_updateMember {f : Member γ → Member γ} :
    (w.updateMember n d f).runtime = w.runtime :=
  rfl

end

end World

namespace PackageFiles

open World Prog

variable {γ : Type}

abbrev Op (γ α : Type) : Type := Prog (Leftover γ) (World γ) Failure α

def inputOutput : Failure := .of (.io "input/output error")

def notFound : Failure := .of (.io "No such file or directory")

def alreadyExists : Failure := .of (.io "File exists")

/-- A step that changes nothing: a check, a query or an `fsync`. -/
def sync : Op γ Unit := step inputOutput (fun _ w => w) fun w => .ok w

/-- A step that is done or not done. -/
def change (act : World γ → Except Failure (World γ)) : Op γ Unit :=
  step inputOutput (fun _ w => w) act

def ensureRoot (root : Root) : Op γ Unit :=
  change fun w => .ok { w with roots := Function.update w.roots root true }

def makeStage (n : String) : Op γ Unit :=
  change fun w => match w.stages n with
    | none => .ok { w with stages := Function.update w.stages n (some .empty) }
    | some _ => .error alreadyExists

def makeMember (n d : String) : Op γ Unit :=
  change fun w => match w.member n d with
    | none => .ok (w.updateStage n fun s =>
        { s with members := Function.update s.members d (some .empty) })
    | some _ => .error alreadyExists

/-- An interrupted writer leaves any part of the candidate. -/
def writeNew (n d : String) (kind : Kind) (c : γ) : Op γ Unit :=
  step inputOutput
    (fun l w => w.updateMember n d fun m => { m with new := Function.update m.new kind l.file })
    fun w => .ok (w.updateMember n d fun m => { m with new := Function.update m.new kind (some c) })

/-- `remove_dir_all` of a stage. It may stop midway. -/
def removeStage (n : String) : Op γ Unit :=
  step inputOutput (fun l w => w.updateStage n (Stage.leave l)) fun w =>
    .ok { w with stages := Function.update w.stages n none }

def setMarker (n : String) (marker : Option Marker) (w : World γ) : World γ :=
  w.updateStage n fun s => { s with marker := marker }

def createMarker (n : String) : Op γ Unit :=
  change fun w => match w.stages n, w.marker n with
    | some _, none => .ok (setMarker n (some .torn) w)
    | some _, some _ => .error alreadyExists
    | none, _ => .error notFound

def writeMarker (n : String) (packages : List JournalEntry) : Op γ Unit :=
  change fun w => .ok (setMarker n (some (.complete packages)) w)

def unlinkMarker (n : String) : Op γ Unit :=
  change fun w => match w.marker n with
    | some _ => .ok (setMarker n none w)
    | none => .error notFound

/-- The runtime file moves to `old-…`. -/
def renameOut (n : String) (t : Target) : Op γ Unit :=
  change fun w => match w.runtime t.slot, w.member n t.directory with
    | some c, some _ => .ok ((w.updateMember n t.directory fun m =>
        { m with old := Function.update m.old t.kind (some c) }).setRuntime t.slot none)
    | _, _ => .error notFound

/-- The candidate becomes the runtime file. -/
def renameIn (n : String) (t : Target) : Op γ Unit :=
  change fun w => match w.candidate n t.directory t.kind with
    | some c => .ok ((w.updateMember n t.directory fun m =>
        { m with new := Function.update m.new t.kind none }).setRuntime t.slot (some c))
    | none => .error notFound

/-- The backup becomes the runtime file again. -/
def renameBack (n : String) (t : Target) : Op γ Unit :=
  change fun w => match w.backup n t.directory t.kind with
    | some c => .ok ((w.updateMember n t.directory fun m =>
        { m with old := Function.update m.old t.kind none }).setRuntime t.slot (some c))
    | none => .error notFound

/-- `remove_file`, or `remove_dir_all`, which may stop midway. A missing file is no error. -/
def removeTarget (t : Target) : Op γ Unit :=
  step inputOutput
    (fun l w => match t.kind with
      | .lib => w
      | .app => w.setRuntime t.slot ((w.runtime t.slot).bind fun _ => l.file))
    fun w => .ok (w.setRuntime t.slot none)

/-- Creates the directories of both kinds and looks for the old and the new file. -/
def prepareTarget (id : Id) (kind : Kind) : Op γ Unit := do
  ensureRoot (match kind with | .lib => .lib | .app => .app)
  ensureRoot (rootOf id kind)
  sync

def journalEntry (w : World γ) (n : String) (tx : Database) (e : Id × String) : JournalEntry where
  id := e.1
  directory := e.2
  resources := [Kind.lib, Kind.app].map fun kind =>
    ⟨kind, (w.runtime (slotOf e.1 kind)).isSome, (w.candidate n e.2 kind).isSome⟩
  facts := registrationFacts tx.registry e.1.name

def journalLimit : Nat := 2 * 1024 * 1024

def writeComponent (n : String) (packages : List JournalEntry) : Op γ Unit := do
  createMarker n
  onError (do writeMarker n packages; sync; sync) (unlinkMarker n)

/-- Up to the published journal. `size` is the length of the serialized journal. -/
def publish (size : List JournalEntry → Nat) (entries : List (Id × String)) (n : String)
    (tx : Database) : Op γ (List JournalEntry) := do
  sync
  forEach entries fun e => forEach [Kind.lib, Kind.app] fun kind => prepareTarget e.1 kind
  let w ← get
  let packages := entries.map (journalEntry w n tx)
  ofExcept (failIf (journalLimit < size packages)
    (Failure.of (.badRequest "package recovery journal exceeds 2 MiB")))
  writeComponent n packages
  sync
  sync
  pure packages

def cleanup (n : String) : Op γ Unit := do
  unlinkMarker n
  sync
  removeStage n
  sync

def switchTarget (n : String) (t : Target) : Op γ Unit := do
  doIf t.old (renameOut n t)
  doIf t.new do
    sync
    renameIn n t
    doIf (t.kind == .lib) sync
  sync
  sync

def switchAll (n : String) (ts : List Target) (tx : Database) : Op γ Unit := do
  forEach ts (switchTarget n)
  sync
  change fun w => .ok { w with db := tx }

def rollbackTarget (n : String) (t : Target) : Op γ Unit := do
  let w ← get
  let hasBackup := (w.backup n t.directory t.kind).isSome
  let sourceExists := (w.candidate n t.directory t.kind).isSome
  doIf (hasBackup || (!t.old && t.new && !sourceExists)) (removeTarget t)
  doIf hasBackup (renameBack n t)
  sync
  sync

/-- `tx` is the database inside the transaction that the call commits. -/
def commitPackagesFiles (size : List JournalEntry → Nat) (entries : List (Id × String))
    (n : String) (tx : Database) : Op γ Unit := do
  let packages ← onError (publish size entries n tx) (removeStage n)
  match ← attempt (switchAll n (targets packages) tx) with
  | .ok _ => ignore (cleanup n)
  | .error e => do
      match ← attempt (forEach (targets packages) (rollbackTarget n)) with
      | .ok _ => do
          ignore (cleanup n)
          throw { e with rolledBack := true }
      | .error _ => throw { e with rolledBack := false }

end PackageFiles

end Pishoo
