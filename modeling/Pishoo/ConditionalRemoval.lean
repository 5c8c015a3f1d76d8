import Pishoo.LegacyTransfers
import Pishoo.LoadedSandbox

namespace Pishoo.ConditionalRemoval

open Result World Prog PackageFiles Registry Registration Installation Machine

/-- The request that is observed, or another one of the process. -/
inductive Holder
  | request
  | other (pid : Nat)
  deriving DecidableEq

/-- How far the DELETE request is, with the id that it has read. -/
inductive Phase
  | start
  | matched (id : Id)
  | entered (id : Id)
  | locked (id : Id)
  | opened (id : Id)
  | checked (id : Id)
  | removed (id : Id)
  | answered (result : Except Failure Unit)

/-- The directory of the identity and the sandbox, with the holders of the lock of the sandbox and
of the lock on the directory. -/
structure Shared (γ : Type) where
  world : World γ
  sandboxLock : Option Holder
  profileLock : Option Holder
  phase : Phase

/-- The DELETE request with its short name and its `Expected-Package-Id`. -/
structure Deletion where
  name : String
  expected : String
  stage : String

inductive Work (γ : Type)
  | install (items : List Item) (now : String → Int) (n : String)
  | remove (id : Id) (n : String)
  | transfer (host : Legacy.Host) (groups : Json)

/-- A step of another request. -/
inductive Act (γ : Type)
  | enter
  | leave
  | lock
  | unlock
  | work (work : Work γ) (fs : List (Fault (Leftover γ)))
  | unload (id : Id)

inductive Event (γ : Type)
  | request (fs : List (Fault (Leftover γ)))
  | other (pid : Nat) (act : Act γ)

section

variable {γ : Type}

def identityChanged : Failure := .of (.invalidInput
  "installed package identity changed; query the catalog before removing")

def readRegistered (w : World γ) (d : Deletion) : Phase :=
  match (w.db.registry.package d.name).map Package.id with
  | some id => if id.text = d.expected then .matched id else .answered (.error identityChanged)
  | none => .answered (.error identityChanged)

/-- The checks between the lock of the sandbox and `remove_package`. -/
def enterChecks (inst : Installer γ) (w : World γ) (d : Deletion) (id : Id) : Except Error Unit := do
  failIf (w.sandbox.closed = true) .denied
  validId inst.normalizeName id
  failIf (id.name ≠ d.name) (.invalidConfig "invalid installed package name")

/-- The request is answered, and what it holds is released. -/
def Shared.fail (s : Shared γ) (w : World γ) (f : Failure) : Shared γ where
  world := w
  sandboxLock := none
  profileLock := none
  phase := .answered (.error f)

/-- A program of the request under both locks. -/
def Shared.run (s : Shared γ) (p : Op γ Unit) (fs : List (Fault (Leftover γ)))
    (next : World γ → Shared γ) : Option (Shared γ) :=
  match p fs s.world with
  | (.ok (), w, _) => some (next w)
  | (.err f, w, _) => some (s.fail w f)
  | (.crashed, _, _) => none

/-- The next step of the request. -/
def advance (inst : Installer γ) (d : Deletion) (fs : List (Fault (Leftover γ))) (s : Shared γ) :
    Option (Shared γ) :=
  match s.phase with
  | .start => some { s with phase := readRegistered s.world d }
  | .matched id => if s.sandboxLock = none then
      some (match enterChecks inst s.world d id with
        | .error e => { s with phase := .answered (.error (.of e)) }
        | .ok () => { s with sandboxLock := some .request, phase := .entered id })
      else none
  | .entered id => if s.profileLock = none then
      some { s with profileLock := some .request, phase := .locked id } else none
  | .locked id => s.run openDatabase fs fun w => { s with world := w, phase := .opened id }
  | .opened id => if (s.world.db.registry.registered id).isSome then
      some { s with phase := .checked id }
      else some { s with profileLock := none, phase := .removed id }
  | .checked id => s.run (removeRegistered inst id d.stage s.world.db) fs fun w =>
      { s with world := w, profileLock := none, phase := .removed id }
  | .removed id => some { s with
      world := { s.world with sandbox := Sandbox.without s.world.sandbox id }
      sandboxLock := none
      phase := .answered (.ok ()) }
  | .answered _ => none

def migrateLegacy (host : Legacy.Host) (groups : Json) : Op γ Unit :=
  change fun w => match Legacy.migrateLegacyGroups host groups w.db.registry with
    | .ok r => .ok { w with db := { w.db with registry := r } }
    | .error e => .error (.of e)

def Work.program (inst : Installer γ) : Work γ → Op γ Unit
  | .install items now n => installPackages inst items now n
  | .remove id n => removePackage inst id n
  | .transfer host groups => migrateLegacy host groups

/-- Transfers are made without the lock of the sandbox. -/
def Work.permitted (s : Shared γ) (pid : Nat) : Work γ → Bool
  | .transfer _ _ => s.profileLock == some (.other pid)
  | _ => s.sandboxLock == some (.other pid) && s.profileLock == some (.other pid)

def act (inst : Installer γ) (pid : Nat) (s : Shared γ) : Act γ → Option (Shared γ)
  | .enter => if s.sandboxLock = none then some { s with sandboxLock := some (.other pid) } else none
  | .leave => if s.sandboxLock = some (.other pid) then some { s with sandboxLock := none } else none
  | .lock => if s.profileLock = none then some { s with profileLock := some (.other pid) } else none
  | .unlock => if s.profileLock = some (.other pid) then some { s with profileLock := none } else none
  | .work work fs => if work.permitted s pid then
      (match work.program inst fs s.world with
        | (.ok _, w, _) => some { s with world := w }
        | (.err _, w, _) => some { s with world := w }
        | (.crashed, _, _) => none)
      else none
  | .unload id => if s.sandboxLock = some (.other pid) then
      some { s with world := { s.world with sandbox := Sandbox.without s.world.sandbox id } }
      else none

def step (inst : Installer γ) (d : Deletion) (s : Shared γ) : Event γ → Option (Shared γ)
  | .request fs => advance inst d fs s
  | .other pid a => act inst pid s a

/-- No error of another request has been kept from a rollback that failed as well. -/
def Recovers (inst : Installer γ) (s : Shared γ) : Event γ → Prop
  | .other _ (.work work fs) => ∀ f w gs, work.program inst fs s.world = (.err f, w, gs) →
      f.rolledBack = true
  | _ => True

/-- The names of the rows and of the loaded packages are valid ones. -/
structure Named (w : World γ) : Prop where
  rows : ∀ p ∈ w.db.registry.packages, validName p.name = true
  libs : ∀ id, w.sandbox.libs id ≠ none → validName id.name = true
  apps : ∀ id, w.sandbox.apps id ≠ none → validName id.name = true

/-- Every runtime file belongs to a registered package. -/
def Housed (w : World γ) : Prop :=
  ∀ slot, w.runtime slot ≠ none → ∃ p ∈ w.db.registry.packages, ∃ kind, slotOf p.id kind = slot

structure Sane (w : World γ) : Prop extends Named w where
  housed : Housed w

/-- What is left of all packages but the expected one. The migration that opening the database makes
may relocate operations. -/
structure Spares (expected : String) (w w' : World γ) : Prop where
  rows : ∀ p ∈ w.db.registry.packages, p.id.text ≠ expected → p ∈ w'.db.registry.packages
  capabilities : ∀ p ∈ w.db.registry.packages, p.id.text ≠ expected →
    (w'.db.registry.entry p.name).capabilities = (w.db.registry.entry p.name).capabilities
  operations : ∀ p ∈ w.db.registry.packages, p.id.text ≠ expected →
    (w'.db.registry.entry p.name).operations.map (fun o => (o.capabilityId, o.method)) =
      (w.db.registry.entry p.name).operations.map fun o => (o.capabilityId, o.method)
  files : ∀ p ∈ w.db.registry.packages, p.id.text ≠ expected → ∀ kind,
    w'.runtime (slotOf p.id kind) = w.runtime (slotOf p.id kind)
  libs : ∀ id, id.text ≠ expected → w'.sandbox.libs id = w.sandbox.libs id
  apps : ∀ id, id.text ≠ expected → w'.sandbox.apps id = w.sandbox.apps id

/-- The expected package is not registered, and what is at its places belongs to another one. -/
structure Gone (expected : String) (w : World γ) : Prop where
  rows : ∀ p ∈ w.db.registry.packages, p.id.text ≠ expected
  files : ∀ id kind, id.text = expected → w.runtime (slotOf id kind) ≠ none →
    ∃ p ∈ w.db.registry.packages, p.id.text ≠ expected ∧ ∃ kind', slotOf p.id kind' = slotOf id kind

structure Unloaded (expected : String) (s : Sandbox) : Prop where
  libs : ∀ id, id.text = expected → s.libs id = none
  apps : ∀ id, id.text = expected → s.apps id = none

def Event.isOther : Event γ → Bool
  | .other _ _ => true
  | .request _ => false

/-- The request has committed, and only other requests have taken steps since. -/
def Committed (inst : Installer γ) (d : Deletion) (s₀ : Shared γ) (events : List (Event γ))
    (id : Id) : Prop :=
  ∃ before fs between u v, events = before ++ .request fs :: between ∧
    Trace (step inst d) (Recovers inst) s₀ before u ∧ step inst d u (.request fs) = some v ∧
    v.phase = .removed id ∧ v.sandboxLock = some .request ∧ Gone d.expected v.world ∧
    ∀ e ∈ between, e.isOther = true

/-- The request has been answered after its commit, and the lock of the sandbox was its own until
then. -/
def Answered (inst : Installer γ) (d : Deletion) (s₀ : Shared γ) (events : List (Event γ)) : Prop :=
  ∃ before fs after u v id, events = before ++ .request fs :: after ∧
    Trace (step inst d) (Recovers inst) s₀ before u ∧ Committed inst d s₀ before id ∧
    u.phase = .removed id ∧ u.sandboxLock = some .request ∧
    step inst d u (.request fs) = some v ∧ Unloaded d.expected v.world.sandbox

end

theorem text_injective {a b : Id} (ha : validName a.name = true) (hb : validName b.name = true)
    (h : a.text = b.text) : a = b := by
  have hparts (id : Id) : ∃ start : List Char, id.text.toList = start ++ id.name.toList ∧
      (id.author = none ∧ start = [] ∨
        ∃ author, id.author = some author ∧ start = author.toList ++ ['/']) := by
    obtain ⟨author, name⟩ := id
    cases author with
    | none => exact ⟨[], rfl, .inl ⟨rfl, rfl⟩⟩
    | some author =>
        refine ⟨author.toList ++ ['/'], ?_, .inr ⟨author, rfl, rfl⟩⟩
        simp [Id.text, String.toList_append]
  have hlast (id : Id) (hid : validName id.name = true) :
      id.text.toList.reverse.takeWhile (· != '/') = id.name.toList.reverse := by
    obtain ⟨start, htext, hstart⟩ := hparts id
    rw [htext, List.reverse_append, List.takeWhile_append_of_pos]
    · obtain ⟨-, rfl⟩ | ⟨author, -, rfl⟩ := hstart
      · simp
      · simp
    · intro c hc
      rw [List.mem_reverse] at hc
      rw [bne_iff_ne]
      rintro rfl
      exact validName_ne_slash hid hc
  have hname : a.name = b.name := by
    refine String.toList_injective (List.reverse_injective ?_)
    rw [← hlast a ha, ← hlast b hb, h]
  obtain ⟨start, htext, hstart⟩ := hparts a
  obtain ⟨start', htext', hstart'⟩ := hparts b
  rw [h, htext', hname] at htext
  obtain rfl := List.append_cancel_right htext
  have hauthor : a.author = b.author := by
    obtain ⟨hnone, rfl⟩ | ⟨author, hauthor, rfl⟩ := hstart
    · obtain ⟨hnone', -⟩ | ⟨author, -, hempty⟩ := hstart'
      · rw [hnone, hnone']
      · simp at hempty
    · obtain ⟨-, hempty⟩ | ⟨author', hauthor', heq⟩ := hstart'
      · simp at hempty
      · rw [hauthor, hauthor', String.toList_injective (List.append_cancel_right heq)]
  cases a
  cases b
  rw [Id.mk.injEq]
  exact ⟨hauthor, hname⟩

/-- The rows, the files and the sandbox are the same, up to the paths of operations. -/
structure Alike {γ : Type} (w w' : World γ) : Prop where
  packages : w'.db.registry.packages = w.db.registry.packages
  capabilities : w'.db.registry.capabilities = w.db.registry.capabilities
  operations : ∀ name, (w'.db.registry.entry name).operations.map
    (fun o => (o.capabilityId, o.method)) =
      (w.db.registry.entry name).operations.map fun o => (o.capabilityId, o.method)
  runtime : w'.runtime = w.runtime
  sandbox : w'.sandbox = w.sandbox

/-- The row of the id is removed with its files; the sandbox is not yet told. -/
structure Removes {γ : Type} (id : Id) (w w' : World γ) : Prop where
  registry : removeTx w.db.registry id = .ok w'.db.registry
  sandbox : w'.sandbox = w.sandbox
  files : ∀ kind, w'.runtime (slotOf id kind) = none
  others : ∀ slot, (∀ kind, slotOf id kind ≠ slot) → w'.runtime slot = w.runtime slot

section

variable {γ : Type} {inst : Installer γ} {w₀ w w' ws : World γ} {n : String} {id : Id} {f : Failure}
  {call : Call} {tx : Database} {entries : List (Id × String)} {expected : String}

theorem Alike.refl (w : World γ) : Alike w w := ⟨rfl, rfl, fun _ => rfl, rfl, rfl⟩

theorem Alike.symm (h : Alike w w') : Alike w' w :=
  ⟨h.packages.symm, h.capabilities.symm, fun name => (h.operations name).symm, h.runtime.symm,
    h.sandbox.symm⟩

theorem Alike.trans {w₁ w₂ : World γ} (h : Alike w w₁) (h' : Alike w₁ w₂) : Alike w w₂ :=
  ⟨h'.packages.trans h.packages, h'.capabilities.trans h.capabilities,
    fun name => (h'.operations name).trans (h.operations name), h'.runtime.trans h.runtime,
    h'.sandbox.trans h.sandbox⟩

/-- Replaced paths keep the rest of their rows. -/
theorem operations_replaced (test : LibCapabilityOperation → Bool) (l : List LibCapabilityOperation)
    (name : String) : ((Rows.updateWhere test replaced l).filter fun o => o.libName == name).map
      (fun o => (o.capabilityId, o.method)) =
        (l.filter fun o => o.libName == name).map fun o => (o.capabilityId, o.method) := by
  have hsame (o : LibCapabilityOperation) : (if test o then replaced o else o).libName = o.libName ∧
      (if test o then replaced o else o).capabilityId = o.capabilityId ∧
        (if test o then replaced o else o).method = o.method := by
    split <;> exact ⟨rfl, rfl, rfl⟩
  rw [Rows.updateWhere, List.filter_map, List.map_map]
  have hfilter : ((fun o : LibCapabilityOperation => o.libName == name) ∘
      fun o => if test o then replaced o else o) = fun o => o.libName == name := by
    funext o
    rw [Function.comp_apply, (hsame o).1]
  rw [hfilter]
  refine List.map_congr_left fun o _ => ?_
  rw [Function.comp_apply, (hsame o).2.1, (hsame o).2.2]

theorem opened_alike (h : Opened w₀ w) : Alike w₀ w := by
  have htables := migrateRegistration_tables h.registry
  refine ⟨by rw [htables], by rw [htables], fun name => ?_, h.runtime, h.sandbox⟩
  rw [entry, entry, htables]
  exact operations_replaced _ _ name

theorem quiet_alike (h : Quiet w n w') : Alike w w' := by
  obtain ⟨hdb, hsandbox, hruntime, -, -⟩ := h
  exact ⟨by rw [hdb], by rw [hdb], fun _ => by rw [hdb], hruntime, hsandbox⟩

theorem before_alike (h : Before w₀ n w) : Alike w₀ w := by
  cases h with
  | unopened h => exact h ▸ Alike.refl w₀
  | opened h => exact opened_alike h
  | staging w₁ ho _ h => exact (opened_alike ho).trans (quiet_alike h)

theorem plan_alike (h : Plan inst w₀ n call ws entries tx) : Alike w₀ ws := by
  obtain ⟨w₁, ho, -, hquiet⟩ := h.opened
  exact (opened_alike ho).trans (quiet_alike hquiet)

/-- A failed call whose rollback has not failed has left everything as it was. -/
theorem failing_alike (h : Failing inst w₀ n call f w) (hf : f.rolledBack = true) : Alike w₀ w := by
  obtain hbefore | ⟨ws, entries, tx, hplan, hfailed⟩ := h
  · exact before_alike hbefore
  · refine (plan_alike hplan).trans ?_
    cases hfailed with
    | old h =>
        have hruntime := h.runtime_eq
        cases h with
        | untouched h =>
            have hdb := h.db
            exact ⟨by rw [hdb], by rw [hdb], fun _ => by rw [hdb], hruntime, h.frame.sandbox⟩
        | switching h _ =>
            have hdb := h.db
            exact ⟨by rw [hdb], by rw [hdb], fun _ => by rw [hdb], hruntime, h.frame.sandbox⟩
    | rollback h hnot =>
        rw [hf] at hnot
        cases hnot

/-- A failed removal has left everything but the files at the places of its package. -/
theorem failing_spares (h : Failing inst w₀ n (.remove id) f w) :
    Alike w₀ { w with runtime := w₀.runtime } ∧
      ∀ slot, (∀ kind, slotOf id kind ≠ slot) → w.runtime slot = w₀.runtime slot := by
  obtain hbefore | ⟨ws, entries, tx, hplan, hfailed⟩ := h
  · have halike := before_alike hbefore
    exact ⟨⟨halike.packages, halike.capabilities, halike.operations, rfl, halike.sandbox⟩,
      fun slot _ => congrFun halike.runtime slot⟩
  · have halike := plan_alike hplan
    have hframe : w.db = ws.db ∧ Frame ws n (journal ws n tx entries) w := by
      cases hfailed with
      | old h =>
          cases h with
          | untouched h => exact ⟨h.db, h.frame⟩
          | switching h _ => exact ⟨h.db, h.frame⟩
      | rollback h _ => exact ⟨h.db, h.frame⟩
    obtain ⟨hdb, hframe⟩ := hframe
    refine ⟨⟨?_, ?_, fun name => ?_, rfl, hframe.sandbox.trans halike.sandbox⟩, fun slot hslot => ?_⟩
    · exact (congrArg (fun db => db.registry.packages) hdb).trans halike.packages
    · exact (congrArg (fun db => db.registry.capabilities) hdb).trans halike.capabilities
    · rw [← halike.operations name, hdb]
    · rw [← halike.runtime]
      refine hframe.runtime slot fun t ht => ?_
      cases hplan.transaction with
      | remove _ _ _ _ =>
          obtain ⟨e, he, kind, rfl⟩ := mem_targets_journal.mp ht
          rw [List.mem_singleton.mp he]
          exact hslot kind

/-- A removal that has been committed in an open database. -/
theorem removes_of_done (ho : Opened w₀ w) (hplan : Plan inst w₀ n (.remove id) ws entries tx)
    (hdone : Done ws n tx (journal ws n tx entries) w') : Removes id w w' := by
  obtain ⟨w₁, ho₁, -, hquiet⟩ := hplan.opened
  have hregistry : ws.db.registry = w.db.registry := by
    rw [hquiet.db]
    exact Except.ok.inj (ho₁.registry.symm.trans ho.registry)
  have hruntime : ws.runtime = w.runtime := hquiet.runtime.trans (ho₁.runtime.trans ho.runtime.symm)
  have hsandbox : ws.sandbox = w.sandbox := hquiet.sandbox.trans (ho₁.sandbox.trans ho.sandbox.symm)
  cases hplan.transaction with
  | @remove _ r _ _ htx hcandidate =>
      refine ⟨?_, hdone.frame.sandbox.trans hsandbox, fun kind => ?_, fun slot hslot => ?_⟩
      · rw [← hregistry, htx, hdone.db]
      · have ht : targetOf ws n (id, "") kind ∈
            targets (journal ws n ⟨r, removedReleases id ws.db.releases⟩ [(id, "")]) :=
          mem_targets_journal.mpr ⟨_, List.mem_singleton_self _, kind, rfl⟩
        exact (hdone.runtime _ ht).trans (hcandidate kind)
      · rw [← hruntime]
        refine hdone.frame.runtime slot fun t ht => ?_
        obtain ⟨e, he, kind, rfl⟩ := mem_targets_journal.mp ht
        rw [List.mem_singleton.mp he]
        exact hslot kind

theorem Alike.sane (h : Alike w w') (hw : Sane w) : Sane w' := by
  obtain ⟨⟨hrows, hlibs, happs⟩, hhoused⟩ := hw
  refine ⟨⟨?_, ?_, ?_⟩, fun slot hslot => ?_⟩
  · rw [h.packages]
    exact hrows
  · rw [h.sandbox]
    exact hlibs
  · rw [h.sandbox]
    exact happs
  · rw [h.runtime] at hslot
    rw [h.packages]
    exact hhoused slot hslot

theorem mem_packages {r : Registry} {p : Package} : p ∈ r.packages ↔ r.package p.name = some p := by
  rw [package_eq_some]
  exact ⟨fun h => ⟨h, rfl⟩, And.left⟩

theorem Removes.package (h : Removes id w w') (name : String) :
    w'.db.registry.package name = if name = id.name then none else w.db.registry.package name :=
  removeTx_package h.registry name

theorem Removes.mem_packages (h : Removes id w w') {p : Package} :
    p ∈ w'.db.registry.packages ↔ p.name ≠ id.name ∧ p ∈ w.db.registry.packages := by
  rw [ConditionalRemoval.mem_packages, ConditionalRemoval.mem_packages, h.package]
  by_cases hname : p.name = id.name <;> simp [hname]

theorem registered_id {r : Registry} {p : Package} (hregistered : (r.registered id).isSome = true)
    (hp : p ∈ r.packages) (hname : p.name = id.name) : p.id = id := by
  obtain ⟨q, hq⟩ := Option.isSome_iff_exists.mp hregistered
  obtain ⟨hq, hauthor⟩ := registered_eq_some.mp hq
  rw [mem_packages, hname, hq] at hp
  cases hp
  cases id
  rw [Package.id, Id.mk.injEq]
  exact ⟨hauthor, hname⟩

/-- The places of a registered package are not those of another one. -/
theorem other_slot {r : Registry} {p : Package} (hregistered : (r.registered id).isSome = true)
    (hp : p ∈ r.packages) (hne : p.id ≠ id) (kind kind' : Kind) : slotOf id kind' ≠ slotOf p.id kind :=
  fun heq => hne (registered_id hregistered hp (congrArg Slot.name heq).symm)

theorem Removes.sane (h : Removes id w w') (hregistered : (w.db.registry.registered id).isSome = true)
    (hw : Sane w) : Sane w' := by
  obtain ⟨⟨hrows, hlibs, happs⟩, hhoused⟩ := hw
  refine ⟨⟨fun p hp => hrows p (h.mem_packages.mp hp).2, ?_, ?_⟩, fun slot hslot => ?_⟩
  · rw [h.sandbox]
    exact hlibs
  · rw [h.sandbox]
    exact happs
  · have hother (kind : Kind) : slotOf id kind ≠ slot := by
      rintro rfl
      exact hslot (h.files kind)
    rw [h.others slot hother] at hslot
    obtain ⟨p, hp, kind, rfl⟩ := hhoused slot hslot
    refine ⟨p, h.mem_packages.mpr ⟨fun hname => ?_, hp⟩, kind, rfl⟩
    exact hother kind (by rw [registered_id hregistered hp hname])

theorem sane_unload (hw : Sane w) (id : Id) :
    Sane { w with sandbox := Sandbox.without w.sandbox id } := by
  obtain ⟨⟨hrows, hlibs, happs⟩, hhoused⟩ := hw
  have hupdate {m : Id → Option String} (h : ∀ other, m other ≠ none → validName other.name = true)
      (other : Id) (hother : Function.update m id none other ≠ none) : validName other.name = true := by
    by_cases hid : other = id
    · rw [hid, Function.update_self] at hother
      exact absurd rfl hother
    · rw [Function.update_of_ne hid] at hother
      exact h other hother
  exact ⟨⟨hrows, hupdate hlibs, hupdate happs⟩, hhoused⟩

section

variable {items : List Item} {now : String → Int} {changed : List Release} {r : Registry}

/-- Rows of names that are not changed stay; the others are those of the releases. -/
theorem installed_rows (htx : installTx inst.normalizeName ws.db.registry ws.sandbox items now =
      .ok (changed, r)) (name : String) :
    name ∉ changed.map (fun rel => rel.id.name) ∧ r.package name = ws.db.registry.package name ∨
      ∃ rel ∈ changed, ∃ p, rel.id.name = name ∧ validName name = true ∧ r.package name = some p ∧
        p.id = rel.id ∧ ∀ q, ws.db.registry.package name = some q → q.id = rel.id := by
  obtain ⟨hexamine, hsave⟩ := examineAll_of_installTx htx
  by_cases hmem : name ∈ changed.map fun rel => rel.id.name
  · obtain ⟨rel, hrel, rfl⟩ := List.mem_map.mp hmem
    obtain ⟨item, -, haccepted⟩ := accepted_of_mem hexamine hrel
    have hrow := saveAll_package hsave (examineAll_nodup htx) hrel
    refine .inr ⟨rel, hrel, _, rfl, ?_, hrow, ?_, fun q hq => haccepted.package_id hq⟩
    · rw [haccepted.identity]
      exact validName_of_validId haccepted.valid
    · have hauthor := (row_fields rel (ws.db.registry.package rel.id.name) (now rel.id.name)).1
      have hname := (package_eq_some.mp hrow).2
      rw [Package.id, hauthor, hname]
  · exact .inl ⟨hmem, saveAll_package_other hsave hmem⟩

theorem switched_named {m m' : Id → Option String}
    (hchanged : ∀ rel ∈ changed, validName rel.id.name = true)
    (hm' : ∀ id, changed.find? (fun rel => rel.id == id) = none → m' id = m id)
    (h : ∀ id, m id ≠ none → validName id.name = true) (id : Id) (hid : m' id ≠ none) :
    validName id.name = true := by
  cases hfind : changed.find? (fun rel => rel.id == id) with
  | none => exact h id (hm' id hfind ▸ hid)
  | some rel =>
      have hrel : rel.id = id := by simpa using List.find?_some hfind
      exact hrel ▸ hchanged rel (List.mem_of_find?_eq_some hfind)

theorem installed_sane {wd : World γ} (hw : Sane ws)
    (htx : installTx inst.normalizeName ws.db.registry ws.sandbox items now = .ok (changed, r))
    (hdone : Done ws n ⟨r, installedReleases changed ws.db.releases⟩
      (journal ws n ⟨r, installedReleases changed ws.db.releases⟩ (entriesOf changed)) wd) :
    Sane { wd with sandbox := switched inst changed wd.sandbox } := by
  obtain ⟨⟨hrows, hlibs, happs⟩, hhoused⟩ := hw
  have hregistry : wd.db.registry = r := congrArg Database.registry hdone.db
  have hnames (rel : Release) (hrel : rel ∈ changed) : validName rel.id.name = true := by
    obtain ⟨item, -, haccepted⟩ := accepted_of_mem (examineAll_of_installTx htx).1 hrel
    rw [haccepted.identity]
    exact validName_of_validId haccepted.valid
  rw [← hdone.frame.sandbox] at hlibs happs
  refine ⟨⟨fun p hp => ?_, ?_, ?_⟩, fun slot hslot => ?_⟩
  · rw [hregistry, mem_packages] at hp
    obtain ⟨-, hsame⟩ | ⟨rel, hrel, q, hname, hvalid, -⟩ := installed_rows htx p.name
    · rw [hsame, ← mem_packages] at hp
      exact hrows p hp
    · exact hvalid
  · exact switched_named hnames (fun id hfind => by simp only [switched, hfind]) hlibs
  · exact switched_named hnames (fun id hfind => by simp only [switched, hfind]) happs
  · change wd.runtime slot ≠ none at hslot
    rw [hregistry]
    by_cases hchanged : ∃ rel ∈ changed, ∃ kind, slotOf rel.id kind = slot
    · obtain ⟨rel, hrel, kind, rfl⟩ := hchanged
      obtain ⟨hnot, -⟩ | ⟨rel', hrel', p, hname, -, hp, hid, -⟩ := installed_rows htx rel.id.name
      · exact absurd (List.mem_map_of_mem hrel) hnot
      · have hsame : rel' = rel := List.inj_on_of_nodup_map (examineAll_nodup htx) hrel' hrel hname
        exact ⟨p, (package_eq_some.mp hp).1, kind, by rw [hid, hsame]⟩
    · have hframe : wd.runtime slot = ws.runtime slot := by
        refine hdone.frame.runtime slot fun t ht => ?_
        obtain ⟨e, he, kind, rfl⟩ := mem_targets_journal.mp ht
        obtain ⟨rel, hrel, rfl⟩ := List.mem_map.mp he
        exact fun heq => hchanged ⟨rel, hrel, kind, heq⟩
      rw [hframe] at hslot
      obtain ⟨p, hp, kind, hslot⟩ := hhoused slot hslot
      obtain ⟨-, hsame⟩ | ⟨rel, hrel, q, -, -, -, -, hold⟩ := installed_rows htx p.name
      · refine ⟨p, ?_, kind, hslot⟩
        rw [mem_packages, hsame, ← mem_packages]
        exact hp
      · exact absurd ⟨rel, hrel, kind, by rw [← hold p (mem_packages.mp hp), hslot]⟩ hchanged

end

/-- A transfer keeps the places of the packages. -/
theorem transferred_sane {host : Legacy.Host} {groups : Json} {r : Registry} (hw : Sane w)
    (h : Legacy.migrateLegacyGroups host groups w.db.registry = .ok r) :
    Sane { w with db := { w.db with registry := r } } := by
  obtain ⟨⟨hrows, hlibs, happs⟩, hhoused⟩ := hw
  obtain ⟨gs, r₀, -, -, hopened, rfl⟩ := LegacyTransfers.migrateLegacyGroups_eq_ok.mp h
  have hpackage (name : String) : r₀.package name = w.db.registry.package name := by
    obtain ⟨-, rfl⟩ | ⟨-, hopened⟩ := hopened
    · rfl
    · refine package_congr ?_ name
      rw [migrateRegistration_tables hopened]
  have hcore (name : String) : ((LegacyTransfers.run host r₀ gs).package name).map LegacyTransfers.core =
      (w.db.registry.package name).map LegacyTransfers.core := by
    rw [(LegacyTransfers.run_kept host r₀ gs).core, hpackage]
  refine ⟨⟨fun p hp => ?_, hlibs, happs⟩, fun slot hslot => ?_⟩
  · have hp' := hcore p.name
    rw [mem_packages.mp hp] at hp'
    obtain ⟨q, hq, -⟩ := Option.map_eq_some_iff.mp hp'.symm
    obtain ⟨hq, hname⟩ := package_eq_some.mp hq
    exact hname ▸ hrows q hq
  · obtain ⟨p, hp, kind, rfl⟩ := hhoused slot hslot
    have hp' := hcore p.name
    rw [mem_packages.mp hp] at hp'
    obtain ⟨q, hq, hsame⟩ := Option.map_eq_some_iff.mp hp'
    obtain ⟨hq, hname⟩ := package_eq_some.mp hq
    simp only [LegacyTransfers.core, Prod.mk.injEq] at hsame
    have hstandard : standard q.id = standard p.id := hsame.2.2.2
    refine ⟨q, hq, kind, ?_⟩
    have hroot : rootOf q.id kind = rootOf p.id kind := by
      cases kind with
      | app => rfl
      | lib => rw [rootOf, rootOf, hstandard]
    exact congrArg₂ Slot.mk hroot hname

theorem migrateLegacy_triple {host : Legacy.Host} {groups : Json} :
    Triple Sane (migrateLegacy host groups : Op γ Unit) (fun _ => Sane) (fun _ => Sane) Sane := by
  refine triple_change (fun _ hw => hw) fun w w' hw hact => ?_
  split at hact
  · rename_i r hr
    cases hact
    exact transferred_sane hw hr
  · cases hact

/-- What other requests do to the world. -/
theorem program_triple (hw : Sane w₀) (work : Work γ) :
    Triple (fun w => w = w₀) (work.program inst) (fun _ => Sane)
      (fun f w => f.rolledBack = true → Sane w) fun _ => True := by
  cases work with
  | install items now n =>
      refine installPackages_triple.conseq (fun _ h => h) ?_
        (fun _ w h hf => (failing_alike h hf).sane hw) fun _ _ => trivial
      rintro _ _ ⟨ws, changed, r, wd, hplan, htx, hdone, rfl⟩
      exact installed_sane ((plan_alike hplan).sane hw) htx hdone
  | remove id n =>
      refine removePackage_triple.conseq (fun _ h => h) ?_
        (fun _ w h hf => (failing_alike h hf).sane hw) fun _ _ => trivial
      rintro _ w (⟨ho, -⟩ | ⟨ws, entries, tx, hplan, hdone⟩)
      · exact (opened_alike ho).sane hw
      · obtain ⟨w₁, ho, -, hquiet⟩ := hplan.opened
        refine (removes_of_done ho hplan hdone).sane ?_ ((opened_alike ho).sane hw)
        cases hplan.transaction with
        | remove _ hregistered _ _ =>
            rw [hquiet.db] at hregistered
            exact hregistered
  | transfer host groups =>
      exact migrateLegacy_triple.conseq (fun _ h => h ▸ hw) (fun _ _ h => h) (fun _ _ h _ => h)
        fun _ _ => trivial

theorem Alike.spares (h : Alike w w') : Spares expected w w' where
  rows p hp _ := h.packages ▸ hp
  capabilities p _ _ := by rw [entry, entry, h.capabilities]
  operations p _ _ := h.operations p.name
  files p _ _ kind := congrFun h.runtime _
  libs id _ := by rw [h.sandbox]
  apps id _ := by rw [h.sandbox]

theorem Removes.spares (h : Removes id w w') (htext : id.text = expected)
    (hregistered : (w.db.registry.registered id).isSome = true) : Spares expected w w' := by
  have hother (p : Package) (hp : p ∈ w.db.registry.packages) (hne : p.id.text ≠ expected) :
      p.id ≠ id ∧ p.name ≠ id.name := by
    have hid : p.id ≠ id := fun heq => hne (heq ▸ htext)
    exact ⟨hid, fun hname => hid (registered_id hregistered hp hname)⟩
  refine ⟨fun p hp hne => ?_, fun p hp hne => ?_, fun p hp hne => ?_, fun p hp hne kind => ?_,
    fun _ _ => by rw [h.sandbox], fun _ _ => by rw [h.sandbox]⟩
  · exact h.mem_packages.mpr ⟨(hother p hp hne).2, hp⟩
  · rw [Entry.removeTx_entry h.registry, if_neg (hother p hp hne).2]
  · rw [Entry.removeTx_entry h.registry, if_neg (hother p hp hne).2]
  · exact h.others _ fun kind' => other_slot hregistered hp (hother p hp hne).1 kind kind'

/-- A removal that fails in an open database spares the others, even if its rollback fails. -/
theorem removal_spares (ho : Opened w₀ w) (h : Failing inst w₀ n (.remove id) f w')
    (htext : id.text = expected) (hregistered : (w.db.registry.registered id).isSome = true) :
    Spares expected w w' := by
  obtain ⟨halike, hfiles⟩ := failing_spares h
  have hopened := opened_alike ho
  have hboth := hopened.symm.trans halike
  refine ⟨fun p hp _ => hboth.packages ▸ hp, fun p _ _ => ?_, fun p _ _ => hboth.operations p.name,
    fun p hp hne kind => ?_, fun id _ => ?_, fun id _ => ?_⟩
  · rw [entry, entry, ← hboth.capabilities]
  · have hid : p.id ≠ id := fun heq => hne (heq ▸ htext)
    rw [hfiles _ (other_slot hregistered hp hid kind), hopened.runtime]
  · exact congrArg (fun s => s.libs id) hboth.sandbox
  · exact congrArg (fun s => s.apps id) hboth.sandbox

theorem unload_spares (htext : id.text = expected) :
    Spares expected w { w with sandbox := Sandbox.without w.sandbox id } where
  rows _ hp _ := hp
  capabilities _ _ _ := rfl
  operations _ _ _ := rfl
  files _ _ _ _ := rfl
  libs _ hne := Function.update_of_ne (fun heq => hne ((congrArg Id.text heq).trans htext)) _ _
  apps _ hne := Function.update_of_ne (fun heq => hne ((congrArg Id.text heq).trans htext)) _ _

/-- Without its row the expected package is gone, as every file has an owner. -/
theorem gone_of_unregistered (hw : Sane w) (hid : validName id.name = true)
    (htext : id.text = expected) (hnone : w.db.registry.registered id = none) : Gone expected w := by
  have hrows (p : Package) (hp : p ∈ w.db.registry.packages) : p.id.text ≠ expected := by
    intro hp'
    have hpid : p.id = id := text_injective (hw.rows p hp) hid (hp'.trans htext.symm)
    rw [registered, List.find?_eq_none] at hnone
    exact hnone p hp (by rw [hpid, beq_self_eq_true])
  refine ⟨hrows, fun id' kind _ hslot => ?_⟩
  obtain ⟨p, hp, kind', hslot⟩ := hw.housed _ hslot
  exact ⟨p, hp, hrows p hp, kind', hslot⟩

theorem Removes.unregistered (h : Removes id w w') : w'.db.registry.registered id = none := by
  refine registered_of_package_none ?_
  rw [h.package, if_pos rfl]

theorem unloaded_of_named (hw : Named w) (hid : validName id.name = true)
    (htext : id.text = expected) : Unloaded expected (Sandbox.without w.sandbox id) := by
  have hupdate {m : Id → Option String} (h : ∀ other, m other ≠ none → validName other.name = true)
      (other : Id) (hother : other.text = expected) : Function.update m id none other = none := by
    by_cases heq : other = id
    · rw [heq, Function.update_self]
    · rw [Function.update_of_ne heq]
      by_contra hsome
      exact heq (text_injective (h other hsome) hid (hother.trans htext.symm))
  exact ⟨hupdate hw.libs, hupdate hw.apps⟩

end

/-- Which locks the request holds. -/
structure Locks {γ : Type} (s : Shared γ) (sandbox profile : Bool) : Prop where
  sane : Sane s.world
  sandboxLock : s.sandboxLock = some .request ↔ sandbox = true
  profileLock : s.profileLock = some .request ↔ profile = true

/-- What holds of the request after the events, phase by phase. -/
def Holds {γ : Type} (inst : Installer γ) (d : Deletion) (s₀ : Shared γ) (events : List (Event γ))
    (s : Shared γ) : Prop :=
  match s.phase with
  | .start => Locks s false false
  | .matched id => id.text = d.expected ∧ Locks s false false
  | .entered id => id.text = d.expected ∧ validId inst.normalizeName id = .ok () ∧ Locks s true false
  | .locked id => id.text = d.expected ∧ validId inst.normalizeName id = .ok () ∧ Locks s true true
  | .opened id => id.text = d.expected ∧ validId inst.normalizeName id = .ok () ∧ Locks s true true ∧
      ∃ w₀, Opened w₀ s.world
  | .checked id => id.text = d.expected ∧ validId inst.normalizeName id = .ok () ∧
      Locks s true true ∧ (∃ w₀, Opened w₀ s.world) ∧
      (s.world.db.registry.registered id).isSome = true
  | .removed id => id.text = d.expected ∧ validId inst.normalizeName id = .ok () ∧
      Locks s true false ∧ Committed inst d s₀ events id
  | .answered (.ok ()) => Answered inst d s₀ events
  | .answered (.error _) => True

section

variable {γ : Type} {inst : Installer γ} {d : Deletion} {s₀ s s' : Shared γ} {pid : Nat} {a : Act γ}
  {events : List (Event γ)} {id : Id} {sandbox profile : Bool} {fs : List (Fault (Leftover γ))}
  {w w' : World γ} {e : Event γ}

theorem act_phase (hact : act inst pid s a = some s') : s'.phase = s.phase := by
  cases a with
  | work work fs =>
      rw [act, Option.ite_none_right_eq_some] at hact
      obtain ⟨-, hact⟩ := hact
      split at hact
      · cases hact
        rfl
      · cases hact
        rfl
      · cases hact
  | enter | leave | lock | unlock | unload =>
      rw [act, Option.ite_none_right_eq_some] at hact
      obtain ⟨-, hact⟩ := hact
      cases hact
      rfl

/-- A step of another request leaves the locks of this one, and with both of them the world. -/
theorem act_locks (h : Locks s sandbox profile) (hrecovers : Recovers inst s (.other pid a))
    (hact : act inst pid s a = some s') : Locks s' sandbox profile ∧
      (sandbox = true → profile = true → s'.world = s.world) := by
  obtain ⟨hsane, hsandbox, hprofile⟩ := h
  have hfree {lock : Option Holder} {b : Bool} (hlock : lock = some .request ↔ b = true)
      (hnot : lock ≠ some .request) {lock' : Option Holder} (hnot' : lock' ≠ some .request) :
      lock' = some .request ↔ b = true :=
    ⟨fun heq => absurd heq hnot', fun hb => absurd (hlock.mpr hb) hnot⟩
  have hnone : (none : Option Holder) ≠ some .request := by rintro ⟨⟩
  have hother : some (Holder.other pid) ≠ some .request := by rintro ⟨⟩
  cases a with
  | enter =>
      rw [act, Option.ite_none_right_eq_some] at hact
      obtain ⟨hlock, hact⟩ := hact
      cases hact
      exact ⟨⟨hsane, hfree hsandbox (by rw [hlock]; exact hnone) hother, hprofile⟩, fun _ _ => rfl⟩
  | leave =>
      rw [act, Option.ite_none_right_eq_some] at hact
      obtain ⟨hlock, hact⟩ := hact
      cases hact
      exact ⟨⟨hsane, hfree hsandbox (by rw [hlock]; exact hother) hnone, hprofile⟩, fun _ _ => rfl⟩
  | lock =>
      rw [act, Option.ite_none_right_eq_some] at hact
      obtain ⟨hlock, hact⟩ := hact
      cases hact
      exact ⟨⟨hsane, hsandbox, hfree hprofile (by rw [hlock]; exact hnone) hother⟩, fun _ _ => rfl⟩
  | unlock =>
      rw [act, Option.ite_none_right_eq_some] at hact
      obtain ⟨hlock, hact⟩ := hact
      cases hact
      exact ⟨⟨hsane, hsandbox, hfree hprofile (by rw [hlock]; exact hother) hnone⟩, fun _ _ => rfl⟩
  | work work fs =>
      rw [act, Option.ite_none_right_eq_some] at hact
      obtain ⟨hpermitted, hact⟩ := hact
      have hlock : s.profileLock = some (.other pid) := by
        cases work <;> simp_all [Work.permitted]
      have htriple : Triple (fun w => w = s.world) (work.program inst) (fun _ => Sane)
          (fun f w => f.rolledBack = true → Sane w) fun _ => True := program_triple hsane work
      have hends := htriple fs s.world rfl
      have hexit : ∃ w, Sane w ∧ s' = { s with world := w } := by
        revert hact hends hrecovers
        rw [Recovers]
        obtain ⟨x, w, gs⟩ := work.program inst fs s.world
        cases x with
        | ok _ =>
            rintro - ⟨⟩ hw
            exact ⟨w, hw, rfl⟩
        | err f =>
            rintro hf ⟨⟩ hw
            exact ⟨w, hw (hf f w gs rfl), rfl⟩
        | crashed =>
            rintro - ⟨⟩
      obtain ⟨w, hw, rfl⟩ := hexit
      refine ⟨⟨hw, hsandbox, hprofile⟩, fun _ hboth => ?_⟩
      have hours := hprofile.mpr hboth
      rw [hlock] at hours
      exact absurd hours hother
  | unload id =>
      rw [act, Option.ite_none_right_eq_some] at hact
      obtain ⟨hlock, hact⟩ := hact
      cases hact
      refine ⟨⟨sane_unload hsane id, hsandbox, hprofile⟩, fun hboth _ => ?_⟩
      have hours := hsandbox.mpr hboth
      rw [hlock] at hours
      exact absurd hours hother

theorem Committed.other (h : Committed inst d s₀ events id) :
    Committed inst d s₀ (events ++ [.other pid a]) id := by
  obtain ⟨before, fs, between, u, v, rfl, hbefore, hstep, hphase, hlock, hgone, hbetween⟩ := h
  refine ⟨before, fs, between ++ [.other pid a], u, v, by simp, hbefore, hstep, hphase, hlock, hgone, ?_⟩
  exact List.forall_mem_append.mpr ⟨hbetween, List.forall_mem_singleton.mpr rfl⟩

theorem Answered.snoc (h : Answered inst d s₀ events) (e : Event γ) :
    Answered inst d s₀ (events ++ [e]) := by
  obtain ⟨before, fs, after, u, v, id, rfl, hrest⟩ := h
  exact ⟨before, fs, after ++ [e], u, v, id, by simp, hrest⟩

theorem act_holds (h : Holds inst d s₀ events s) (hrecovers : Recovers inst s (.other pid a))
    (hact : act inst pid s a = some s') : Holds inst d s₀ (events ++ [.other pid a]) s' := by
  have hlocks {sandbox profile : Bool} (hl : Locks s sandbox profile) := act_locks hl hrecovers hact
  have hsame := act_phase hact
  rw [Holds] at h
  split at h
  · rename_i hphase
    obtain ⟨hl, -⟩ := hlocks h
    rw [Holds, hsame, hphase]
    exact hl
  · rename_i hphase
    obtain ⟨htext, h⟩ := h
    obtain ⟨hl, -⟩ := hlocks h
    rw [Holds, hsame, hphase]
    exact ⟨htext, hl⟩
  · rename_i hphase
    obtain ⟨htext, hvalid, h⟩ := h
    obtain ⟨hl, -⟩ := hlocks h
    rw [Holds, hsame, hphase]
    exact ⟨htext, hvalid, hl⟩
  · rename_i hphase
    obtain ⟨htext, hvalid, h⟩ := h
    obtain ⟨hl, -⟩ := hlocks h
    rw [Holds, hsame, hphase]
    exact ⟨htext, hvalid, hl⟩
  · rename_i hphase
    obtain ⟨htext, hvalid, h, hopened⟩ := h
    obtain ⟨hl, hworld⟩ := hlocks h
    rw [Holds, hsame, hphase]
    rw [← hworld rfl rfl] at hopened
    exact ⟨htext, hvalid, hl, hopened⟩
  · rename_i hphase
    obtain ⟨htext, hvalid, h, hopened⟩ := h
    obtain ⟨hl, hworld⟩ := hlocks h
    rw [Holds, hsame, hphase]
    rw [← hworld rfl rfl] at hopened
    exact ⟨htext, hvalid, hl, hopened⟩
  · rename_i hphase
    obtain ⟨htext, hvalid, h, hcommitted⟩ := h
    obtain ⟨hl, -⟩ := hlocks h
    rw [Holds, hsame, hphase]
    exact ⟨htext, hvalid, hl, hcommitted.other⟩
  · rename_i hphase
    rw [Holds, hsame, hphase]
    exact h.snoc _
  · rename_i hphase
    rw [Holds, hsame, hphase]
    trivial

theorem run_eq_some {p : Op γ Unit} {next : World γ → Shared γ} (h : s.run p fs next = some s') :
    (∃ w gs, p fs s.world = (.ok (), w, gs) ∧ s' = next w) ∨
      ∃ f w gs, p fs s.world = (.err f, w, gs) ∧ s' = s.fail w f := by
  rw [Shared.run] at h
  split at h
  · rename_i w gs hrun
    cases h
    exact .inl ⟨w, gs, hrun, rfl⟩
  · rename_i f w gs hrun
    cases h
    exact .inr ⟨f, w, gs, hrun, rfl⟩
  · cases h

theorem readRegistered_cases (w : World γ) (d : Deletion) :
    (∃ id, id.text = d.expected ∧ readRegistered w d = .matched id) ∨
      readRegistered w d = .answered (.error identityChanged) := by
  rw [readRegistered]
  split
  · rename_i id _
    by_cases htext : id.text = d.expected
    · exact .inl ⟨id, htext, if_pos htext⟩
    · exact .inr (if_neg htext)
  · exact .inr rfl

theorem enterChecks_ok (h : enterChecks inst w d id = .ok ()) :
    validId inst.normalizeName id = .ok () := by
  obtain ⟨_, -, h⟩ := bind_eq_ok.mp h
  obtain ⟨_, hvalid, -⟩ := bind_eq_ok.mp h
  exact hvalid

/-- What a step of the request leaves of the others, and what holds after it. -/
def Advances (inst : Installer γ) (d : Deletion) (s₀ : Shared γ) (events : List (Event γ))
    (s s' : Shared γ) : Prop :=
  Spares d.expected s.world s'.world ∧ Holds inst d s₀ events s'

theorem fail_advances {f : Failure} (h : Spares d.expected s.world w) :
    Advances inst d s₀ events s (s.fail w f) :=
  ⟨h, trivial⟩

theorem open_advances (htext : id.text = d.expected)
    (hvalid : validId inst.normalizeName id = .ok ()) (hl : Locks s true true)
    (hrun : (s.run openDatabase fs fun w => { s with world := w, phase := .opened id }) = some s') :
    Advances inst d s₀ events s s' := by
  have htriple := @openDatabase_triple _ s.world (fun w => w = s.world ∨ Opened s.world w)
    fun _ h => h
  obtain ⟨w, gs, hopen, rfl⟩ | ⟨f, w, gs, hopen, rfl⟩ := run_eq_some hrun
  · have hopened := htriple.result rfl hopen
    have halike := opened_alike hopened
    refine ⟨halike.spares, htext, hvalid, ⟨halike.sane hl.sane, hl.sandboxLock, hl.profileLock⟩, ?_⟩
    exact ⟨s.world, hopened⟩
  · obtain rfl | hopened := htriple.error rfl hopen
    · exact fail_advances (Alike.refl _).spares
    · exact fail_advances (opened_alike hopened).spares

theorem check_advances (htrace : Trace (step inst d) (Recovers inst) s₀ events s)
    (hphase : s.phase = .opened id) (htext : id.text = d.expected)
    (hvalid : validId inst.normalizeName id = .ok ()) (hl : Locks s true true)
    (ho : ∃ w₀, Opened w₀ s.world) (hstep : advance inst d fs s = some s') :
    Advances inst d s₀ (events ++ [.request fs]) s s' := by
  have hcommit := hstep
  rw [advance, hphase] at hstep
  dsimp only at hstep
  split at hstep
  · rename_i hregistered
    cases hstep
    exact ⟨(Alike.refl _).spares, htext, hvalid, ⟨hl.sane, hl.sandboxLock, hl.profileLock⟩, ho,
      hregistered⟩
  · rename_i hnone
    cases hstep
    have hgone := gone_of_unregistered hl.sane (validName_of_validId hvalid) htext
      (Option.not_isSome_iff_eq_none.mp hnone)
    refine ⟨(Alike.refl _).spares, htext, hvalid, ⟨hl.sane, hl.sandboxLock, by simp⟩, ?_⟩
    exact ⟨events, fs, [], s, _, rfl, htrace, hcommit, rfl, hl.sandboxLock.mpr rfl, hgone,
      fun _ hmem => absurd hmem List.not_mem_nil⟩

theorem commit_advances (htrace : Trace (step inst d) (Recovers inst) s₀ events s)
    (hphase : s.phase = .checked id) (htext : id.text = d.expected)
    (hvalid : validId inst.normalizeName id = .ok ()) (hl : Locks s true true)
    (ho : ∃ w₀, Opened w₀ s.world)
    (hregistered : (s.world.db.registry.registered id).isSome = true)
    (hstep : advance inst d fs s = some s') :
    Advances inst d s₀ (events ++ [.request fs]) s s' := by
  have hcommit := hstep
  obtain ⟨w₀, ho⟩ := ho
  rw [advance, hphase] at hstep
  have htriple := removeRegistered_triple (n := d.stage) ho hvalid hregistered
  obtain ⟨w, gs, hrun, rfl⟩ | ⟨f, w, gs, hrun, rfl⟩ := run_eq_some hstep
  · obtain ⟨ws, entries, tx, hplan, hdone⟩ := htriple.result rfl hrun
    have hremoves := removes_of_done ho hplan hdone
    have hsane := hremoves.sane hregistered hl.sane
    have hgone := gone_of_unregistered hsane (validName_of_validId hvalid) htext hremoves.unregistered
    refine ⟨hremoves.spares htext hregistered, htext, hvalid, ⟨hsane, hl.sandboxLock, by simp⟩, ?_⟩
    exact ⟨events, fs, [], s, _, rfl, htrace, hcommit, rfl, hl.sandboxLock.mpr rfl, hgone,
      fun _ hmem => absurd hmem List.not_mem_nil⟩
  · exact fail_advances (removal_spares ho (htriple.error rfl hrun) htext hregistered)

/-- One step of the request. -/
theorem advance_advances (htrace : Trace (step inst d) (Recovers inst) s₀ events s)
    (h : Holds inst d s₀ events s) (hstep : advance inst d fs s = some s') :
    Advances inst d s₀ (events ++ [.request fs]) s s' := by
  have hcommit := hstep
  have hsame {w : World γ} : Spares d.expected w w := (Alike.refl w).spares
  rw [Holds] at h
  rw [advance] at hstep
  cases hphase : s.phase with
  | start =>
      rw [hphase] at h hstep
      cases hstep
      refine ⟨hsame, ?_⟩
      obtain ⟨id, htext, hread⟩ | hread := readRegistered_cases s.world d
      · rw [Holds, hread]
        exact ⟨htext, h.sane, h.sandboxLock, h.profileLock⟩
      · rw [Holds, hread]
        trivial
  | matched id =>
      rw [hphase] at h hstep
      obtain ⟨htext, hl⟩ := h
      obtain ⟨hlock, hstep⟩ := Option.ite_none_right_eq_some.mp hstep
      cases hstep
      split
      · exact ⟨hsame, trivial⟩
      · rename_i hchecks
        exact ⟨hsame, htext, enterChecks_ok hchecks, hl.sane, by simp, hl.profileLock⟩
  | entered id =>
      rw [hphase] at h hstep
      obtain ⟨htext, hvalid, hl⟩ := h
      obtain ⟨hlock, hstep⟩ := Option.ite_none_right_eq_some.mp hstep
      cases hstep
      exact ⟨hsame, htext, hvalid, hl.sane, hl.sandboxLock, by simp⟩
  | locked id =>
      rw [hphase] at h hstep
      obtain ⟨htext, hvalid, hl⟩ := h
      exact open_advances htext hvalid hl hstep
  | opened id =>
      rw [hphase] at h
      obtain ⟨htext, hvalid, hl, ho⟩ := h
      exact check_advances htrace hphase htext hvalid hl ho hcommit
  | checked id =>
      rw [hphase] at h
      obtain ⟨htext, hvalid, hl, ho, hregistered⟩ := h
      exact commit_advances htrace hphase htext hvalid hl ho hregistered hcommit
  | removed id =>
      rw [hphase] at h hstep
      obtain ⟨htext, hvalid, hl, hcommitted⟩ := h
      cases hstep
      have hunloaded := unloaded_of_named hl.sane.toNamed (validName_of_validId hvalid) htext
      refine ⟨unload_spares htext, ?_⟩
      exact ⟨events, fs, [], s, _, id, rfl, htrace, hcommitted, hphase, hl.sandboxLock.mpr rfl, hcommit,
        hunloaded⟩
  | answered result =>
      rw [hphase] at hstep
      cases hstep

theorem trace_holds (h : Trace (step inst d) (Recovers inst) s₀ events s) (hstart : Locks s₀ false false)
    (hphase : s₀.phase = .start) : Holds inst d s₀ events s := by
  induction h with
  | nil =>
      rw [Holds, hphase]
      exact hstart
  | @snoc events t e u htrace hrecovers hstep ih =>
      cases e with
      | request fs => exact (advance_advances htrace ih hstep).2
      | other pid a => exact act_holds ih hrecovers hstep

end

/-- In every interleaving no step of the request removes anything of another package; and when it
has been answered with success, the expected package was gone when it committed, and unloaded before
the lock of the sandbox was released. -/
theorem conditional_removal {γ : Type} {inst : Installer γ} {d : Deletion} {s₀ s : Shared γ}
    {events : List (Event γ)} (hsane : Sane s₀.world) (hphase : s₀.phase = .start)
    (hsandbox : s₀.sandboxLock ≠ some .request) (hprofile : s₀.profileLock ≠ some .request)
    (h : Trace (step inst d) (Recovers inst) s₀ events s) :
    (∀ fs s', step inst d s (.request fs) = some s' → Spares d.expected s.world s'.world) ∧
      (s.phase = .answered (.ok ()) → Answered inst d s₀ events) := by
  have hstart : Locks s₀ false false := ⟨hsane, by simp [hsandbox], by simp [hprofile]⟩
  have hholds := trace_holds h hstart hphase
  refine ⟨fun fs s' hstep => (advance_advances h hholds hstep).1, fun hanswered => ?_⟩
  rw [Holds, hanswered] at hholds
  exact hholds

def sampleWork : Work String := .install [sampleItem "base" "1.0.0" []] (fun _ => 100) ".pishoo-1"

def sampleDeletion : Deletion := ⟨"base", "alice.example/base", ".pishoo-2"⟩

def sampleWorld : World String := (sampleWork.program sampleInstaller [] emptyWorld).2.1

def sampleStart : Shared String := ⟨sampleWorld, none, none, .start⟩

/-- Between the reading of the id and the removal another request has the locks. -/
def sampleEvents : List (Event String) :=
  [.request [], .other 1 .enter, .other 1 .lock, .other 1 .unlock, .other 1 .leave, .request [],
    .request [], .request [], .request [], .request [], .request []]

theorem emptyWorld_sane : Sane emptyWorld := by
  refine ⟨⟨?_, ?_, ?_⟩, ?_⟩
  · rintro p ⟨⟩
  · exact fun id hid => absurd rfl hid
  · exact fun id hid => absurd rfl hid
  · exact fun slot hslot => absurd rfl hslot

theorem sampleWorld_sane : Sane sampleWorld := by
  have hok : (sampleWork.program sampleInstaller [] emptyWorld).1 = .ok () := by decide +kernel
  have hsane (w : World String) (gs) (h : sampleWork.program sampleInstaller [] emptyWorld =
      (.ok (), w, gs)) : Sane w :=
    (program_triple emptyWorld_sane sampleWork).result rfl h
  rw [sampleWorld]
  generalize hout : sampleWork.program sampleInstaller [] emptyWorld = out at hok ⊢
  obtain ⟨x, w, gs⟩ := out
  cases hok
  exact hsane w gs hout

def Event.isWork {γ : Type} : Event γ → Bool
  | .other _ (.work _ _) => true
  | _ => false

theorem recovers_of_idle {γ : Type} {inst : Installer γ} {s : Shared γ} {e : Event γ}
    (h : e.isWork = false) : Recovers inst s e := by
  cases e with
  | request fs => trivial
  | other pid a =>
      cases a with
      | work work fs => cases h
      | enter | leave | lock | unlock | unload => trivial

def Phase.succeeded : Phase → Bool
  | .answered (.ok _) => true
  | _ => false

theorem conditional_removal_base : ∃ s : Shared String,
    Trace (step sampleInstaller sampleDeletion) (Recovers sampleInstaller) sampleStart sampleEvents s ∧
      s.phase = .answered (.ok ()) ∧
        Answered sampleInstaller sampleDeletion sampleStart sampleEvents := by
  have hsome : ((run (step sampleInstaller sampleDeletion) (fun _ e => e.isWork = false) sampleStart
      sampleEvents).map fun s => s.phase.succeeded) = some true := by
    decide +kernel
  obtain ⟨s, hrun, hsucceeded⟩ := Option.map_eq_some_iff.mp hsome
  have htrace : Trace (step sampleInstaller sampleDeletion) (Recovers sampleInstaller) sampleStart
      sampleEvents s := (trace_of_run hrun).mono fun _ _ => recovers_of_idle
  have hphase : s.phase = .answered (.ok ()) := by
    cases hphase : s.phase with
    | answered result =>
        rw [hphase] at hsucceeded
        cases result with
        | ok _ => rfl
        | error e => cases hsucceeded
    | _ =>
        rw [hphase] at hsucceeded
        cases hsucceeded
  have hsane : Sane sampleStart.world := by
    simp only [sampleStart]
    exact sampleWorld_sane
  exact ⟨s, htrace, hphase, (conditional_removal hsane rfl (by rintro ⟨⟩) (by rintro ⟨⟩)
    htrace).2 hphase⟩

end Pishoo.ConditionalRemoval
