import Pishoo.Acceptance
import Pishoo.InstallationOutcome
import Pishoo.Machine

namespace Pishoo.LoadedSandbox

open Result World Prog PackageFiles Registry Registration Installation Machine

variable {γ : Type}

def holds (p : Package) : Kind → Bool
  | .lib => p.hasLib
  | .app => p.hasApp

def versionOf (kind : Kind) (p : Package) : Option String :=
  if holds p kind then some p.version else none

/-- Each loaded library is read from its file; each frontend directory is opened. -/
def openRegistered (kind : Kind) (p : Package) : Op γ Unit := do
  sync
  let w ← get
  ofExcept (failIf ((w.runtime (slotOf p.id kind)).isSome = false) notFound)

def loaded (inst : Installer γ) (w : World γ) : Sandbox where
  libs id := (w.db.registry.registered id).bind fun p =>
    if p.hasLib then (w.runtime (slotOf id .lib)).map inst.libVersion else none
  apps id := (w.db.registry.registered id).bind (versionOf .app)
  closed := w.sandbox.closed

def loadLibs (inst : Installer γ) : Op γ Unit := do
  sync
  let w ← get
  forEach (w.db.registry.packages.filter Package.hasLib) (openRegistered .lib)
  forEach (w.db.registry.packages.filter Package.hasApp) (openRegistered .app)
  modify fun w => { w with sandbox := loaded inst w }

inductive Request
  | install (items : List Item) (now : String → Int) (n : String)
  | delete (name : String) (expected : Option String) (n : String)

def serve (inst : Installer γ) : Request → Op γ Unit
  | .install items now n => installPackages inst items now n
  | .delete name expected n => pkgManagementRequest inst name expected n

/-- A request that is answered, with success or with an error. -/
def step (inst : Installer γ) (w : World γ) (e : Request × List (Fault (Leftover γ))) :
    Option (World γ) :=
  match serve inst e.1 e.2 w with
  | (.ok _, w', _) => some w'
  | (.err _, w', _) => some w'
  | (.crashed, _, _) => none

/-- `validate_contents` has compared the version in the component with that of the manifest. -/
def Validated (inst : Installer γ) (_ : World γ) : Request × List (Fault (Leftover γ)) → Prop
  | (.install items _ _, _) => ∀ item ∈ items, ∀ rel, item.evidence = .ok rel →
      rel.hasLib = true → inst.libVersion (inst.contents rel .lib) = rel.version
  | (.delete .., _) => True

/-- The files of registered libraries are those of the registered versions. -/
def Matching (inst : Installer γ) (w : World γ) : Prop :=
  ∀ p ∈ w.db.registry.packages, p.hasLib = true → ∀ c, w.runtime (slotOf p.id .lib) = some c →
    inst.libVersion c = p.version

/-- The maps hold the registered packages, each with its version under its full id. -/
structure Mirrors (w : World γ) : Prop where
  libs : ∀ id, w.sandbox.libs id = (w.db.registry.registered id).bind (versionOf .lib)
  apps : ∀ id, w.sandbox.apps id = (w.db.registry.registered id).bind (versionOf .app)

section

variable {inst : Installer γ} {w₀ w₁ w ws : World γ} {n name : String} {call : Call} {f : Failure}
  {items : List Item} {now : String → Int} {id : Id} {expected : Option String}
  {entries : List (Id × String)} {tx : Database} {changed : List Release} {r : Registry}

theorem openRegistered_triple {kind : Kind} {p : Package} :
    Triple (fun w' => w' = w) (openRegistered kind p)
      (fun _ w' => w' = w ∧ (w.runtime (slotOf p.id kind)).isSome = true)
      (fun _ _ => True) fun _ => True := by
  refine Triple.bind (triple_sync fun _ _ => trivial) fun _ => Triple.get fun w' hw' =>
    Triple.ofExcept ?_ fun _ _ _ _ => trivial
  rintro _ v hok rfl
  subst hw'
  exact ⟨rfl, Bool.not_eq_false _ ▸ failIf_eq_ok.mp hok⟩

theorem openAll_triple {kind : Kind} (l : List Package) :
    Triple (fun w' => w' = w) (forEach l (openRegistered kind))
      (fun _ w' => w' = w ∧ ∀ p ∈ l, (w.runtime (slotOf p.id kind)).isSome = true)
      (fun _ _ => True) fun _ => True := by
  refine (Triple.forEach (I := fun (before : List Package) _ w' => w' = w ∧
    ∀ p ∈ before, (w.runtime (slotOf p.id kind)).isSome = true) fun before p after _ =>
      Triple.intro ?_).pre fun _ h => ⟨h, by simp⟩
  rintro _ ⟨rfl, hbefore⟩
  refine openRegistered_triple.post ?_
  rintro _ _ ⟨rfl, hp⟩
  refine ⟨rfl, fun q hq => ?_⟩
  obtain hq | hq := List.mem_append.mp hq
  · exact hbefore q hq
  · rw [List.mem_singleton.mp hq]
    exact hp

theorem loadLibs_triple (hfiles : Matching inst w₀) :
    Triple (fun w => w = w₀) (loadLibs inst) (fun _ => Mirrors) (fun _ _ => True) fun _ => True := by
  refine Triple.bind (triple_sync fun _ _ => trivial) fun _ => Triple.get fun w hw => ?_
  subst hw
  refine Triple.bind (openAll_triple _) fun _ => Triple.intro ?_
  rintro _ ⟨rfl, hlibs⟩
  refine Triple.bind (openAll_triple _) fun _ => Triple.modify ?_
  rintro v ⟨rfl, -⟩
  refine ⟨fun pkg => ?_, fun _ => rfl⟩
  refine Option.bind_congr fun p hp => ?_
  have hmem : p ∈ v.db.registry.packages := List.mem_of_find?_eq_some hp
  have hid : p.id = pkg := by simpa using List.find?_some hp
  unfold versionOf holds
  split
  · rename_i hlib
    have hsome := hlibs p (List.mem_filter.mpr ⟨hmem, hlib⟩)
    obtain ⟨c, hc⟩ := Option.isSome_iff_exists.mp hsome
    rw [← hid, hc, Option.map_some, hfiles p hmem hlib c hc]
  · rfl

/-- The package rows and the maps are those of `w₀`. -/
structure Still (w₀ w : World γ) : Prop where
  packages : w.db.registry.packages = w₀.db.registry.packages
  sandbox : w.sandbox = w₀.sandbox

theorem Still.mirrors (h : Still w₀ w) (hm : Mirrors w₀) : Mirrors w := by
  have hregistered (pkg : Id) : w.db.registry.registered pkg = w₀.db.registry.registered pkg := by
    rw [registered, registered, h.packages]
  refine ⟨fun pkg => ?_, fun pkg => ?_⟩
  · rw [h.sandbox, hregistered]
    exact hm.libs pkg
  · rw [h.sandbox, hregistered]
    exact hm.apps pkg

theorem Still.congr (h : Still w₀ w₁) (hdb : w.db = w₁.db) (hsandbox : w.sandbox = w₁.sandbox) :
    Still w₀ w :=
  ⟨hdb ▸ h.packages, hsandbox.trans h.sandbox⟩

theorem Opened.still (h : Opened w₀ w) : Still w₀ w := by
  refine ⟨?_, h.sandbox⟩
  rw [migrateRegistration_tables h.registry]

theorem Before.still (h : Before w₀ n w) : Still w₀ w := by
  cases h with
  | unopened h => exact h ▸ ⟨rfl, rfl⟩
  | opened h => exact Opened.still h
  | staging w₁ ho _ h => exact (Opened.still ho).congr h.db h.sandbox

theorem Plan.still (h : Plan inst w₀ n call ws entries tx) : Still w₀ ws := by
  obtain ⟨w₁, ho, hfree, hquiet⟩ := h.opened
  exact Before.still (.staging w₁ ho hfree hquiet)

theorem Failing.still (h : Failing inst w₀ n call f w) : Still w₀ w := by
  obtain hbefore | ⟨ws, entries, tx, hplan, hfailed⟩ := h
  · exact Before.still hbefore
  · have hstill := Plan.still hplan
    cases hfailed with
    | old h =>
        cases h with
        | untouched h => exact hstill.congr h.db h.frame.sandbox
        | switching h _ => exact hstill.congr h.db h.frame.sandbox
    | rollback h _ => exact hstill.congr h.db h.frame.sandbox

/-- The rows and the maps are switched for the same packages. -/
theorem mirrors_installed (hm : Mirrors ws)
    (hversions : ∀ item ∈ items, ∀ rel, item.evidence = .ok rel → rel.hasLib = true →
      inst.libVersion (inst.contents rel .lib) = rel.version)
    (htx : installTx inst.normalizeName ws.db.registry ws.sandbox items now = .ok (changed, r))
    (hdb : w.db.registry = r) (hsandbox : w.sandbox = switched inst changed ws.sandbox) :
    Mirrors w := by
  obtain ⟨hexamine, hsave⟩ := examineAll_of_installTx htx
  have hnames := examineAll_nodup htx
  have hrow (pkg : Id) : (∃ rel ∈ changed, rel.id = pkg ∧
      changed.find? (fun rel => rel.id == pkg) = some rel ∧ ∃ p, r.registered pkg = some p ∧
      p.version = rel.version ∧ p.hasLib = rel.hasLib ∧ p.hasApp = rel.hasApp) ∨
      changed.find? (fun rel => rel.id == pkg) = none ∧
        r.registered pkg = ws.db.registry.registered pkg := by
    cases hfind : changed.find? (fun rel => rel.id == pkg) with
    | some rel =>
        have hrel := List.mem_of_find?_eq_some hfind
        obtain rfl : rel.id = pkg := by simpa using List.find?_some hfind
        obtain ⟨ha, hv, hl, happ, -⟩ := row_fields rel (ws.db.registry.package rel.id.name)
          (now rel.id.name)
        exact .inl ⟨rel, hrel, rfl, rfl, _,
          registered_eq_some.mpr ⟨saveAll_package hsave hnames hrel, ha⟩, hv, hl, happ⟩
    | none =>
        refine .inr ⟨rfl, ?_⟩
        by_cases hname : pkg.name ∈ changed.map fun rel => rel.id.name
        · obtain ⟨rel, hrel, hname⟩ := List.mem_map.mp hname
          have hne : rel.id ≠ pkg := by simpa using List.find?_eq_none.mp hfind rel hrel
          have hauthor : rel.id.author ≠ pkg.author := fun ha => hne (by
            cases hrid : rel.id
            cases pkg
            simp_all)
          have hp := saveAll_package hsave hnames hrel
          have hafter : r.registered pkg = none := by
            rw [hname] at hp
            rw [registered_of_package hp, if_neg]
            rw [(row_fields _ _ _).1]
            exact hauthor
          rw [hafter, eq_comm]
          cases hold : ws.db.registry.package pkg.name with
          | none => exact registered_of_package_none hold
          | some p =>
              obtain ⟨item, -, haccepted⟩ := accepted_of_mem hexamine hrel
              have hpid := haccepted.package_id (hname ▸ hold)
              rw [registered_of_package hold, if_neg]
              intro ha
              exact hauthor (by rw [← ha, ← hpid]; rfl)
        · exact registered_congr (saveAll_package_other hsave hname)
  refine ⟨fun pkg => ?_, fun pkg => ?_⟩
  · rw [hsandbox, hdb]
    obtain ⟨rel, hrel, -, hfind, p, hp, hv, hl, -⟩ | ⟨hfind, hsame⟩ := hrow pkg
    · simp only [switched, hfind, hp, Option.bind_some, versionOf, holds, hl, hv]
      split
      · rename_i hlib
        obtain ⟨item, hitem, haccepted⟩ := accepted_of_mem hexamine hrel
        rw [hversions item hitem rel haccepted.evidence hlib]
      · rfl
    · simp only [switched, hfind, hsame]
      exact hm.libs pkg
  · rw [hsandbox, hdb]
    obtain ⟨rel, -, -, hfind, p, hp, hv, -, ha⟩ | ⟨hfind, hsame⟩ := hrow pkg
    · simp only [switched, hfind, hp, Option.bind_some, versionOf, holds, ha, hv]
    · simp only [switched, hfind, hsame]
      exact hm.apps pkg

theorem mirrors_removed (hm : Mirrors ws) {pkg : Id} (htx : removeTx ws.db.registry pkg = .ok r)
    (hregistered : (ws.db.registry.registered pkg).isSome = true) (hdb : w.db.registry = r)
    (hsandbox : w.sandbox = Sandbox.without ws.sandbox pkg) : Mirrors w := by
  obtain ⟨p, hp⟩ := Option.isSome_iff_exists.mp hregistered
  obtain ⟨hp, ha⟩ := registered_eq_some.mp hp
  have hrow (other : Id) : other = pkg ∧ r.registered other = none ∨
      other ≠ pkg ∧ r.registered other = ws.db.registry.registered other := by
    by_cases hother : other = pkg
    · subst hother
      refine .inl ⟨rfl, registered_of_package_none ?_⟩
      rw [removeTx_package htx, if_pos rfl]
    · refine .inr ⟨hother, ?_⟩
      by_cases hname : other.name = pkg.name
      · have hafter : r.package other.name = none := by rw [removeTx_package htx, if_pos hname]
        rw [registered_of_package_none hafter, registered_of_package (hname ▸ hp), if_neg]
        intro hauthor
        apply hother
        cases other
        cases pkg
        simp_all
      · exact registered_congr (by rw [removeTx_package htx, if_neg hname])
  refine ⟨fun other => ?_, fun other => ?_⟩
  · rw [hsandbox, hdb, Sandbox.without]
    obtain ⟨rfl, hnone⟩ | ⟨hne, hsame⟩ := hrow other
    · simp [hnone]
    · simp only [Function.update_of_ne hne, hsame]
      exact hm.libs other
  · rw [hsandbox, hdb, Sandbox.without]
    obtain ⟨rfl, hnone⟩ | ⟨hne, hsame⟩ := hrow other
    · simp [hnone]
    · simp only [Function.update_of_ne hne, hsame]
      exact hm.apps other

theorem install_mirrors (hm : Mirrors w₀)
    (hversions : ∀ item ∈ items, ∀ rel, item.evidence = .ok rel → rel.hasLib = true →
      inst.libVersion (inst.contents rel .lib) = rel.version) :
    Triple (fun w => w = w₀) (installPackages inst items now n) (fun _ => Mirrors)
      (fun _ => Mirrors) fun _ => True := by
  refine installPackages_triple.conseq (fun _ h => h) ?_
    (fun _ w h => (Failing.still h).mirrors hm) fun _ _ => trivial
  rintro _ _ ⟨ws, changed, r, wd, hplan, htx, hdone, rfl⟩
  refine mirrors_installed ((Plan.still hplan).mirrors hm) hversions htx ?_ ?_
  · exact congrArg Database.registry hdone.db
  · exact congrArg (switched inst changed) hdone.frame.sandbox

theorem remove_mirrors (hm : Mirrors w₀) {pkg : Id} :
    Triple (fun w => w = w₀) (do
        removePackage inst pkg n
        modify fun w => { w with sandbox := Sandbox.without w.sandbox pkg })
      (fun _ => Mirrors) (fun _ => Mirrors) fun _ => True := by
  refine Triple.bind (removePackage_triple.conseq (fun _ h => h) (fun _ _ h => h)
    (fun _ w h => (Failing.still h).mirrors hm) fun _ _ => trivial) fun _ => Triple.modify ?_
  rintro w (⟨ho, hnone⟩ | ⟨ws, entries, tx, hplan, hdone⟩)
  · have hw := (Opened.still ho).mirrors hm
    refine ⟨fun other => ?_, fun other => ?_⟩
    · by_cases hother : other = pkg
      · simp [Sandbox.without, hother, hnone]
      · simp only [Sandbox.without, Function.update_of_ne hother]
        exact hw.libs other
    · by_cases hother : other = pkg
      · simp [Sandbox.without, hother, hnone]
      · simp only [Sandbox.without, Function.update_of_ne hother]
        exact hw.apps other
  · have hws := (Plan.still hplan).mirrors hm
    cases hplan.transaction with
    | remove _ hregistered htx _ =>
        refine mirrors_removed hws htx hregistered ?_ ?_
        · exact congrArg Database.registry hdone.db
        · exact congrArg (Sandbox.without · pkg) hdone.frame.sandbox

theorem delete_mirrors (hm : Mirrors w₀) :
    Triple (fun w => w = w₀) (pkgManagementRequest inst name expected n) (fun _ => Mirrors)
      (fun _ => Mirrors) fun _ => True := by
  have hstart (w : World γ) (h : w = w₀) : Mirrors w := h ▸ hm
  refine Triple.bind ((triple_sync hstart).stop (fun _ _ h => h) fun _ _ => trivial) fun _ =>
    Triple.get fun w hw => ?_
  subst hw
  refine Triple.bind (R := fun _ w' => w' = w) (Triple.ofExcept (fun _ _ _ h => h) fun _ _ _ =>
    hstart _) fun _ => Triple.bind (R := fun _ w' => w' = w) (Triple.ofExcept (fun _ _ _ h => h)
      fun _ _ _ => hstart _) fun _ => ?_
  cases (w.db.registry.package name).map Package.id with
  | none => exact Triple.pure hstart
  | some pkg =>
      exact Triple.bind (R := fun _ w' => w' = w) (Triple.ofExcept (fun _ _ _ h => h) fun _ _ _ =>
        hstart _) fun _ => Triple.bind (R := fun _ w' => w' = w) (Triple.ofExcept (fun _ _ _ h => h)
          fun _ _ _ => hstart _) fun _ => remove_mirrors hm

theorem step_mirrors {e : Request × List (Fault (Leftover γ))} (hm : Mirrors w)
    (hv : Validated inst w e) (h : step inst w e = some w₁) : Mirrors w₁ := by
  have htriple : Triple (fun w' => w' = w) (serve inst e.1) (fun _ => Mirrors) (fun _ => Mirrors)
      fun _ => True := by
    obtain ⟨request, fs⟩ := e
    cases request with
    | install items now n => exact install_mirrors hm hv
    | delete name expected n => exact delete_mirrors hm
  have hends := htriple e.2 w rfl
  unfold step at h
  revert hends h
  obtain ⟨x, w', gs⟩ := serve inst e.1 e.2 w
  cases x with
  | ok _ =>
      rintro ⟨⟩ h
      exact h
  | err _ =>
      rintro ⟨⟩ h
      exact h
  | crashed => simp

end

/-- From the start of the process on the loaded maps mirror the registry. -/
theorem loaded_mirrors {inst : Installer γ} {w₀ w₁ w : World γ} {fs gs : List (Fault (Leftover γ))}
    {es : List (Request × List (Fault (Leftover γ)))} (hfiles : Matching inst w₀)
    (hload : loadLibs inst fs w₀ = (.ok (), w₁, gs))
    (h : Trace (step inst) (Validated inst) w₁ es w) : Mirrors w :=
  h.invariant ((loadLibs_triple hfiles).result rfl hload) fun _ _ _ hm hv hs => step_mirrors hm hv hs

def started : World String := (loadLibs sampleInstaller [] emptyWorld).2.1

def sampleInstall (version n : String) : Request × List (Fault (Leftover String)) :=
  (.install [sampleItem "base" version []] (fun _ => 100) n, [])

def stepped (w : World String) (e : Request × List (Fault (Leftover String))) : World String :=
  (step sampleInstaller w e).getD w

def installed : World String := stepped started (sampleInstall "1.0.0" ".pishoo-1")

def upgraded : World String := stepped installed (sampleInstall "1.1.0" ".pishoo-2")

theorem step_of_isSome {w : World String} {e : Request × List (Fault (Leftover String))}
    (h : (step sampleInstaller w e).isSome = true) :
    step sampleInstaller w e = some (stepped w e) := by
  obtain ⟨v, hv⟩ := Option.isSome_iff_exists.mp h
  rw [stepped, hv]
  rfl

theorem validated_sample (w : World String) (version n : String) :
    Validated sampleInstaller w (sampleInstall version n) := by
  intro item hitem rel hrel _
  rw [List.mem_singleton.mp hitem] at hrel
  cases hrel
  rfl

/-- A library is installed and upgraded. -/
theorem loaded_mirrors_run : Mirrors upgraded ∧
    upgraded.sandbox.libs ⟨some "alice.example", "base"⟩ = some "1.1.0" := by
  have hload : (loadLibs sampleInstaller [] emptyWorld).1 = .ok () := by decide +kernel
  have hrun : loadLibs sampleInstaller [] emptyWorld =
      (.ok (), started, (loadLibs sampleInstaller [] emptyWorld).2.2) :=
    Prod.ext hload rfl
  have hmatching : Matching sampleInstaller emptyWorld := fun p hp => absurd hp List.not_mem_nil
  have hinstall : (step sampleInstaller started (sampleInstall "1.0.0" ".pishoo-1")).isSome = true := by
    decide +kernel
  have hupgrade : (step sampleInstaller installed (sampleInstall "1.1.0" ".pishoo-2")).isSome =
      true := by
    decide +kernel
  refine ⟨loaded_mirrors hmatching hrun ((Trace.nil.snoc (validated_sample _ _ _)
    (step_of_isSome hinstall)).snoc (validated_sample _ _ _) (step_of_isSome hupgrade)), ?_⟩
  decide +kernel

end Pishoo.LoadedSandbox
