import Pishoo.DependencyGraph
import Pishoo.LegacyTransfers
import Pishoo.LoadedSandbox
import Pishoo.Settings

namespace Pishoo.Mounts

open Result PathText Registry Registration Installation ProxyRules Settings

def kindText : Kind → String
  | .lib => "lib"
  | .app => "app"

def mountOf (id : Id) : Kind → Text
  | .app => appMount id.name
  | .lib => libMount id.name

/-- The test of an installation, which reads a location without its slashes at the end. -/
def conflicts (mount location : Text) : Bool := below mount (Router.trimEnd (pathOf location))

def checkLocation (kind : Kind) (mount location : Text) : Except Error Unit :=
  failIf (conflicts mount location = true) (conflict (kindText kind ++ " " ++ String.ofList mount ++
    " conflicts with configured proxy " ++ String.ofList location))

/-- `check_routes`. What it finds about the routes of the other packages is given. -/
def checkRoutes (locations : List Text) (others : Kind → Except Error Unit) (id : Id) (kind : Kind) :
    Except Error Unit := do
  doIf (kind = .app ∨ standard id = false) (locations.forM (checkLocation kind (mountOf id kind)))
  others kind

/-- The database of the settings, with the registry that is attached to it. -/
structure System where
  settings : Settings.Store
  registry : Registry
  attached : settings.packages = registry.packages

/-- A transaction with what surrounds it. The routes of an item are those of its `check_routes` that
concern other packages. -/
inductive Operation
  | configure (env : Environment) (r : Settings.Request)
  | install (sandbox : Sandbox) (items : List Item) (now : String → Int) (finished : Bool)
  | remove (id : Id) (finished : Bool)
  | transfer (host : Legacy.Host) (groups : Json)

def routed (locations : List Text) (item : Item) : Item :=
  { item with routes := checkRoutes locations item.routes item.id }

/-- The registry after an operation that leaves the settings. -/
def written (normalizeName : String → Option String) (locations : List Text) (r : Registry) :
    Operation → Registry
  | .configure _ _ => r
  | .install sandbox items now finished => (DependencyGraph.step normalizeName r
      (.install sandbox (items.map (routed locations)) now finished)).getD r
  | .remove id finished => (DependencyGraph.step normalizeName r (.remove id finished)).getD r
  | .transfer host groups => DependencyGraph.committed r (Legacy.migrateLegacyGroups host groups r)

def locationsOf (d : Settings.Store) : List Text := d.mounts.map Prod.fst

def configured (h : Http) (d : Settings.Store) : Operation → Settings.Store
  | .configure env r => (configDatabase h env d r).2
  | _ => d

def step (h : Http) (normalizeName : String → Option String) (s : System) (o : Operation) : System where
  settings := { configured h s.settings o with
    packages := (written normalizeName (locationsOf s.settings) s.registry o).packages }
  registry := written normalizeName (locationsOf s.settings) s.registry o
  attached := rfl

def run (h : Http) (normalizeName : String → Option String) (s : System) (os : List Operation) :
    System :=
  os.foldl (step h normalizeName) s

/-- The package has what the other one has, and where it has it. -/
structure Placed (p q : Package) : Prop where
  name : q.name = p.name
  hasLib : q.hasLib = p.hasLib
  hasApp : q.hasApp = p.hasApp
  ordinary : ordinary q = ordinary p

/-- Each package is an old one, or has been checked against the locations. -/
def Guarded (locations : List Text) (r r' : Registry) : Prop :=
  ∀ q ∈ r'.packages, (∃ p ∈ r.packages, Placed p q) ∨
    validName q.name = true ∧ ∀ kind, LoadedSandbox.holds q kind = true →
      kind = .app ∨ standard q.id = false → ∀ location ∈ locations,
        conflicts (mountOf q.id kind) location = false

section

variable {mount location path : Text} {name : String} {r r' : Registry} {locations : List Text}
  {id : Id} {kind : Kind} {others : Kind → Except Error Unit}

theorem below_iff {text : Text} : below mount text = true ↔
    text = mount ∨ ∃ rest, text = mount ++ '/' :: rest := by
  rw [below, Bool.or_eq_true, beq_iff_eq, Option.any_eq_true]
  refine or_congr_right ?_
  simp only [strip_eq_some, beq_iff_eq, List.head?_eq_some_iff]
  constructor
  · rintro ⟨_, htext, rest, rfl⟩
    exact ⟨rest, htext⟩
  · rintro ⟨rest, htext⟩
    exact ⟨_, htext, rest, rfl⟩

theorem occupies_iff : occupies mount location = true ↔
    pathOf location = mount ∨ ∃ rest, pathOf location = mount ++ '/' :: rest := by
  rw [occupies, Bool.or_eq_true, beq_iff_eq, starts_iff]
  simp

theorem pathOf_path (h : path.head? = some '/') : pathOf path = path := by
  rw [pathOf, strip_eq_none.mpr, Option.getD_none]
  rintro rest rfl
  have hmark : exactMark ++ rest = '=' :: ' ' :: rest := rfl
  rw [hmark] at h
  cases h

/-- A path with at most one slash at its end is below a mount whether or not it is trimmed. -/
theorem below_trimEnd (hpath : ∀ start, path ≠ start ++ ['/', '/'])
    (hmount : ∀ start, mount ≠ start ++ ['/']) :
    below mount (Router.trimEnd path) = true ↔ below mount path = true := by
  have hcases : (∀ start, path ≠ start ++ ['/']) ∨ ∃ short, path = short ++ ['/'] := by
    by_cases h : ∃ short, path = short ++ ['/']
    · exact .inr h
    · exact .inl fun start heq => h ⟨start, heq⟩
  obtain hplain | ⟨short, rfl⟩ := hcases
  · rw [trimEnd_eq hplain]
  · have hshort (start : Text) : short ≠ start ++ ['/'] := by
      rintro rfl
      exact hpath start (by simp)
    rw [trimEnd_concat hshort, below_iff, below_iff]
    constructor
    · rintro (rfl | ⟨rest, rfl⟩)
      · exact .inr ⟨[], by simp⟩
      · exact .inr ⟨rest ++ ['/'], by simp⟩
    · rintro (hsame | ⟨rest, hrest⟩)
      · exact absurd hsame.symm (hmount short)
      · obtain rfl | ⟨start, c, rfl⟩ := List.eq_nil_or_concat rest
        · exact .inl (List.append_cancel_right hrest)
        · refine .inr ⟨start, ?_⟩
          rw [List.concat_eq_append, ← List.cons_append, ← List.append_assoc] at hrest
          exact (List.append_inj' hrest rfl).1

theorem mountOf_plain (h : validName id.name = true) (kind : Kind) (start : Text) :
    mountOf id kind ≠ start ++ ['/'] := by
  have hslash := validName_ne_slash h
  have hne : id.name.toList ≠ [] := by
    intro hempty
    rw [validName, hempty] at h
    simp at h
  have hmount : ∃ before, mountOf id kind = before ++ id.name.toList := by
    cases kind with
    | app => exact ⟨chars "/app/", rfl⟩
    | lib => exact ⟨['/'], rfl⟩
  obtain ⟨before, hmount⟩ := hmount
  rw [hmount]
  intro heq
  have hlast := congrArg List.getLast? heq
  rw [List.getLast?_append_of_ne_nil _ hne, List.getLast?_concat] at hlast
  exact hslash (List.mem_of_getLast? hlast)

/-- Both tests give the same answer for a valid location. -/
theorem conflicts_eq_occupies (hlocation : validPath (pathOf location) = true)
    (hid : validName id.name = true) (kind : Kind) :
    conflicts (mountOf id kind) location = occupies (mountOf id kind) location := by
  have hhead : (pathOf location).head? = some '/' := by
    simp only [validPath, Bool.and_eq_true, beq_iff_eq] at hlocation
    exact hlocation.1.1.1.1
  have hsame := pathOf_path hhead
  have hpath : ∀ start, pathOf location ≠ start ++ ['/', '/'] :=
    single_slash (by rw [hsame]; exact hlocation)
  rw [Bool.eq_iff_iff, conflicts, below_trimEnd hpath (mountOf_plain hid kind), below_iff, occupies_iff]

theorem checkRoutes_ok {u : Unit} (h : checkRoutes locations others id kind = .ok u)
    (hkind : kind = .app ∨ standard id = false) (hlocation : location ∈ locations) :
    conflicts (mountOf id kind) location = false := by
  obtain ⟨_, hlocations, -⟩ := bind_eq_ok.mp h
  have hchecks := forM_eq_ok.mp (doIf_eq_ok.mp hlocations hkind)
  exact Bool.eq_false_iff.mpr (failIf_eq_ok.mp (hchecks location hlocation))

theorem Placed.refl (p : Package) : Placed p p := ⟨rfl, rfl, rfl, rfl⟩

theorem Guarded.of_same (h : r'.packages = r.packages) : Guarded locations r r' :=
  fun q hq => .inl ⟨q, h ▸ hq, .refl q⟩

theorem Guarded.of_package (h : ∀ q, r'.package q.name = some q → r.package q.name = some q) :
    Guarded locations r r' := by
  intro q hq
  have hq' := h q (package_eq_some.mpr ⟨hq, rfl⟩)
  exact .inl ⟨q, (package_eq_some.mp hq').1, .refl q⟩

theorem Guarded.after {r₀ : Registry} (h : Guarded locations r₀ r') (h₀ : r₀.packages = r.packages) :
    Guarded locations r r' := by
  intro q hq
  have hguarded := h q hq
  rw [h₀] at hguarded
  exact hguarded

section

variable {normalizeName : String → Option String} {r₀ : Registry} {sandbox : Sandbox}
  {items : List Item} {now : String → Int} {changed : List Release}

theorem installed_guarded (h : installTx normalizeName r sandbox (items.map (routed locations)) now =
    .ok (changed, r')) : Guarded locations r r' := by
  obtain ⟨hexamine, hsave⟩ := examineAll_of_installTx h
  intro q hq
  have hq' : r'.package q.name = some q := package_eq_some.mpr ⟨hq, rfl⟩
  by_cases hchanged : q.name ∈ changed.map fun rel => rel.id.name
  · obtain ⟨rel, hrel, hname⟩ := List.mem_map.mp hchanged
    obtain ⟨item, hitem, haccepted⟩ := accepted_of_mem hexamine hrel
    obtain ⟨source, -, rfl⟩ := List.mem_map.mp hitem
    have hrow := saveAll_package hsave (examineAll_nodup h) hrel
    rw [hname, hq', Option.some.injEq] at hrow
    obtain ⟨hauthor, -, hlib, happ, -⟩ := row_fields rel (r.package rel.id.name) (now rel.id.name)
    rw [hname, ← hrow] at hauthor hlib happ
    have hid : q.id = rel.id := by
      cases hrelId : rel.id
      rw [hrelId] at hname hauthor
      rw [Package.id, Id.mk.injEq]
      exact ⟨hauthor, hname.symm⟩
    refine .inr ⟨?_, fun kind hkind hchecked location hlocation => ?_⟩
    · rw [← hname, haccepted.identity]
      exact validName_of_validId haccepted.valid
    · have hhas : rel.has kind = true := by
        cases kind with
        | lib => exact hlib.symm.trans hkind
        | app => exact happ.symm.trans hkind
      have hroutes := haccepted.routes kind hhas
      rw [hid, haccepted.identity] at hchecked ⊢
      exact checkRoutes_ok hroutes hchecked hlocation
  · rw [saveAll_package_other hsave hchanged] at hq'
    exact .inl ⟨q, (package_eq_some.mp hq').1, .refl q⟩

theorem transferred_guarded {host : Legacy.Host} {groups : Json}
    (h : Legacy.migrateLegacyGroups host groups r = .ok r') : Guarded locations r r' := by
  obtain ⟨gs, r₀, -, -, hopened, rfl⟩ := LegacyTransfers.migrateLegacyGroups_eq_ok.mp h
  have h₀ : r₀.packages = r.packages := by
    obtain ⟨-, rfl⟩ | ⟨-, hopened⟩ := hopened
    · rfl
    · rw [migrateRegistration_tables hopened]
  refine Guarded.after (fun q hq => .inl ?_) h₀
  have hcore := (LegacyTransfers.run_kept host r₀ gs).core q.name
  rw [show (LegacyTransfers.run host r₀ gs).package q.name = some q from package_eq_some.mpr ⟨hq, rfl⟩]
    at hcore
  obtain ⟨p, hp, hsame⟩ := Option.map_eq_some_iff.mp hcore.symm
  obtain ⟨hp, hname⟩ := package_eq_some.mp hp
  simp only [LegacyTransfers.core, Prod.mk.injEq] at hsame
  obtain ⟨-, hlib, happ, hstandard⟩ := hsame
  exact ⟨p, hp, hname.symm, hlib.symm, happ.symm, by rw [Settings.ordinary, Settings.ordinary, hlib, hstandard]⟩

theorem committed_guarded {x : Except Error Registry} (h : ∀ r', x = .ok r' → Guarded locations r r') :
    Guarded locations r (DependencyGraph.committed r x) := by
  cases x with
  | error e => exact .of_same rfl
  | ok r' => exact h r' rfl

theorem migrated_packages (h : migrateRegistration r = .ok r') : r'.packages = r.packages := by
  rw [migrateRegistration_tables h]

theorem written_guarded (r : Registry) (o : Operation) :
    Guarded locations r (written normalizeName locations r o) := by
  cases o with
  | configure env request => exact .of_same rfl
  | install sandbox items now finished =>
      rw [written, DependencyGraph.step, Option.getD_some]
      split
      · exact .of_same rfl
      · rename_i r₀ haccepted
        obtain ⟨_, -, hopened⟩ := bind_eq_ok.mp haccepted
        have hpackages := migrated_packages hopened
        split
        · refine Guarded.after (committed_guarded fun r' hinstalled => ?_) hpackages
          cases htx : installTx normalizeName r₀ sandbox (items.map (routed locations)) now with
          | error e =>
              rw [htx] at hinstalled
              cases hinstalled
          | ok out =>
              rw [htx] at hinstalled
              cases hinstalled
              exact installed_guarded htx
        · exact .of_same hpackages
  | remove id finished =>
      rw [written, DependencyGraph.step, Option.getD_some]
      split
      · exact .of_same rfl
      · rename_i r₀ hopened
        have hpackages := migrated_packages hopened
        split
        · refine Guarded.after (committed_guarded fun r' hremoved => .of_package fun q hq => ?_) hpackages
          rw [removeTx_package hremoved] at hq
          split at hq
          · cases hq
          · exact hq
        · exact .of_same hpackages
  | transfer host groups => exact committed_guarded fun r' h => transferred_guarded h

end

/-- The test of an installation is the one of the settings. -/
theorem beside_of_checked {q : Package} (hlocation : validPath (pathOf location) = true)
    (hname : validName q.name = true) (hchecked : ∀ kind, LoadedSandbox.holds q kind = true →
      kind = .app ∨ standard q.id = false → conflicts (mountOf q.id kind) location = false) :
    Beside [q] location := by
  have hname' : validName q.id.name = true := hname
  have hsame := conflicts_eq_occupies hlocation hname'
  refine ⟨fun p hp hhas => ?_, fun p hp hordinary => ?_⟩
  · rw [List.mem_singleton] at hp
    subst hp
    have hfree := hchecked .app hhas (.inl rfl)
    rw [hsame] at hfree
    exact hfree
  · rw [List.mem_singleton] at hp
    subst hp
    rw [Settings.ordinary, Bool.and_eq_true, Bool.not_eq_true'] at hordinary
    have hfree := hchecked .lib hordinary.1 (.inr hordinary.2)
    rw [hsame] at hfree
    exact hfree

theorem fits_of_guarded {h : Http} {row : Text × Text} (hfits : Fits h r.packages row)
    (hguarded : Guarded locations r r') (hrow : row.1 ∈ locations) : Fits h r'.packages row := by
  have hbeside (q : Package) (hq : q ∈ r'.packages) : Beside [q] row.1 := by
    obtain ⟨p, hp, hplaced⟩ | ⟨hname, hchecked⟩ := hguarded q hq
    · refine ⟨fun q' hq' hhas => ?_, fun q' hq' hordinary => ?_⟩
      · rw [List.mem_singleton.mp hq'] at hhas ⊢
        rw [hplaced.name]
        exact hfits.app p hp (hplaced.hasApp.symm.trans hhas)
      · rw [List.mem_singleton.mp hq'] at hordinary ⊢
        rw [hplaced.name]
        exact hfits.lib p hp (hplaced.ordinary.symm.trans hordinary)
    · exact beside_of_checked hfits.valid hname fun kind hhas hkind => hchecked kind hhas hkind row.1 hrow
  exact ⟨hfits.toSound, fun q hq hhas => (hbeside q hq).app q (List.mem_singleton_self q) hhas,
    fun q hq hordinary => (hbeside q hq).lib q (List.mem_singleton_self q) hordinary⟩

theorem change_packages {h : Http} {d d' : Settings.Store} {action : Action}
    (hchange : change h d action = .ok d') : d'.packages = d.packages := by
  cases action with
  | read => cases hchange; rfl
  | listen mode => cases hchange; rfl
  | unlisten => cases hchange; rfl
  | mount rule => cases hchange; rfl
  | unmount rule =>
      obtain ⟨current, -, hchange⟩ := bind_eq_ok.mp hchange
      split at hchange
      · cases hchange
        rfl
      · obtain ⟨_, -, hchange⟩ := bind_eq_ok.mp hchange
        cases hchange
        rfl

theorem configDatabase_packages {h : Http} {env : Environment} {d : Settings.Store} {request : Settings.Request} :
    (configDatabase h env d request).2.packages = d.packages := by
  obtain ⟨_, -, hsame⟩ | ⟨hsame, -⟩ | ⟨action, config, -, htransaction, -⟩ :=
    configDatabase_cases (Prod.mk.eta (p := configDatabase h env d request)).symm
  · rw [hsame]
  · rw [hsame]
  · obtain ⟨-, -, -, hchange, -⟩ := transaction_eq_ok.mp htransaction
    exact change_packages hchange

/-- The settings stay beside the packages in every operation. -/
theorem step_valid {h : Http} {normalizeName : String → Option String} {s : System}
    (hvalid : Valid h s.settings) (o : Operation) : Valid h (step h normalizeName s o).settings := by
  have hconfigured : Valid h (configured h s.settings o) := by
    cases o with
    | configure env request => exact valid_step hvalid
    | install _ _ _ _ => exact hvalid
    | remove _ _ => exact hvalid
    | transfer _ _ => exact hvalid
  obtain ⟨hversion, hlisten, hrows⟩ := valid_iff.mp hconfigured
  refine valid_iff.mpr ⟨hversion, hlisten, fun row hrow => ?_⟩
  have hfits := hrows row hrow
  cases o with
  | configure env request =>
      have hpackages : (configured h s.settings (.configure env request)).packages =
          s.registry.packages := configDatabase_packages.trans s.attached
      rw [hpackages] at hfits
      exact hfits
  | install _ _ _ _ =>
      exact fits_of_guarded (s.attached ▸ hfits) (written_guarded _ _) (List.mem_map_of_mem hrow)
  | remove _ _ =>
      exact fits_of_guarded (s.attached ▸ hfits) (written_guarded _ _) (List.mem_map_of_mem hrow)
  | transfer _ _ =>
      exact fits_of_guarded (s.attached ▸ hfits) (written_guarded _ _) (List.mem_map_of_mem hrow)

theorem run_valid {h : Http} {normalizeName : String → Option String} {s : System}
    (hvalid : Valid h s.settings) (os : List Operation) :
    Valid h (run h normalizeName s os).settings := by
  induction os generalizing s with
  | nil => exact hvalid
  | cons o os ih => exact ih (step_valid hvalid o)

theorem failIf_forM {α : Type} {f : α → Except Error Unit} {l : List α} {P : Prop} [Decidable P] :
    doIf P (l.forM f) = .ok () ↔ (P → ∀ a ∈ l, f a = .ok ()) := by
  by_cases h : P
  · rw [doIf, if_pos h, forM_eq_ok]
    exact ⟨fun hall _ => hall, fun hall => hall h⟩
  · rw [doIf, if_neg h]
    exact iff_of_true rfl fun h' => absurd h' h

/-- A package that has been checked against the rules is beside them, and conversely. -/
theorem tests_agree {d : Settings.Store} {p : Package} {rules : List ProxyLocation}
    (hname : validName p.name = true) (hpackages : d.packages = [p])
    (hrules : ∀ rule ∈ rules, validPath (pathOf rule.location) = true ∧
      reserved (pathOf rule.location) = false) :
    (∀ kind, LoadedSandbox.holds p kind = true →
      checkRoutes (ProxyRules.locations rules) (fun _ => .ok ()) p.id kind = .ok ()) ↔
      checkProxyMounts d rules = .ok () := by
  have hname' : validName p.id.name = true := hname
  rw [checkProxyMounts_eq_ok, hpackages]
  constructor
  · intro hchecked rule hrule
    obtain ⟨hvalid, hfree⟩ := hrules rule hrule
    refine ⟨hfree, beside_of_checked hvalid hname fun kind hhas hkind => ?_⟩
    exact checkRoutes_ok (hchecked kind hhas) hkind (List.mem_map_of_mem hrule)
  · intro hbeside kind hhas
    refine bind_eq_ok.mpr ⟨(), failIf_forM.mpr fun hkind location hlocation => ?_, rfl⟩
    obtain ⟨rule, hrule, rfl⟩ := List.mem_map.mp hlocation
    obtain ⟨hvalid, -⟩ := hrules rule hrule
    obtain ⟨-, hbeside⟩ := hbeside rule hrule
    rw [checkLocation, failIf_eq_ok, conflicts_eq_occupies hvalid hname' kind, Bool.not_eq_true]
    cases kind with
    | app => exact hbeside.app p (List.mem_singleton_self p) hhas
    | lib =>
        have hordinary : Settings.ordinary p = true := by
          have hstandard : standard p.id = false := hkind.resolve_left (by rintro ⟨⟩)
          rw [Settings.ordinary, Bool.and_eq_true, Bool.not_eq_true']
          exact ⟨hhas, hstandard⟩
        exact hbeside.lib p (List.mem_singleton_self p) hordinary

/-- The path of a location is a mount, or lies below it. -/
def Within (mount location : Text) : Prop :=
  pathOf location = mount ∨ ∃ rest, pathOf location = mount ++ '/' :: rest

end

/-- From settings that can be read, every run leads to settings that can be read: no location is
reserved, and none is at the mount of an installed package or below it. What an installation tests of
a location is what the settings test of it. -/
theorem mounts_apart {h : Http} {normalizeName : String → Option String} {s : System}
    (hvalid : Valid h s.settings) (os : List Operation) :
    Valid h (run h normalizeName s os).settings ∧
    (∀ row ∈ (run h normalizeName s os).settings.mounts, reserved (pathOf row.1) = false ∧
      ∀ p ∈ (run h normalizeName s os).registry.packages,
        (p.hasApp = true → ¬Within (appMount p.name) row.1) ∧
        (p.hasLib = true → standard p.id = false → ¬Within (libMount p.name) row.1)) ∧
    ∀ (d : Settings.Store) (p : Package) (rules : List ProxyLocation), validName p.name = true →
      d.packages = [p] → (∀ rule ∈ rules, validPath (pathOf rule.location) = true ∧
        reserved (pathOf rule.location) = false) →
      ((∀ kind, LoadedSandbox.holds p kind = true →
        checkRoutes (ProxyRules.locations rules) (fun _ => .ok ()) p.id kind = .ok ()) ↔
        checkProxyMounts d rules = .ok ()) := by
  have hrun : Valid h (run h normalizeName s os).settings := run_valid hvalid os
  refine ⟨hrun, fun row hrow => ?_, fun d p rules => tests_agree⟩
  obtain ⟨-, -, hrows⟩ := valid_iff.mp hrun
  have hfits := hrows row hrow
  rw [(run h normalizeName s os).attached] at hfits
  refine ⟨hfits.free, fun p hp => ⟨fun hhas hwithin => ?_, fun hhas hstandard hwithin => ?_⟩⟩
  · have hbeside := hfits.app p hp hhas
    rw [occupies_iff.mpr hwithin] at hbeside
    cases hbeside
  · have hordinary : Settings.ordinary p = true := by
      rw [Settings.ordinary, Bool.and_eq_true, Bool.not_eq_true']
      exact ⟨hhas, hstandard⟩
    have hbeside := hfits.lib p hp hordinary
    rw [occupies_iff.mpr hwithin] at hbeside
    cases hbeside

def sampleSystem : System := ⟨emptyStore, .empty, rfl⟩

/-- A rule for `/shop`, a library that is called so, which is refused, and another one. -/
def sampleOperations : List Operation :=
  [.configure .healthy shopRequest, .install .empty [sampleItem "shop" "1.0.0" []] (fun _ => 100) true,
    .install .empty [sampleItem "base" "1.0.0" []] (fun _ => 100) true]

theorem mounts_apart_shop :
    Valid sampleHttp (run sampleHttp some sampleSystem sampleOperations).settings ∧
    (run sampleHttp some sampleSystem sampleOperations).registry.packages.map Package.name = ["base"] ∧
    (run sampleHttp some sampleSystem sampleOperations).settings.mounts.map Prod.fst =
      [chars "/shop"] :=
  ⟨(mounts_apart emptyStore_valid sampleOperations).1, by decide +kernel, by decide +kernel⟩

end Pishoo.Mounts
