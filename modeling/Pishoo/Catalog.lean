import Pishoo.ConditionalRemoval
import Pishoo.Ownership

namespace Pishoo.Catalog

open Result Registry Registration Publication Machine Installation

/-- A dependency as it is shown. -/
structure Shown where
  author : Option String
  name : String
  version : String
  deriving DecidableEq

/-- A package as it is shown, with the columns of its row. -/
structure Listing where
  package : Package
  title : String
  dependencies : List Shown
  entry : Option String

def conflicting : Error := .invalidConfig "invalid or conflicting installed package name"

section

variable (normalizeName : String → Option String) (r : Registry)

def checkRow (records : List Package) (p : Package) : Except Error (List Package) := do
  validId normalizeName p.id
  failIf (records.any (fun other => other.name == p.name) = true) conflicting
  .ok (records ++ [p])

/-- The rows of the table, or the one of an id. -/
def registeredPackages (id : Option String) : Except Error (List Package) := do
  let rows := r.packages.filter fun p => id.all fun id => p.id.text == id
  let records ← (Facts.sortedBy (fun p => [p.id.text]) rows).foldlM (checkRow normalizeName) []
  failIf (id.isSome = true ∧ records = []) .routeNotFound
  .ok records

/-- A missing author comes first. -/
def shownKey (d : Shown) : List String :=
  match d.author with
  | none => ["0", d.name]
  | some author => ["1", author, d.name]

def dependenciesOf (name : String) : List Shown :=
  Facts.sortedBy shownKey ((r.dependencies.filter fun d => d.packageName == name).flatMap fun d =>
    (r.packages.filter fun p => p.name == d.dependencyName).map fun p =>
      ⟨p.author, p.name, d.version⟩)

def registeredMetadata (id : String) : Except Error Listing := do
  let p ← orElse (r.packages.find? fun p => p.id.text == id) .routeNotFound
  .ok ⟨p, p.title.getD p.name, dependenciesOf r p.name, if p.hasApp = true then some "/" else none⟩

/-- `installed_packages` without an id. -/
def installedPackages : Except Error (List Listing) := do
  let rows ← registeredPackages normalizeName r none
  rows.mapM fun p => registeredMetadata r p.id.text

def installedPackage (id : String) : Except Error Listing := do
  let rows ← registeredPackages normalizeName r (some id)
  let values ← rows.mapM fun p => registeredMetadata r p.id.text
  orElse values.getLast? .routeNotFound

/-- `installed_catalog` with a name. -/
def installedCatalog (name : String) : Except Error Listing := do
  let p ← orElse (r.package name) .routeNotFound
  installedPackage normalizeName r p.id.text

end

def Valid (normalizeName : String → Option String) (r : Registry) : Prop :=
  ∀ p ∈ r.packages, validId normalizeName p.id = .ok ()

def listingOf (r : Registry) (p : Package) : Listing :=
  ⟨p, p.title.getD p.name, dependenciesOf r p.name, if p.hasApp = true then some "/" else none⟩

section

variable {normalizeName : String → Option String} {r r' : Registry} {p q : Package} {name : String}
  {rows records : List Package}

theorem eq_of_text (h : Valid normalizeName r) (hp : p ∈ r.packages) (hq : q ∈ r.packages)
    (htext : p.id.text = q.id.text) : p = q := by
  have hid : p.id = q.id := ConditionalRemoval.text_injective (validName_of_validId (h p hp))
    (validName_of_validId (h q hq)) htext
  exact List.inj_on_of_nodup_map r.valid.names hp hq (congrArg Id.name hid)

theorem checkRows_ok (hvalid : ∀ p ∈ rows, validId normalizeName p.id = .ok ())
    (hnodup : ((records ++ rows).map Package.name).Nodup) :
    rows.foldlM (checkRow normalizeName) records = .ok (records ++ rows) := by
  induction rows generalizing records with
  | nil =>
      rw [List.append_nil]
      rfl
  | cons p rows ih =>
      have hfree : ¬records.any (fun other => other.name == p.name) = true := by
        rw [List.any_eq_true]
        rintro ⟨other, hother, hname⟩
        rw [List.map_append, List.map_cons] at hnodup
        have hdisjoint := List.disjoint_of_nodup_append hnodup
        apply hdisjoint (List.mem_map_of_mem hother)
        rw [beq_iff_eq.mp hname]
        exact List.mem_cons_self
      have hrow : checkRow normalizeName records p = .ok (records ++ [p]) := by
        rw [checkRow, hvalid p List.mem_cons_self, ok_bind, (failIf_eq_ok (u := ())).mpr hfree, ok_bind]
      rw [List.foldlM_cons, hrow, ok_bind, ih, List.append_assoc, List.singleton_append]
      · exact fun q hq => hvalid q (List.mem_cons_of_mem _ hq)
      · rwa [List.append_assoc, List.singleton_append]

theorem rows_perm (rows : List Package) :
    (Facts.sortedBy (fun p : Package => [p.id.text]) rows).Perm rows :=
  Facts.sortedBy_perm _ rows

theorem registeredPackages_ok (h : Valid normalizeName r) {id : Option String}
    (hfound : id.isSome = true → ∃ p ∈ r.packages, id = some p.id.text) :
    registeredPackages normalizeName r id = .ok (Facts.sortedBy (fun p => [p.id.text])
      (r.packages.filter fun p => id.all fun id => p.id.text == id)) := by
  have hperm := rows_perm (r.packages.filter fun p => id.all fun id => p.id.text == id)
  rw [registeredPackages, checkRows_ok, ok_bind, List.nil_append, (failIf_eq_ok (u := ())).mpr,
    ok_bind]
  · rintro ⟨hsome, hempty⟩
    obtain ⟨p, hp, rfl⟩ := hfound hsome
    have hmem : p ∈ r.packages.filter fun q => (some p.id.text).all fun id => q.id.text == id :=
      List.mem_filter.mpr ⟨hp, beq_self_eq_true _⟩
    rw [← hperm.mem_iff, hempty] at hmem
    cases hmem
  · intro p hp
    exact h p (List.mem_of_mem_filter (hperm.mem_iff.mp hp))
  · rw [List.nil_append, (hperm.map Package.name).nodup_iff]
    exact r.valid.names.sublist (List.filter_sublist.map _)

theorem registeredMetadata_ok (h : Valid normalizeName r) (hp : p ∈ r.packages) :
    registeredMetadata r p.id.text = .ok (listingOf r p) := by
  have hfind : r.packages.find? (fun q => q.id.text == p.id.text) = some p := by
    cases hq : r.packages.find? fun q => q.id.text == p.id.text with
    | none =>
        rw [List.find?_eq_none] at hq
        exact absurd (beq_self_eq_true _) (hq p hp)
    | some q =>
        have htext : q.id.text = p.id.text := by simpa using List.find?_some hq
        rw [eq_of_text h (List.mem_of_find?_eq_some hq) hp htext]
  rw [registeredMetadata, hfind]
  rfl

theorem installedPackages_ok (h : Valid normalizeName r) : installedPackages normalizeName r =
    .ok ((Facts.sortedBy (fun p => [p.id.text]) r.packages).map (listingOf r)) := by
  have hall : (r.packages.filter fun p => (none : Option String).all fun id => p.id.text == id) =
      r.packages := List.filter_eq_self.mpr fun p _ => rfl
  rw [installedPackages, registeredPackages_ok h (by rintro ⟨⟩), hall, ok_bind]
  apply mapM_eq_ok
  intro p hp
  exact registeredMetadata_ok h ((rows_perm r.packages).mem_iff.mp hp)

theorem installedPackage_ok (h : Valid normalizeName r) (hp : p ∈ r.packages) :
    installedPackage normalizeName r p.id.text = .ok (listingOf r p) := by
  have hrows :
      (r.packages.filter fun q => (some p.id.text).all fun id => q.id.text == id) = [p] := by
    have hsame : ∀ q ∈ r.packages, ((some p.id.text).all fun id => q.id.text == id) = (q == p) := by
      intro q hq
      rw [Bool.eq_iff_iff, beq_iff_eq]
      constructor
      · intro htext
        exact eq_of_text h hq hp (beq_iff_eq.mp htext)
      · rintro rfl
        exact beq_self_eq_true _
    rw [List.filter_congr hsame, List.filter_beq, List.count_eq_one_of_mem r.valid.names.of_map hp]
    rfl
  rw [installedPackage, registeredPackages_ok h fun _ => ⟨p, hp, rfl⟩, hrows]
  have hmeta := registeredMetadata_ok h hp
  change ([p].mapM fun q => registeredMetadata r q.id.text) >>= _ = _
  rw [List.mapM_cons, hmeta]
  rfl

theorem installedCatalog_ok (h : Valid normalizeName r) {value : Listing} :
    installedCatalog normalizeName r name = .ok value ↔
      ∃ p ∈ r.packages, p.name = name ∧ value = listingOf r p := by
  rw [installedCatalog, bind_eq_ok]
  constructor
  · rintro ⟨p, hp, hvalue⟩
    obtain ⟨hmem, hname⟩ := package_eq_some.mp (orElse_eq_ok.mp hp)
    rw [installedPackage_ok h hmem] at hvalue
    exact ⟨p, hmem, hname, (Except.ok.inj hvalue).symm⟩
  · rintro ⟨p, hmem, hname, rfl⟩
    exact ⟨p, orElse_eq_ok.mpr (package_eq_some.mpr ⟨hmem, hname⟩), installedPackage_ok h hmem⟩

theorem mem_dependenciesOf {shown : Shown} : shown ∈ dependenciesOf r name ↔
    ∃ d ∈ r.dependencies, d.packageName = name ∧ shown.version = d.version ∧
      ∃ p ∈ r.packages, p.name = d.dependencyName ∧ shown.name = p.name ∧
        shown.author = p.author := by
  rw [dependenciesOf, (Facts.sortedBy_perm _ _).mem_iff, List.mem_flatMap]
  simp only [List.mem_filter, List.mem_map, beq_iff_eq]
  constructor
  · rintro ⟨d, ⟨hd, hname⟩, p, ⟨hp, hdependency⟩, rfl⟩
    exact ⟨d, hd, hname, rfl, p, hp, hdependency, rfl, rfl⟩
  · rintro ⟨d, hd, hname, hversion, p, hp, hdependency, hshown, hauthor⟩
    refine ⟨d, ⟨hd, hname⟩, p, ⟨hp, hdependency⟩, ?_⟩
    rcases shown with ⟨author, name', version⟩
    simp only at hversion hshown hauthor
    rw [hversion, hshown, hauthor]

/-- The pins hold, and every package has a valid id. -/
structure Kept (normalizeName : String → Option String) (r : Registry) : Prop where
  integrity : DependencyGraph.Integrity r
  valid : Valid normalizeName r

theorem Valid.of_same (h : Valid normalizeName r) (hsame : r'.packages = r.packages) :
    Valid normalizeName r' := by
  intro q hq
  exact h q (hsame ▸ hq)

theorem migrated_valid (h : Valid normalizeName r) (hopened : migrateRegistration r = .ok r') :
    Valid normalizeName r' := by
  apply h.of_same
  rw [migrateRegistration_tables hopened]

theorem installed_valid {sandbox : Sandbox} {items : List Item} {now : String → Int}
    {changed : List Release} (h : Valid normalizeName r)
    (htx : installTx normalizeName r sandbox items now = .ok (changed, r')) :
    Valid normalizeName r' := by
  obtain ⟨hexamine, hsave⟩ := examineAll_of_installTx htx
  intro q hq
  have hq' : r'.package q.name = some q := package_eq_some.mpr ⟨hq, rfl⟩
  by_cases hchanged : q.name ∈ changed.map fun rel => rel.id.name
  · obtain ⟨rel, hrel, hname⟩ := List.mem_map.mp hchanged
    obtain ⟨item, -, haccepted⟩ := accepted_of_mem hexamine hrel
    have hrow := saveAll_package hsave (examineAll_nodup htx) hrel
    rw [hname, hq', Option.some.injEq] at hrow
    obtain ⟨hauthor, -⟩ := row_fields rel (r.package rel.id.name) (now rel.id.name)
    rw [hname, ← hrow] at hauthor
    have hid : q.id = rel.id := by
      rw [Package.id, hauthor, ← hname]
    rw [hid, haccepted.identity]
    exact haccepted.valid
  · rw [saveAll_package_other hsave hchanged] at hq'
    exact h q (package_eq_some.mp hq').1

theorem removed_valid {id : Id} (h : Valid normalizeName r) (htx : removeTx r id = .ok r') :
    Valid normalizeName r' := by
  intro q hq
  have hq' : r'.package q.name = some q := package_eq_some.mpr ⟨hq, rfl⟩
  rw [removeTx_package htx] at hq'
  split at hq'
  · cases hq'
  · exact h q (package_eq_some.mp hq').1

theorem transferAuthor_valid {t : Transfer} (h : Valid normalizeName r)
    (ht : validId normalizeName ⟨some t.author, t.name⟩ = .ok ())
    (htx : transferAuthor r t = .ok r') : Valid normalizeName r' := by
  intro q hq
  have hq' : r'.package q.name = some q := package_eq_some.mpr ⟨hq, rfl⟩
  rw [DependencyGraph.transferAuthor_package htx] at hq'
  obtain ⟨p, hp, hsame⟩ := Option.map_eq_some_iff.mp hq'
  split at hsame
  · rename_i hname
    rw [beq_iff_eq] at hname
    subst hsame
    rw [Package.id, transferred, hname]
    exact ht
  · subst hsame
    exact h p (package_eq_some.mp hp).1

theorem authorize_valid {host : Legacy.Host} {author : String} {entry : Json} {t : Transfer}
    (h : Legacy.authorize host name author p entry = .ok t) :
    validId host.normalizeName ⟨some t.author, t.name⟩ = .ok () := by
  simp only [Legacy.authorize, bind_eq_ok] at h
  obtain ⟨_, -, _, -, target, -, _, -, _, -, _, hvalid, _, -, _, -, _, -, _, -, h⟩ := h
  cases h
  exact hvalid

theorem change_valid {host : Legacy.Host} {entries : List Json} {t : Transfer}
    (h : Legacy.change host r entries name = .ok (some t)) :
    validId host.normalizeName ⟨some t.author, t.name⟩ = .ok () := by
  unfold Legacy.change at h
  split at h
  · cases h
  · obtain ⟨author, -, h⟩ := bind_eq_ok.mp h
    dsimp only at h
    split at h
    · cases h
    · split at h
      · obtain ⟨_, -, h⟩ := bind_eq_ok.mp h
        obtain ⟨_, hauthorize, h⟩ := bind_eq_ok.mp h
        cases h
        exact authorize_valid hauthorize
      · cases h

theorem transferGroup_kept {host : Legacy.Host} {group : Json} (h : Kept host.normalizeName r)
    (htx : Legacy.transferGroup host r group = .ok r') : Kept host.normalizeName r' := by
  obtain ⟨entries, -, htx⟩ := bind_eq_ok.mp htx
  obtain ⟨names, -, htx⟩ := bind_eq_ok.mp htx
  obtain ⟨changes, hchanges, htx⟩ := bind_eq_ok.mp htx
  refine foldlM_invariant htx h ?_
  intro t ht r₁ r₂ h₁ htransfer
  obtain ⟨name, -, hchange⟩ := exists_of_mem_mapM hchanges (List.reduceOption_mem_iff.mp ht)
  exact ⟨DependencyGraph.transferAuthor_integrity h₁.integrity htransfer,
    transferAuthor_valid h₁.valid (change_valid hchange) htransfer⟩

theorem transferOrKeep_kept {host : Legacy.Host} {group : Json} (h : Kept host.normalizeName r) :
    Kept host.normalizeName (Legacy.transferOrKeep host r group) := by
  unfold Legacy.transferOrKeep
  split
  · rename_i htx
    exact transferGroup_kept h htx
  · exact h

theorem migrateLegacyGroups_kept {host : Legacy.Host} {groups : Json}
    (h : Kept host.normalizeName r) (htx : Legacy.migrateLegacyGroups host groups r = .ok r') :
    Kept host.normalizeName r' := by
  obtain ⟨gs, -, htx⟩ := bind_eq_ok.mp htx
  split at htx
  · cases htx
    exact h
  · obtain ⟨r₀, hopened, htx⟩ := bind_eq_ok.mp htx
    cases htx
    have h₀ : Kept host.normalizeName r₀ :=
      ⟨DependencyGraph.migrateRegistration_integrity h.integrity hopened,
        migrated_valid h.valid hopened⟩
    exact List.foldlRecOn gs _ h₀ fun _ h _ _ => transferOrKeep_kept h

theorem committed_holds {P : Registry → Prop} {x : Except Error Registry} (h : P r)
    (hx : ∀ r', x = .ok r' → P r') : P (DependencyGraph.committed r x) := by
  cases x with
  | error e => exact h
  | ok r' => exact hx r' rfl

theorem install_valid {sandbox : Sandbox} {items : List Item} {now : String → Int}
    {finished : Bool} (h : Valid normalizeName r)
    (hstep : DependencyGraph.step normalizeName r (.install sandbox items now finished) = some r') :
    Valid normalizeName r' := by
  simp only [DependencyGraph.step, Option.some.injEq] at hstep
  subst hstep
  split
  · exact h
  · rename_i r₀ haccepted
    obtain ⟨_, -, hopened⟩ := bind_eq_ok.mp haccepted
    have h₀ := migrated_valid h hopened
    split
    · apply committed_holds h₀
      intro r' hinstalled
      cases htx : installTx normalizeName r₀ sandbox items now with
      | error e =>
          rw [htx] at hinstalled
          cases hinstalled
      | ok out =>
          rw [htx] at hinstalled
          cases hinstalled
          exact installed_valid h₀ htx
    · exact h₀

theorem remove_valid {id : Id} {finished : Bool} (h : Valid normalizeName r)
    (hstep : DependencyGraph.step normalizeName r (.remove id finished) = some r') :
    Valid normalizeName r' := by
  simp only [DependencyGraph.step, Option.some.injEq] at hstep
  subst hstep
  split
  · exact h
  · rename_i r₀ hopened
    have h₀ := migrated_valid h hopened
    split
    · exact committed_holds h₀ fun r' htx => removed_valid h₀ htx
    · exact h₀

theorem step_kept {c : Ownership.Config} {e : Ownership.Event} (h : Kept c.trust.normalizeName r)
    (hstep : Ownership.step c r e = some r') : Kept c.trust.normalizeName r' := by
  cases e with
  | install sandbox docs now finished =>
      have hinstall : DependencyGraph.step c.trust.normalizeName r
        (.install sandbox (docs.map (itemOf c.trust)) now finished) = some r' := hstep
      exact ⟨DependencyGraph.step_integrity h.integrity hinstall, install_valid h.valid hinstall⟩
  | remove id finished =>
      have hremove : DependencyGraph.step c.trust.normalizeName r (.remove id finished) = some r' :=
        hstep
      exact ⟨DependencyGraph.step_integrity h.integrity hremove, remove_valid h.valid hremove⟩
  | transfer verifyLegacyFiles =>
      cases hstep
      apply committed_holds h
      intro r' htx
      have hhost : Kept (Legacy.Host.mk c.trust.normalizeName verifyLegacyFiles).normalizeName r := h
      exact migrateLegacyGroups_kept hhost htx

theorem mem_listed {value : Listing} :
    value ∈ (Facts.sortedBy (fun p => [p.id.text]) r.packages).map (listingOf r) ↔
      ∃ p ∈ r.packages, value = listingOf r p := by
  rw [List.mem_map]
  constructor
  · rintro ⟨p, hp, rfl⟩
    exact ⟨p, (rows_perm r.packages).mem_iff.mp hp, rfl⟩
  · rintro ⟨p, hp, rfl⟩
    exact ⟨p, (rows_perm r.packages).mem_iff.mpr hp, rfl⟩

end

/-- The list of what is installed, after any run. -/
theorem catalog_closed {c : Ownership.Config} {start r : Registry} {es : List Ownership.Event}
    (hintegrity : DependencyGraph.Integrity start) (hvalid : Valid c.trust.normalizeName start)
    (h : Trace (Ownership.step c) Free start es r) :
    ∃ values, installedPackages c.trust.normalizeName r = .ok values ∧
      (values.map Listing.package).Perm r.packages ∧
      values.Pairwise (fun value other => [value.package.id.text] ≤ [other.package.id.text]) ∧
      (∀ name value, installedCatalog c.trust.normalizeName r name = .ok value ↔
        value ∈ values ∧ value.package.name = name) ∧
      ∀ value ∈ values,
        (∀ d ∈ r.dependencies, d.packageName = value.package.name →
          ∃ shown ∈ value.dependencies, shown.name = d.dependencyName ∧ shown.version = d.version) ∧
        ∀ shown ∈ value.dependencies, ∃ other ∈ values, other ≠ value ∧
          shown = ⟨other.package.author, other.package.name, other.package.version⟩ := by
  have hkept : Kept c.trust.normalizeName r :=
    h.invariant (I := Kept c.trust.normalizeName) ⟨hintegrity, hvalid⟩
      fun _ _ _ hkept _ hstep => step_kept hkept hstep
  refine ⟨_, installedPackages_ok hkept.valid, ?_, ?_, ?_, ?_⟩
  · have hpackages : Listing.package ∘ listingOf r = id := rfl
    rw [List.map_map, hpackages, List.map_id]
    exact rows_perm r.packages
  · rw [List.pairwise_map]
    exact Facts.pairwise_sortedBy _ _
  · intro name value
    rw [installedCatalog_ok hkept.valid, mem_listed]
    constructor
    · rintro ⟨p, hp, hname, rfl⟩
      exact ⟨⟨p, hp, rfl⟩, hname⟩
    · rintro ⟨⟨p, hp, rfl⟩, hname⟩
      exact ⟨p, hp, hname, rfl⟩
  · intro value hvalue
    obtain ⟨p, hp, rfl⟩ := mem_listed.mp hvalue
    constructor
    · intro d hd hname
      obtain ⟨q, hq, -⟩ := hkept.integrity.pinned d hd
      obtain ⟨hq, hdependency⟩ := package_eq_some.mp hq
      exact ⟨⟨q.author, q.name, d.version⟩,
        mem_dependenciesOf.mpr ⟨d, hd, hname, rfl, q, hq, hdependency, rfl, rfl⟩, hdependency, rfl⟩
    · intro shown hshown
      obtain ⟨d, hd, hname, hversion, q, hq, hdependency, hshownName, hauthor⟩ :=
        mem_dependenciesOf.mp hshown
      obtain ⟨q', hq', hpinned⟩ := hkept.integrity.pinned d hd
      rw [← hdependency, package_eq_some.mpr ⟨hq, rfl⟩] at hq'
      cases hq'
      refine ⟨listingOf r q, mem_listed.mpr ⟨q, hq, rfl⟩, fun hsame => ?_, ?_⟩
      · have hpackage : q = p := congrArg Listing.package hsame
        exact r.valid.loops d hd (hname.trans (hpackage ▸ hdependency))
      · rcases shown with ⟨author, name, version⟩
        simp only at hversion hshownName hauthor
        rw [hversion, hshownName, hauthor, ← hpinned]
        rfl

theorem unsigned_integrity : DependencyGraph.Integrity Ownership.unsignedRegistry := by
  constructor
  · intro d hd
    cases hd
  · intro a ha
    obtain ⟨b, hab, -⟩ := Relation.TransGen.head'_iff.mp ha
    cases hab

/-- The library of an early host is transferred and then installed by its new author. -/
theorem catalog_closed_base : ∃ r values,
    Trace (Ownership.step Ownership.sampleConfig) Free Ownership.unsignedRegistry
      Ownership.sampleEvents r ∧
    installedPackages Ownership.sampleConfig.trust.normalizeName r = .ok values ∧
    values.map (fun value => value.package.id.text) = ["alice.example/base"] := by
  have hrun : (run (Ownership.step Ownership.sampleConfig) Free Ownership.unsignedRegistry
      Ownership.sampleEvents).map (fun r => r.packages.map fun p => p.id.text) =
        some ["alice.example/base"] := by
    decide +kernel
  obtain ⟨r, hr, hids⟩ := Option.map_eq_some_iff.mp hrun
  have htrace := trace_of_run hr
  have hvalid : Valid Ownership.sampleConfig.trust.normalizeName Ownership.unsignedRegistry := by
    intro p hp
    obtain rfl := List.mem_singleton.mp hp
    rfl
  obtain ⟨values, hvalues, hperm, -⟩ := catalog_closed unsigned_integrity hvalid htrace
  refine ⟨r, values, htrace, hvalues, ?_⟩
  have htexts := hperm.map fun p => p.id.text
  rw [hids, List.map_map] at htexts
  exact List.perm_singleton.mp htexts

end Pishoo.Catalog
