import Pishoo.Entry

namespace Pishoo.Registration

open Result Registry

/-- What the checks of a batch element have found if they let its release be registered. -/
structure Accepted (normalizeName : String → Option String) (r : Registry) (item : Item)
    (rel : Release) : Prop where
  valid : validId normalizeName item.id = .ok ()
  reserved : item.id.name ≠ "std"
  evidence : item.evidence = .ok rel
  identity : rel.id = item.id
  named : checkName r item.id = .ok ()
  installed : checkInstalled r item rel = .ok ()
  routes : ∀ kind, rel.has kind = true → item.routes kind = .ok ()

section

variable {normalizeName : String → Option String} {r r' : Registry} {sandbox : Sandbox}
  {items : List Item} {item : Item} {changed : List Release} {rel : Release} {now : String → Int}

theorem accepted_of_examine {seen : List String} {last : Bool}
    (h : examine normalizeName r sandbox seen last item = .ok (some rel)) :
    Accepted normalizeName r item rel := by
  obtain ⟨_, hvalid, h⟩ := bind_eq_ok.mp h
  obtain ⟨_, hseen, h⟩ := bind_eq_ok.mp h
  obtain ⟨_, -, h⟩ := bind_eq_ok.mp h
  obtain ⟨_, -, h⟩ := bind_eq_ok.mp h
  obtain ⟨rel', hevidence, h⟩ := bind_eq_ok.mp h
  obtain ⟨_, hid, h⟩ := bind_eq_ok.mp h
  obtain ⟨_, hnamed, h⟩ := bind_eq_ok.mp h
  obtain ⟨_, hinstalled, h⟩ := bind_eq_ok.mp h
  split at h
  · cases h
  · obtain ⟨_, hlib, h⟩ := bind_eq_ok.mp h
    obtain ⟨_, happ, h⟩ := bind_eq_ok.mp h
    cases h
    refine ⟨hvalid, fun hstd => failIf_eq_ok.mp hseen (.inl hstd), hevidence,
      not_not.mp (failIf_eq_ok.mp hid), hnamed, hinstalled, fun kind hkind => ?_⟩
    cases kind with
    | lib => exact doIf_eq_ok.mp hlib hkind
    | app => exact doIf_eq_ok.mp happ hkind

theorem accepted_of_mem {seen : List String}
    (h : examineAll normalizeName r sandbox seen items = .ok changed) (hrel : rel ∈ changed) :
    ∃ item ∈ items, Accepted normalizeName r item rel := by
  induction items generalizing seen changed with
  | nil =>
      cases h
      cases hrel
  | cons item items ih =>
      obtain ⟨out, hout, h⟩ := bind_eq_ok.mp h
      obtain ⟨rels, hrels, h⟩ := bind_eq_ok.mp h
      cases h
      obtain hhead | htail := List.mem_append.mp hrel
      · have hsome : out = some rel := by simpa [eq_comm] using hhead
        exact ⟨item, List.mem_cons_self, accepted_of_examine (hsome ▸ hout)⟩
      · obtain ⟨item', hitem, haccepted⟩ := ih hrels htail
        exact ⟨item', List.mem_cons_of_mem _ hitem, haccepted⟩

theorem Accepted.package_id (h : Accepted normalizeName r item rel) {p : Package}
    (hp : r.package rel.id.name = some p) : p.id = rel.id := by
  have hnamed := h.named
  rw [checkName, ← h.identity, hp] at hnamed
  exact not_not.mp (failIf_eq_ok.mp hnamed)

theorem examineAll_of_installTx
    (h : installTx normalizeName r sandbox items now = .ok (changed, r')) :
    examineAll normalizeName r sandbox [] items = .ok changed ∧
      saveAll r changed now = .ok r' := by
  obtain ⟨changed', hexamine, h⟩ := bind_eq_ok.mp h
  obtain ⟨r'', hsave, h⟩ := bind_eq_ok.mp h
  cases h
  exact ⟨hexamine, hsave⟩

theorem package_of_entry {name : String} {e : Entry} (h : r'.entry name = e) :
    r'.package name = e.package :=
  congrArg Entry.package h

/-- The row of a registered release. -/
theorem saveAll_package (h : saveAll r changed now = .ok r')
    (hnames : (changed.map fun rel => rel.id.name).Nodup) (hrel : rel ∈ changed) :
    r'.package rel.id.name = some ((r.package rel.id.name).elim (fresh rel.row (now rel.id.name))
      (upgrade rel.row (now rel.id.name))) := by
  obtain ⟨groups, -, hentry⟩ := Entry.saveAll_entry h hnames hrel
  exact package_of_entry hentry

theorem saveAll_package_other {name : String} (h : saveAll r changed now = .ok r')
    (hn : name ∉ changed.map fun rel => rel.id.name) : r'.package name = r.package name :=
  package_of_entry (Entry.saveAll_entry_other h hn)

theorem removeTx_package {id : Id} (h : removeTx r id = .ok r') (name : String) :
    r'.package name = if name = id.name then none else r.package name := by
  have hentry := package_of_entry (Entry.removeTx_entry h name)
  rw [hentry]
  split <;> rfl

theorem migrateRegistration_tables (h : migrateRegistration r = .ok r') :
    r'.toTables = { r.toTables with
      operations := Rows.updateWhere (misplaced r) replaced r.operations } := by
  obtain ⟨r₁, hstored, h⟩ := bind_eq_ok.mp h
  obtain ⟨_, -, h⟩ := bind_eq_ok.mp h
  cases h
  exact stored_ok hstored

theorem registered_congr {id : Id} (h : r'.package id.name = r.package id.name) :
    r'.registered id = r.registered id := by
  apply Option.ext
  intro p
  rw [registered_eq_some, registered_eq_some, h]

theorem registered_of_package {id : Id} {p : Package} (h : r.package id.name = some p) :
    r.registered id = if p.author = id.author then some p else none := by
  split
  · rename_i ha
    exact registered_eq_some.mpr ⟨h, ha⟩
  · rename_i ha
    rw [Option.eq_none_iff_forall_ne_some]
    intro q hq
    obtain ⟨hq, hqa⟩ := registered_eq_some.mp hq
    rw [h] at hq
    cases hq
    exact ha hqa

theorem registered_of_package_none {id : Id} (h : r.package id.name = none) :
    r.registered id = none := by
  rw [Option.eq_none_iff_forall_ne_some]
  intro q hq
  rw [registered_eq_some, h] at hq
  cases hq.1

/-- A registered release shows in its row, whether the row is new or upgraded. -/
theorem row_fields (rel : Release) (old : Option Package) (now : Int) :
    let p := old.elim (fresh rel.row now) (upgrade rel.row now)
    p.author = rel.id.author ∧ p.version = rel.version ∧ p.hasLib = rel.hasLib ∧
      p.hasApp = rel.hasApp ∧ p.authorOwnerHash = rel.authorOwnerHash ∧
      p.packageSha256 = rel.packageSha256 ∧
      p.signerLeafFingerprintSha256 = rel.signerLeafFingerprintSha256 := by
  cases old <;> exact ⟨rfl, rfl, rfl, rfl, rfl, rfl, rfl⟩

end

end Pishoo.Registration
