import Pishoo.Acceptance
import Pishoo.InstallationOutcome

namespace Pishoo.Installation

open Result World PackageFiles Registry Registration

variable {γ : Type}

/-- The runtime files that the registered releases ask for. -/
def filesOf (inst : Installer γ) (releases : String → Option Release) (slot : Slot) : Option γ :=
  (releases slot.name).bind fun rel =>
    if rel.hasLib = true ∧ slotOf rel.id .lib = slot then some (inst.contents rel .lib)
    else if rel.hasApp = true ∧ slotOf rel.id .app = slot then some (inst.contents rel .app)
    else none

/-- The row speaks of the release. -/
structure Registers (p : Package) (rel : Release) : Prop where
  id : p.id = rel.id
  version : p.version = rel.version
  hasLib : p.hasLib = rel.hasLib
  hasApp : p.hasApp = rel.hasApp
  sha256 : p.packageSha256 = rel.packageSha256

/-- Each row has its release, and no name without a row has one. -/
structure Linked (db : Database) : Prop where
  registered : ∀ name p, db.registry.package name = some p →
    ∃ rel, db.releases name = some rel ∧ Registers p rel
  unregistered : ∀ name, db.registry.package name = none → db.releases name = none

/-- Where the paths of a library are mounted. -/
def placeOf (id : Id) : String := if standard id then "/std" else "/" ++ id.name

/-- The operation is one of the release's document below its mount, or the grant of its app. -/
def Declares (rel : Release) (o : LibCapabilityOperation) : Prop :=
  rel.hasLib = true ∧ ∃ gs, rel.groups = .ok gs ∧ ∃ g ∈ gs, o.capabilityId = g.id ∧
    ((∃ x ∈ g.endpoints, o.method = x.method ∧ o.path = placeOf rel.id ++ x.path) ∨
      g.app = true ∧ rel.hasApp = true ∧ o.method = "GET" ∧ o.path = "/app/" ++ rel.id.name)

/-- No library outside the standard publishers has an operation below `/std/`. -/
def Placed (r : Registry) : Prop := ∀ o ∈ r.operations, misplaced r o = false

section

variable {inst : Installer γ} {releases releases' : String → Option Release} {slot : Slot}
  {rel : Release} {db : Database} {r r' : Registry} {name : String}

theorem filesOf_slotOf (h : releases rel.id.name = some rel) (kind : Kind) :
    filesOf inst releases (slotOf rel.id kind) =
      if rel.has kind = true then some (inst.contents rel kind) else none := by
  have hne : slotOf rel.id .lib ≠ slotOf rel.id .app := fun heq =>
    rootOf_ne (congrArg Slot.root heq)
  have hname : (slotOf rel.id kind).name = rel.id.name := rfl
  rw [filesOf, hname, h, Option.bind_some]
  cases kind with
  | lib =>
      simp [hne.symm, Release.has]
      rfl
  | app =>
      simp [hne, Release.has]
      rfl

theorem filesOf_eq_none (h : ∀ rel, releases slot.name = some rel → ∀ kind, slotOf rel.id kind ≠ slot) :
    filesOf inst releases slot = none := by
  rw [filesOf, Option.bind_eq_none_iff]
  intro rel hrel
  rw [if_neg fun hlib => h rel hrel .lib hlib.2, if_neg fun happ => h rel hrel .app happ.2]

theorem filesOf_congr (h : releases' slot.name = releases slot.name) :
    filesOf inst releases' slot = filesOf inst releases slot := by
  rw [filesOf, filesOf, h]

theorem Linked.release_name (h : Linked db) (hrel : db.releases name = some rel) :
    rel.id.name = name := by
  cases hp : db.registry.package name with
  | none =>
      rw [h.unregistered name hp] at hrel
      cases hrel
  | some p =>
      obtain ⟨rel', hrel', hregisters⟩ := h.registered name p hp
      rw [hrel] at hrel'
      cases hrel'
      have hid := congrArg Id.name hregisters.id
      rw [← hid]
      exact (package_eq_some.mp hp).2

theorem registry_ext (h : r'.toTables = r.toTables) : r' = r := by
  cases r
  cases r'
  cases h
  rfl

/-- With nothing to move the migration changes nothing. -/
theorem migrateRegistration_eq (hp : Placed r) (h : migrateRegistration r = .ok r') : r' = r := by
  apply registry_ext
  have hsame : Rows.updateWhere (misplaced r) replaced r.operations = r.operations := by
    rw [Rows.updateWhere, List.map_congr_left (g := id), List.map_id]
    intro o ho
    rw [hp o ho]
    rfl
  rw [migrateRegistration_tables h, hsame]

theorem any_package (r : Registry) (name : String) (test : Package → Bool) :
    (r.packages.any fun p => p.name == name && test p) = (r.package name).any test := by
  rw [Bool.eq_iff_iff, List.any_eq_true, Option.any_eq_true]
  refine exists_congr fun p => ?_
  rw [package_eq_some, Bool.and_eq_true, beq_iff_eq, and_assoc]

theorem misplaced_eq (r : Registry) (o : LibCapabilityOperation) :
    misplaced r o = (o.path.toList.take 5 == "/std/".toList &&
      (r.package o.libName).any fun p => p.hasLib && !p.author.any isStandardAuthor) := by
  simp only [misplaced, Bool.and_assoc, any_package]

theorem misplaced_congr {o : LibCapabilityOperation}
    (h : r'.package o.libName = r.package o.libName) : misplaced r' o = misplaced r o := by
  rw [misplaced_eq, misplaced_eq, h]

theorem validName_ne_slash (h : validName name = true) : '/' ∉ name.toList := by
  intro hin
  rw [validName, Bool.and_eq_true] at h
  have hslash := List.all_eq_true.mp h.2 '/' hin
  revert hslash
  decide

/-- A path below the mount of an ordinary library is none below `/std/`. -/
theorem mounted_not_std {path : String} (hvalid : validName name = true) (hne : name ≠ "std")
    (hpath : path.toList.head? = some '/') :
    (("/" ++ name ++ path).toList.take 5 == "/std/".toList) = false := by
  have hslash := validName_ne_slash hvalid
  have hstd : name.toList ≠ ['s', 't', 'd'] := fun h => hne (String.toList_injective h)
  obtain ⟨rest, hrest⟩ := List.head?_eq_some_iff.mp hpath
  have hprefix : "/std/".toList = ['/', 's', 't', 'd', '/'] := rfl
  rw [beq_eq_false_iff_ne, String.toList_append, String.toList_append, hrest, hprefix]
  revert hslash hstd
  generalize name.toList = l
  intro hslash hstd htake
  match l with
  | [] => simp at htake
  | [a] => simp at htake
  | [a, b] => simp at htake
  | [a, b, c] =>
      apply hstd
      simpa using htake
  | a :: b :: c :: d :: l =>
      have hd : a = 's' ∧ b = 't' ∧ c = 'd' ∧ d = '/' := by simpa using htake
      apply hslash
      simp [hd.2.2.2]
end

section

variable {inst : Installer γ} {w : World γ} {n : String} {call : Call}
  {entries : List (Id × String)} {tx : Database} {e : Id × String} {name : String}

def namesOf (entries : List (Id × String)) : List String := entries.map fun e => e.1.name

theorem namesOf_entriesOf (changed : List Release) :
    namesOf (entriesOf changed) = changed.map fun rel => rel.id.name := by
  simp [namesOf, entriesOf, Function.comp_def]

theorem find_release {changed : List Release} {rel : Release} (hrel : rel ∈ changed)
    (hnames : (changed.map fun rel => rel.id.name).Nodup) :
    changed.find? (fun r => r.id.name == rel.id.name) = some rel := by
  exact Rows.select_of_mem hnames hrel

theorem find_release_none {changed : List Release}
    (h : name ∉ changed.map fun rel => rel.id.name) :
    changed.find? (fun r => r.id.name == name) = none := by
  rw [List.find?_eq_none]
  intro rel hrel heq
  exact h (List.mem_map.mpr ⟨rel, hrel, by simpa using heq⟩)

theorem Transaction.entry_other (h : Transaction inst w n call entries tx)
    (hn : name ∉ namesOf entries) : tx.registry.entry name = w.db.registry.entry name := by
  cases h with
  | install _ htx _ =>
      rw [namesOf_entriesOf] at hn
      exact Entry.saveAll_entry_other (examineAll_of_installTx htx).2 hn
  | remove _ _ htx _ =>
      rw [Entry.removeTx_entry htx, if_neg fun heq => hn (by simp [namesOf, heq])]

theorem Transaction.releases_other (h : Transaction inst w n call entries tx)
    (hn : name ∉ namesOf entries) : tx.releases name = w.db.releases name := by
  cases h with
  | install _ htx _ =>
      rw [namesOf_entriesOf] at hn
      simp [installedReleases, find_release_none hn]
  | remove _ _ _ _ =>
      exact if_neg fun heq => hn (by simp [namesOf, heq])

theorem installedReleases_of_mem {changed : List Release} {rel : Release}
    {releases : String → Option Release} (hrel : rel ∈ changed)
    (hnames : (changed.map fun rel => rel.id.name).Nodup) :
    installedReleases changed releases rel.id.name = some rel := by
  rw [installedReleases, find_release hrel hnames]
  rfl

/-- The candidates are the files that the new rows ask for. -/
theorem Transaction.candidate (h : Transaction inst w n call entries tx) (he : e ∈ entries)
    (kind : Kind) : w.candidate n e.2 kind = filesOf inst tx.releases (slotOf e.1 kind) := by
  cases h with
  | install _ htx hcandidate =>
      obtain ⟨rel, hrel, rfl⟩ := List.mem_map.mp he
      rw [hcandidate rel hrel, filesOf_slotOf (installedReleases_of_mem hrel (examineAll_nodup htx))]
  | remove _ _ _ hcandidate =>
      rw [List.mem_singleton.mp he, hcandidate, eq_comm]
      exact filesOf_eq_none fun rel hrel => absurd hrel (by simp [slotOf, removedReleases])

/-- A changed package keeps its publisher, so that it has no files elsewhere. -/
theorem Transaction.release_id (h : Transaction inst w n call entries tx) (hl : Linked w.db)
    (he : e ∈ entries) {rel : Release}
    (hrel : w.db.releases e.1.name = some rel ∨ tx.releases e.1.name = some rel) : rel.id = e.1 := by
  have hrow : ∀ p, w.db.registry.package e.1.name = some p → p.id = e.1 := by
    intro p hp
    cases h with
    | install _ htx _ =>
        obtain ⟨rel', hrel', rfl⟩ := List.mem_map.mp he
        obtain ⟨item, -, haccepted⟩ := accepted_of_mem (examineAll_of_installTx htx).1 hrel'
        exact haccepted.package_id hp
    | remove _ hregistered _ _ =>
        rw [List.mem_singleton.mp he] at hp ⊢
        obtain ⟨q, hq⟩ := Option.isSome_iff_exists.mp hregistered
        obtain ⟨hq, ha⟩ := registered_eq_some.mp hq
        rw [hp] at hq
        cases hq
        rw [Package.id, ha, (package_eq_some.mp hp).2]
  obtain hold | hnew := hrel
  · cases hp : w.db.registry.package e.1.name with
    | none =>
        rw [hl.unregistered _ hp] at hold
        cases hold
    | some p =>
        obtain ⟨rel', hrel', hregisters⟩ := hl.registered _ p hp
        rw [hold] at hrel'
        cases hrel'
        rw [← hregisters.id, hrow p hp]
  · cases h with
    | install _ htx _ =>
        obtain ⟨rel', hrel', rfl⟩ := List.mem_map.mp he
        have hfound : installedReleases _ w.db.releases rel'.id.name = some rel' :=
          installedReleases_of_mem hrel' (examineAll_nodup htx)
        exact congrArg Release.id (Option.some.inj (hnew.symm.trans hfound))
    | remove _ _ _ _ =>
        rw [List.mem_singleton.mp he] at hnew
        exact absurd hnew (by simp [removedReleases])

theorem Transaction.files_none (h : Transaction inst w n call entries tx) (hl : Linked w.db)
    (he : e ∈ entries) {slot : Slot} (hslot : slot.name = e.1.name)
    (hne : ∀ kind, slotOf e.1 kind ≠ slot) :
    filesOf inst w.db.releases slot = none ∧ filesOf inst tx.releases slot = none := by
  constructor
  · refine filesOf_eq_none fun rel hrel kind => ?_
    rw [h.release_id hl he (.inl (hslot ▸ hrel))]
    exact hne kind
  · refine filesOf_eq_none fun rel hrel kind => ?_
    rw [h.release_id hl he (.inr (hslot ▸ hrel))]
    exact hne kind

theorem registers_row {rel : Release} {now : Int} {old : Option Package}
    (hold : ∀ p, old = some p → p.name = rel.id.name) :
    Registers (old.elim (fresh rel.row now) (upgrade rel.row now)) rel := by
  obtain ⟨ha, hv, hl, happ, -, hsha, -⟩ := row_fields rel old now
  refine ⟨?_, hv, hl, happ, hsha⟩
  cases old with
  | none => rfl
  | some p =>
      have hname := hold p rfl
      simp [Package.id, upgrade, Release.row, hname]

theorem Transaction.registers (h : Transaction inst w n call entries tx)
    (hn : name ∈ namesOf entries) {p : Package} (hp : tx.registry.package name = some p) :
    ∃ rel, tx.releases name = some rel ∧ Registers p rel := by
  cases h with
  | install _ htx _ =>
      rw [namesOf_entriesOf] at hn
      obtain ⟨rel, hrel, rfl⟩ := List.mem_map.mp hn
      have hnames := examineAll_nodup htx
      have hrow := saveAll_package (examineAll_of_installTx htx).2 hnames hrel
      refine ⟨rel, installedReleases_of_mem hrel hnames, ?_⟩
      rw [← Option.some.inj (hrow.symm.trans hp)]
      exact registers_row fun q hq => (package_eq_some.mp hq).2
  | remove _ _ htx _ =>
      have hnone := removeTx_package htx name
      rw [if_pos (by simpa [namesOf] using hn)] at hnone
      exact absurd (hp.symm.trans hnone) (by simp)

theorem Transaction.unregistered (h : Transaction inst w n call entries tx)
    (hn : name ∈ namesOf entries) (hp : tx.registry.package name = none) :
    tx.releases name = none := by
  cases h with
  | install _ htx _ =>
      rw [namesOf_entriesOf] at hn
      obtain ⟨rel, hrel, rfl⟩ := List.mem_map.mp hn
      have hrow := saveAll_package (examineAll_of_installTx htx).2 (examineAll_nodup htx) hrel
      exact absurd (hp.symm.trans hrow) (by simp)
  | remove _ _ _ _ => exact if_pos (by simpa [namesOf] using hn)

theorem Transaction.linked (h : Transaction inst w n call entries tx) (hl : Linked w.db) :
    Linked tx := by
  refine ⟨fun name p hp => ?_, fun name hp => ?_⟩
  · by_cases hn : name ∈ namesOf entries
    · exact h.registers hn hp
    · rw [package_of_entry (h.entry_other hn)] at hp
      rw [h.releases_other hn]
      exact hl.registered name p hp
  · by_cases hn : name ∈ namesOf entries
    · exact h.unregistered hn hp
    · rw [package_of_entry (h.entry_other hn)] at hp
      rw [h.releases_other hn]
      exact hl.unregistered name hp

theorem groupRow_declares {rel : Release} {gs : List AccessGroup} {g : AccessGroup} {row : GroupRow}
    {endpoint : String × String} {lib : String} (hlib : rel.hasLib = true) (hgs : rel.groups = .ok gs)
    (hg : g ∈ gs) (h : groupRow rel g = .ok row) (he : endpoint ∈ row.endpoints) :
    Declares rel ⟨lib, row.id, endpoint.1, endpoint.2⟩ := by
  obtain ⟨_, happ, h⟩ := bind_eq_ok.mp h
  cases h
  refine ⟨hlib, gs, hgs, g, hg, rfl, ?_⟩
  obtain he | he := List.mem_append.mp he
  · obtain ⟨x, hx, rfl⟩ := List.mem_map.mp he
    exact .inl ⟨x, hx, rfl, rfl⟩
  · split at he
    · rename_i hgrant
      rw [List.mem_singleton.mp he]
      have hhas := failIf_eq_ok.mp happ
      exact .inr ⟨hgrant, by simpa [hgrant] using hhas, rfl, rfl⟩
    · cases he

theorem declares_of_mem {rel : Release} {groups : List GroupRow} {lib : String}
    {o : LibCapabilityOperation} (h : groupRows rel = .ok groups)
    (ho : o ∈ Entry.declaredOperations lib groups) : Declares rel o := by
  obtain ⟨row, hrow, ho⟩ := List.mem_flatMap.mp ho
  obtain ⟨endpoint, he, rfl⟩ := List.mem_map.mp ho
  rw [groupRows] at h
  split at h
  · rename_i hlib
    obtain ⟨gs, hgs, h⟩ := bind_eq_ok.mp h
    obtain ⟨g, hg, hgrow⟩ := exists_of_mem_mapM h hrow
    exact groupRow_declares hlib hgs hg hgrow he
  · cases h
    cases hrow

/-- What a release declares is placed for its publisher. -/
theorem Declares.not_misplaced {rel : Release} {o : LibCapabilityOperation} {r : Registry}
    {p : Package} (h : Declares rel o) (hvalid : validName rel.id.name = true)
    (hne : rel.id.name ≠ "std") (hp : r.package o.libName = some p) (hid : p.id = rel.id) :
    misplaced r o = false := by
  have hauthor : p.author = rel.id.author := congrArg Id.author hid
  rw [misplaced, Bool.and_eq_false_iff]
  by_cases hstd : standard rel.id = true
  · refine .inr ?_
    rw [List.any_eq_false]
    intro q hq hqname
    simp only [Bool.and_eq_true, beq_iff_eq] at hqname
    have hqp : q = p := Option.some.inj ((package_eq_some.mpr ⟨hq, hqname.1.1⟩).symm.trans hp)
    rw [hqp, hauthor, show rel.id.author.any isStandardAuthor = true from hstd] at hqname
    exact absurd hqname.2 (by simp)
  · refine .inl ?_
    obtain ⟨-, gs, -, g, -, -, ⟨x, -, -, hpath⟩ | ⟨-, -, -, hpath⟩⟩ := h
    · rw [hpath, placeOf, if_neg hstd]
      exact mounted_not_std hvalid hne x.rooted
    · rw [hpath, String.toList_append]
      rfl

theorem validName_of_validId {normalizeName : String → Option String} {id : Id}
    (h : validId normalizeName id = .ok ()) : validName id.name = true := by
  rw [validId] at h
  split at h
  · cases h
  · split at h
    · assumption
    · cases h

theorem Transaction.placed (h : Transaction inst w n call entries tx)
    (hp : Placed w.db.registry) : Placed tx.registry := by
  intro o ho
  by_cases hn : o.libName ∈ namesOf entries
  · cases h with
    | install _ htx _ =>
        rw [namesOf_entriesOf] at hn
        obtain ⟨rel, hrel, hname⟩ := List.mem_map.mp hn
        have hnames := examineAll_nodup htx
        obtain ⟨hexamine, hsave⟩ := examineAll_of_installTx htx
        obtain ⟨item, -, haccepted⟩ := accepted_of_mem hexamine hrel
        obtain ⟨groups, hgroups, hentry⟩ := Entry.saveAll_entry hsave hnames hrel
        have hmem := Entry.mem_operations.mpr ⟨ho, hname.symm⟩
        rw [hentry] at hmem
        have hrow := saveAll_package hsave hnames hrel
        rw [hname] at hrow
        refine (declares_of_mem hgroups hmem).not_misplaced ?_ ?_ hrow ?_
        · exact haccepted.identity ▸ validName_of_validId haccepted.valid
        · exact haccepted.identity ▸ haccepted.reserved
        · exact (registers_row fun q hq => (package_eq_some.mp (hname.symm ▸ hq)).2).id
    | remove _ _ htx _ =>
        have hmem := Entry.mem_operations.mpr ⟨ho, rfl⟩
        rw [Entry.removeTx_entry htx, if_pos (by simpa [namesOf] using hn)] at hmem
        cases hmem
  · have hsame := h.entry_other hn
    have hmem := Entry.mem_operations.mpr ⟨ho, rfl⟩
    rw [hsame] at hmem
    rw [misplaced_congr (package_of_entry hsame)]
    exact hp o (Entry.mem_operations.mp hmem).1

end

end Pishoo.Installation
