import Pishoo.Registration

namespace Pishoo

open Result

namespace Facts

theorem pairwise_sortedBy {α : Type} (key : α → List String) (rows : List α) :
    (sortedBy key rows).Pairwise (fun a b => key a ≤ key b) := by
  have htotal : Std.Total (fun a b : α => key a ≤ key b) := ⟨fun a b => le_total (key a) (key b)⟩
  have htrans : IsTrans α (fun a b : α => key a ≤ key b) := ⟨fun _ _ _ => le_trans⟩
  exact List.pairwise_insertionSort (fun a b => key a ≤ key b) rows

theorem sortedBy_perm {α : Type} (key : α → List String) (rows : List α) :
    (sortedBy key rows).Perm rows :=
  List.perm_insertionSort _ rows

theorem map_sortedBy {α β : Type} {f : α → β} {key : α → List String} {key' : β → List String}
    (h : ∀ a, key' (f a) = key a) (rows : List α) :
    (sortedBy key rows).map f = sortedBy key' (rows.map f) := by
  refine List.map_insertionSort _ _ f rows fun a _ b _ => ?_
  rw [h, h]

theorem sortedBy_eq_iff {α : Type} {key : α → List String} {rows rows' : List α}
    (h : (rows.map key).Nodup) (h' : (rows'.map key).Nodup) :
    sortedBy key rows = sortedBy key rows' ↔ ∀ x, x ∈ rows ↔ x ∈ rows' := by
  constructor
  · intro heq x
    rw [← (sortedBy_perm key rows).mem_iff, heq, (sortedBy_perm key rows').mem_iff]
  · intro hmem
    have hperm : rows.Perm rows' := (List.perm_ext_iff_of_nodup h.of_map h'.of_map).mpr hmem
    refine List.Perm.eq_of_pairwise ?_ (pairwise_sortedBy key rows) (pairwise_sortedBy key rows')
      (((sortedBy_perm key rows).trans hperm).trans (sortedBy_perm key rows').symm)
    intro a b ha hb hab hba
    rw [(sortedBy_perm key rows).mem_iff] at ha
    rw [(sortedBy_perm key rows').mem_iff, ← hmem] at hb
    exact List.inj_on_of_nodup_map h ha hb (le_antisymm hab hba)

theorem map_eq_map_iff {α β : Type} {f : α → β} {g : β → α} {l l' : List α}
    (h : ∀ x ∈ l, g (f x) = x) (h' : ∀ x ∈ l', g (f x) = x) : l.map f = l'.map f ↔ l = l' := by
  constructor
  · intro heq
    have hid {m : List α} (hm : ∀ x ∈ m, g (f x) = x) : (m.map f).map g = m := by
      rw [List.map_map]
      exact (List.map_congr_left hm).trans m.map_id
    rw [← hid h, heq, hid h']
  · rintro rfl
    rfl

theorem row_injective {p q : Package} (h : row p = row q) : p = q := by
  have hint {x y : Option Int} (h : SqlValue.ofInt x = .ofInt y) : x = y := by
    cases x <;> cases y <;> simp_all [SqlValue.ofInt]
  have htext {x y : Option String} (h : SqlValue.ofText x = .ofText y) : x = y := by
    cases x <;> cases y <;> simp_all [SqlValue.ofText]
  have hbool {x y : Bool} (h : SqlValue.ofBool x = .ofBool y) : x = y := by
    cases x <;> cases y <;> simp_all [SqlValue.ofBool]
  simp only [row, rowV3, List.cons_append, List.nil_append, List.cons.injEq,
    SqlValue.text.injEq] at h
  obtain ⟨h1, h2, h3, h4, h5, h6, h7, h8, h9, h10, h11, h12, h13, h14, -⟩ := h
  cases p
  cases q
  simp only [Package.mk.injEq]
  exact ⟨h1, htext h2, h3, htext h4, htext h5, htext h6, htext h7, hint h8, hint h9, hbool h10,
    hbool h11, htext h12, htext h13, htext h14⟩

end Facts

/-- The rows of one package name. -/
structure Entry where
  package : Option Package
  dependencies : List PackageDependency
  capabilities : List LibCapability
  operations : List LibCapabilityOperation

def Registry.entry (r : Registry) (name : String) : Entry where
  package := r.package name
  dependencies := r.dependencies.filter (fun d => d.packageName == name)
  capabilities := r.capabilities.filter (fun c => c.libName == name)
  operations := r.operations.filter (fun o => o.libName == name)

namespace Entry

open Registry Registration

def declaredDependencies (id : Id) (dependencies : List Dependency) : List PackageDependency :=
  dependencies.map (fun dep => ⟨id.name, dep.id.name, dep.version⟩)

def declaredCapabilities (lib : String) (groups : List GroupRow) : List LibCapability :=
  groups.map (fun g => ⟨lib, g.id, g.title⟩)

def declaredOperations (lib : String) (groups : List GroupRow) : List LibCapabilityOperation :=
  groups.flatMap (fun g => g.endpoints.map (fun e => ⟨lib, g.id, e.1, e.2⟩))

def facts (row : Package → List SqlValue) (e : Entry) : Facts where
  package := e.package.map row
  dependencies := Facts.dependencyFacts e.dependencies
  capabilities := Facts.capabilityFacts e.capabilities
  operations := Facts.operationFacts e.operations

/-- The same rows up to their order. -/
structure Same (e e' : Entry) : Prop where
  package : e.package = e'.package
  dependencies : ∀ d, d ∈ e.dependencies ↔ d ∈ e'.dependencies
  capabilities : ∀ c, c ∈ e.capabilities ↔ c ∈ e'.capabilities
  operations : ∀ o, o ∈ e.operations ↔ o ∈ e'.operations

theorem factsWith_eq (row : Package → List SqlValue) (r : Registry) (name : String) :
    factsWith row r name = (r.entry name).facts row :=
  rfl

theorem mem_dependencies {r : Registry} {name : String} {d : PackageDependency} :
    d ∈ (r.entry name).dependencies ↔ d ∈ r.dependencies ∧ d.packageName = name := by
  simp [entry]

theorem mem_capabilities {r : Registry} {name : String} {c : LibCapability} :
    c ∈ (r.entry name).capabilities ↔ c ∈ r.capabilities ∧ c.libName = name := by
  simp [entry]

theorem mem_operations {r : Registry} {name : String} {o : LibCapabilityOperation} :
    o ∈ (r.entry name).operations ↔ o ∈ r.operations ∧ o.libName = name := by
  simp [entry]

theorem nodup_dependencyName (r : Registry) (name : String) :
    ((r.entry name).dependencies.map (fun d => [d.dependencyName])).Nodup := by
  have hkeys : ((r.entry name).dependencies.map PackageDependency.key).Nodup :=
    r.valid.edges.sublist (List.filter_sublist.map _)
  refine List.Nodup.map_on ?_ hkeys.of_map
  intro a ha b hb hab
  rw [mem_dependencies] at ha hb
  refine List.inj_on_of_nodup_map r.valid.edges ha.1 hb.1 (Prod.ext ?_ (List.cons.inj hab).1)
  exact ha.2.trans hb.2.symm

theorem nodup_capabilityId (r : Registry) (name : String) :
    ((r.entry name).capabilities.map (fun c => [c.capabilityId])).Nodup := by
  have hkeys : ((r.entry name).capabilities.map LibCapability.key).Nodup :=
    r.valid.capabilityKeys.sublist (List.filter_sublist.map _)
  refine List.Nodup.map_on ?_ hkeys.of_map
  intro a ha b hb hab
  rw [mem_capabilities] at ha hb
  refine List.inj_on_of_nodup_map r.valid.capabilityKeys ha.1 hb.1
    (Prod.ext ?_ (List.cons.inj hab).1)
  exact ha.2.trans hb.2.symm

theorem nodup_operation (r : Registry) (name : String) :
    ((r.entry name).operations.map (fun o => [o.capabilityId, o.method, o.path])).Nodup := by
  have hkeys : ((r.entry name).operations.map LibCapabilityOperation.route).Nodup :=
    r.valid.operationKeys.sublist (List.filter_sublist.map _)
  refine List.Nodup.map_on ?_ hkeys.of_map
  intro a ha b hb hab
  simp only [List.cons.injEq] at hab
  exact List.inj_on_of_nodup_map r.valid.operationKeys (mem_operations.mp ha).1
    (mem_operations.mp hb).1 (Prod.ext hab.2.1 hab.2.2.1)

theorem dependencyFacts_eq_iff (r r' : Registry) (name : String) :
    Facts.dependencyFacts (r.entry name).dependencies =
      Facts.dependencyFacts (r'.entry name).dependencies ↔
      ∀ d, d ∈ (r.entry name).dependencies ↔ d ∈ (r'.entry name).dependencies := by
  rw [← Facts.sortedBy_eq_iff (nodup_dependencyName r name) (nodup_dependencyName r' name)]
  apply Facts.map_eq_map_iff (g := fun x => ⟨name, x.1, x.2⟩)
  all_goals
    intro d hd
    rw [(Facts.sortedBy_perm _ _).mem_iff, mem_dependencies] at hd
    rw [← hd.2]

theorem capabilityFacts_eq_iff (r r' : Registry) (name : String) :
    Facts.capabilityFacts (r.entry name).capabilities =
      Facts.capabilityFacts (r'.entry name).capabilities ↔
      ∀ c, c ∈ (r.entry name).capabilities ↔ c ∈ (r'.entry name).capabilities := by
  rw [← Facts.sortedBy_eq_iff (nodup_capabilityId r name) (nodup_capabilityId r' name)]
  apply Facts.map_eq_map_iff (g := fun x => ⟨name, x.1, x.2⟩)
  all_goals
    intro c hc
    rw [(Facts.sortedBy_perm _ _).mem_iff, mem_capabilities] at hc
    rw [← hc.2]

theorem operationFacts_eq_iff (r r' : Registry) (name : String) :
    Facts.operationFacts (r.entry name).operations =
      Facts.operationFacts (r'.entry name).operations ↔
      ∀ o, o ∈ (r.entry name).operations ↔ o ∈ (r'.entry name).operations := by
  rw [← Facts.sortedBy_eq_iff (nodup_operation r name) (nodup_operation r' name)]
  apply Facts.map_eq_map_iff (g := fun x => ⟨name, x.1, x.2.1, x.2.2⟩)
  all_goals
    intro o ho
    rw [(Facts.sortedBy_perm _ _).mem_iff, mem_operations] at ho
    rw [← ho.2]

/-- The facts of a name determine its rows. -/
theorem registrationFacts_eq_iff (r r' : Registry) (name : String) :
    registrationFacts r name = registrationFacts r' name ↔
      (r.entry name).Same (r'.entry name) := by
  rw [registrationFacts, factsWith_eq, factsWith_eq]
  simp only [facts, Facts.mk.injEq, dependencyFacts_eq_iff, capabilityFacts_eq_iff,
    operationFacts_eq_iff]
  constructor
  · rintro ⟨h1, h2, h3, h4⟩
    exact ⟨Option.map_injective (fun _ _ => Facts.row_injective) h1, h2, h3, h4⟩
  · rintro ⟨h1, h2, h3, h4⟩
    exact ⟨congrArg _ h1, h2, h3, h4⟩

/-- The projection of the previous schema is shorter, so that it agrees with a full one only if
there is no row. -/
theorem matchesFacts_iff (r r' : Registry) (name : String) :
    matchesFacts r name (registrationFacts r' name) = true ↔
      registrationFacts r' name = registrationFacts r name := by
  rw [matchesFacts, Bool.or_eq_true, beq_iff_eq, beq_iff_eq, or_iff_left_iff_imp]
  intro heq
  have hp : (r'.package name).map Facts.row = (r.package name).map Facts.rowV3 :=
    congrArg Facts.package heq
  have hlen := congrArg (Option.map List.length) hp
  cases hrow : r.package name with
  | some p => cases hrow' : r'.package name <;> simp [hrow, hrow', Facts.row, Facts.rowV3] at hlen
  | none =>
      rw [heq, registrationFactsV3, registrationFacts, factsWith, factsWith, hrow]
      rfl

section

variable {r r' : Registry}

theorem filter_deleteWhere {α : Type} {key : α → String} {rows : List α} (name other : String) :
    (Rows.deleteWhere (fun x => key x == name) rows).filter (fun x => key x == other) =
      if other = name then [] else rows.filter (fun x => key x == other) := by
  rw [Rows.deleteWhere, List.filter_filter]
  split
  · subst other
    simp
  · rename_i hn
    refine List.filter_congr fun x _ => ?_
    by_cases hx : key x = other
    · simp [hx, hn]
    · simp [hx]

theorem filter_snoc {α : Type} {key : α → String} {rows : List α} (x : α) (name : String) :
    (rows ++ [x]).filter (fun y => key y == name) =
      rows.filter (fun y => key y == name) ++ if name = key x then [x] else [] := by
  rw [List.filter_append]
  by_cases hx : key x = name
  · simp [hx]
  · simp [hx, Ne.symm hx]

theorem upsertPackage_entry {row : Package} {now : Int} (h : r.upsertPackage row now = .ok r')
    (name : String) : r'.entry name = if name = row.name then
      { r.entry name with
        package := some ((r.package row.name).elim (fresh row now) (upgrade row now)) }
      else r.entry name := by
  obtain ⟨hd, hc, ho⟩ := upsertPackage_rest h
  simp only [entry, upsertPackage_package h, hd, hc, ho]
  split <;> rfl

theorem deleteDependencies_entry {name : String} (h : r.deleteDependencies name = .ok r')
    (other : String) : r'.entry other = if other = name then
      { r.entry other with dependencies := [] } else r.entry other := by
  obtain ⟨hp, hd, hc, ho⟩ := deleteDependencies_eq h
  simp only [entry, package_congr hp, hd, hc, ho, filter_deleteWhere]
  split <;> rfl

theorem insertDependency_entry {d : PackageDependency} (h : r.insertDependency d = .ok r')
    (name : String) : r'.entry name = if name = d.packageName then
      { r.entry name with dependencies := (r.entry name).dependencies ++ [d] }
      else r.entry name := by
  obtain ⟨hp, hd, hc, ho⟩ := insertDependency_eq h
  simp only [entry, package_congr hp, hd, hc, ho, filter_snoc]
  split
  · rfl
  · simp

theorem deleteCapabilities_entry {name : String} (h : r.deleteCapabilities name = .ok r')
    (other : String) : r'.entry other = if other = name then
      { r.entry other with capabilities := [], operations := [] } else r.entry other := by
  obtain ⟨hp, hd, hc, ho⟩ := deleteCapabilities_eq h
  simp only [entry, package_congr hp, hd, hc, ho, filter_deleteWhere]
  split <;> rfl

theorem insertCapability_entry {c : LibCapability} (h : r.insertCapability c = .ok r')
    (name : String) : r'.entry name = if name = c.libName then
      { r.entry name with capabilities := (r.entry name).capabilities ++ [c] }
      else r.entry name := by
  obtain ⟨hp, hd, hc, ho⟩ := insertCapability_eq h
  simp only [entry, package_congr hp, hd, hc, ho, filter_snoc]
  split
  · rfl
  · simp

theorem insertOperation_entry {o : LibCapabilityOperation} (h : r.insertOperation o = .ok r')
    (name : String) : r'.entry name = if name = o.libName then
      { r.entry name with operations := (r.entry name).operations ++ [o] }
      else r.entry name := by
  obtain ⟨hp, hd, hc, ho⟩ := insertOperation_eq h
  simp only [entry, package_congr hp, hd, hc, ho, filter_snoc]
  split
  · rfl
  · simp

theorem deletePackage_entry {name : String} (h : r.deletePackage name = .ok r') (other : String) :
    r'.entry other = if other = name then
      { r.entry other with package := none, dependencies := [] } else r.entry other := by
  have hp := deletePackage_package h other
  have hd := deletePackage_dependencies h
  have hc : r'.capabilities = r.capabilities := by rw [stored_ok h]
  have ho : r'.operations = r.operations := by rw [stored_ok h]
  simp only [entry, hp, hd, hc, ho, filter_deleteWhere]
  split <;> rfl

theorem saveDependencies_entry {id : Id} {dependencies : List Dependency}
    (h : dependencies.foldlM (saveDependency id) r = .ok r') (name : String) :
    r'.entry name = if name = id.name then
      { r.entry name with
        dependencies := (r.entry name).dependencies ++ declaredDependencies id dependencies }
      else r.entry name := by
  induction dependencies generalizing r with
  | nil =>
      cases h
      simp [declaredDependencies]
  | cons dep dependencies ih =>
      rw [List.foldlM_cons] at h
      obtain ⟨r₁, h₁, h⟩ := bind_eq_ok.mp h
      obtain ⟨_, -, h₁⟩ := bind_eq_ok.mp h₁
      obtain ⟨_, -, h₁⟩ := bind_eq_ok.mp h₁
      rw [ih h, insertDependency_entry h₁]
      split
      · simp [declaredDependencies]
      · rfl

theorem insertOperations_entry {lib id : String} {endpoints : List (String × String)}
    (h : endpoints.foldlM (fun r e => r.insertOperation ⟨lib, id, e.1, e.2⟩) r = .ok r')
    (name : String) : r'.entry name = if name = lib then
      { r.entry name with
        operations := (r.entry name).operations ++ endpoints.map (fun e => ⟨lib, id, e.1, e.2⟩) }
      else r.entry name := by
  induction endpoints generalizing r with
  | nil =>
      cases h
      simp
  | cons e endpoints ih =>
      rw [List.foldlM_cons] at h
      obtain ⟨r₁, h₁, h⟩ := bind_eq_ok.mp h
      rw [ih h, insertOperation_entry h₁]
      split
      · simp
      · rfl

theorem saveGroups_entry {lib : String} {groups : List GroupRow}
    (h : groups.foldlM (saveGroup lib) r = .ok r') (name : String) :
    r'.entry name = if name = lib then
      { r.entry name with
        capabilities := (r.entry name).capabilities ++ declaredCapabilities lib groups
        operations := (r.entry name).operations ++ declaredOperations lib groups }
      else r.entry name := by
  induction groups generalizing r with
  | nil =>
      cases h
      simp [declaredCapabilities, declaredOperations]
  | cons g groups ih =>
      rw [List.foldlM_cons] at h
      obtain ⟨r₁, h₁, h⟩ := bind_eq_ok.mp h
      obtain ⟨r₀, h₀, h₁⟩ := bind_eq_ok.mp h₁
      rw [ih h, insertOperations_entry h₁, insertCapability_entry h₀]
      split
      · simp [declaredCapabilities, declaredOperations]
      · rfl

theorem permissions_entry {lib : String} {groups : List GroupRow}
    (h : permissions r lib groups = .ok r') (name : String) :
    r'.entry name = if name = lib then
      { r.entry name with
        capabilities := declaredCapabilities lib groups
        operations := declaredOperations lib groups }
      else r.entry name := by
  obtain ⟨r₀, h₀, h⟩ := bind_eq_ok.mp h
  rw [saveGroups_entry h, deleteCapabilities_entry h₀]
  split <;> simp

theorem saveRegistration_entry {rel : Release} {now : Int}
    (h : saveRegistration r rel now = .ok r') : ∃ groups, groupRows rel = .ok groups ∧
      ∀ name, r'.entry name = if name = rel.id.name then
        { package := some ((r.package name).elim (fresh rel.row now) (upgrade rel.row now))
          dependencies := declaredDependencies rel.id rel.dependencies
          capabilities := declaredCapabilities name groups
          operations := declaredOperations name groups }
        else r.entry name := by
  obtain ⟨_, -, h⟩ := bind_eq_ok.mp h
  obtain ⟨_, -, h⟩ := bind_eq_ok.mp h
  obtain ⟨_, -, h⟩ := bind_eq_ok.mp h
  obtain ⟨r₁, h₁, h⟩ := bind_eq_ok.mp h
  obtain ⟨r₂, h₂, h⟩ := bind_eq_ok.mp h
  obtain ⟨r₃, h₃, h⟩ := bind_eq_ok.mp h
  obtain ⟨groups, hg, h⟩ := bind_eq_ok.mp h
  refine ⟨groups, hg, fun name => ?_⟩
  rw [permissions_entry h, saveDependencies_entry h₃, deleteDependencies_entry h₂,
    upsertPackage_entry h₁]
  by_cases hn : name = rel.id.name
  · subst hn
    simp [Release.row]
  · have hrow : name ≠ rel.row.name := hn
    simp [hn, hrow]

theorem deleteAll_entry {changed : List Release}
    (h : changed.foldlM (fun r rel => r.deleteDependencies rel.id.name) r = .ok r')
    (name : String) : r'.entry name = if name ∈ changed.map (fun rel => rel.id.name) then
      { r.entry name with dependencies := [] } else r.entry name := by
  induction changed generalizing r with
  | nil =>
      cases h
      simp
  | cons rel changed ih =>
      rw [List.foldlM_cons] at h
      obtain ⟨r₁, h₁, h⟩ := bind_eq_ok.mp h
      rw [ih h, deleteDependencies_entry h₁]
      by_cases hn : name = rel.id.name
      · simp [hn]
      · simp [hn]

theorem saveEach_entry_other {changed : List Release} {now : String → Int} {name : String}
    (h : changed.foldlM (saveAt now) r = .ok r')
    (hn : name ∉ changed.map (fun rel => rel.id.name)) : r'.entry name = r.entry name := by
  refine foldlM_invariant (P := fun s : Registry => s.entry name = r.entry name) h rfl ?_
  intro rel hrel s t hs ht
  obtain ⟨_, _, hentry⟩ := saveRegistration_entry ht
  have hne : name ≠ rel.id.name := by
    rintro rfl
    exact hn (List.mem_map_of_mem hrel)
  rw [hentry, if_neg hne, hs]

theorem saveEach_entry {changed : List Release} {now : String → Int} {rel : Release}
    (h : changed.foldlM (saveAt now) r = .ok r')
    (hnames : (changed.map (fun rel => rel.id.name)).Nodup) (hrel : rel ∈ changed) :
    ∃ groups, groupRows rel = .ok groups ∧ r'.entry rel.id.name =
      { package := some ((r.package rel.id.name).elim (fresh rel.row (now rel.id.name))
          (upgrade rel.row (now rel.id.name)))
        dependencies := declaredDependencies rel.id rel.dependencies
        capabilities := declaredCapabilities rel.id.name groups
        operations := declaredOperations rel.id.name groups } := by
  induction changed generalizing r with
  | nil => cases hrel
  | cons first changed ih =>
      rw [List.foldlM_cons] at h
      obtain ⟨r₁, h₁, h₂⟩ := bind_eq_ok.mp h
      rw [List.map_cons] at hnames
      obtain ⟨hfirst, hrest⟩ := List.nodup_cons.mp hnames
      obtain ⟨groups, hg, hentry⟩ := saveRegistration_entry h₁
      obtain rfl | hrel := List.mem_cons.mp hrel
      · refine ⟨groups, hg, ?_⟩
        rw [saveEach_entry_other h₂ hfirst, hentry, if_pos rfl]
      · have hne : rel.id.name ≠ first.id.name := by
          intro hname
          rw [← hname] at hfirst
          exact hfirst (List.mem_map_of_mem hrel)
        have hsame : r₁.package rel.id.name = r.package rel.id.name := by
          have := hentry rel.id.name
          rw [if_neg hne] at this
          exact congrArg Entry.package this
        rw [← hsame]
        exact ih h₂ hrest hrel

/-- After a batch each changed name has exactly the rows that its release declares. -/
theorem saveAll_entry {changed : List Release} {now : String → Int} {rel : Release}
    (h : saveAll r changed now = .ok r') (hnames : (changed.map (fun rel => rel.id.name)).Nodup)
    (hrel : rel ∈ changed) :
    ∃ groups, groupRows rel = .ok groups ∧ r'.entry rel.id.name =
      { package := some ((r.package rel.id.name).elim (fresh rel.row (now rel.id.name))
          (upgrade rel.row (now rel.id.name)))
        dependencies := declaredDependencies rel.id rel.dependencies
        capabilities := declaredCapabilities rel.id.name groups
        operations := declaredOperations rel.id.name groups } := by
  obtain ⟨r₀, h₀, h⟩ := bind_eq_ok.mp h
  have hsame : r₀.package rel.id.name = r.package rel.id.name := by
    have := deleteAll_entry h₀ rel.id.name
    rw [if_pos (List.mem_map_of_mem hrel)] at this
    exact congrArg Entry.package this
  rw [← hsame]
  exact saveEach_entry h hnames hrel

theorem saveAll_entry_other {changed : List Release} {now : String → Int} {name : String}
    (h : saveAll r changed now = .ok r') (hn : name ∉ changed.map (fun rel => rel.id.name)) :
    r'.entry name = r.entry name := by
  obtain ⟨r₀, h₀, h⟩ := bind_eq_ok.mp h
  rw [saveEach_entry_other h hn, deleteAll_entry h₀, if_neg hn]

theorem removeTx_entry {id : Id} (h : removeTx r id = .ok r') (name : String) :
    r'.entry name = if name = id.name then ⟨none, [], [], []⟩ else r.entry name := by
  obtain ⟨_, -, h⟩ := bind_eq_ok.mp h
  obtain ⟨r₀, h₀, h⟩ := bind_eq_ok.mp h
  rw [deletePackage_entry h, permissions_entry h₀]
  split <;> simp [declaredCapabilities, declaredOperations]

end

end Entry

end Pishoo
