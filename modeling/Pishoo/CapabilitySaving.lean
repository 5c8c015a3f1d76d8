import Pishoo.CapabilityRows
import Pishoo.RouteAgreement

namespace Pishoo.CapabilitySaving

open Result Registry Registration Entry RouteAgreement PathText

/-- The tables without the declarations of a lib. -/
def cleared (t : Tables) (name : String) : Tables :=
  { t with
    capabilities := Rows.deleteWhere (fun c => c.libName == name) t.capabilities
    operations := Rows.deleteWhere (fun o => o.libName == name) t.operations }

def declaring (t : Tables) (name : String) (groups : List GroupRow) : Tables :=
  { t with
    capabilities := t.capabilities ++ declaredCapabilities name groups
    operations := t.operations ++ declaredOperations name groups }

/-- Each operation lies at the name of its lib. -/
def Owned (r : Registry) : Prop := ∀ o ∈ r.operations, ownerOf (chars o.path) = chars o.libName

/-- The groups keep to the constraints of the two tables and to the name of their lib. -/
structure Sound (name : String) (groups : List GroupRow) : Prop where
  ids : (groups.map GroupRow.id).Nodup
  rows : ∀ g ∈ groups, (LibCapability.mk name g.id g.title).checks = true
  routes : (groups.flatMap GroupRow.endpoints).Nodup
  endpoints : ∀ g ∈ groups, ∀ e ∈ g.endpoints,
    (LibCapabilityOperation.mk name g.id e.1 e.2).checks = true
  owner : ∀ g ∈ groups, ∀ e ∈ g.endpoints, ownerOf (chars e.2) = chars name

section

variable {r r' : Registry} {t t' : Tables} {name : String} {g : GroupRow} {groups : List GroupRow}
  {id : String} {endpoints : List (String × String)}

theorem stored_of_valid (h : t.Valid) : ∃ r, stored t = .ok r ∧ r.toTables = t :=
  ⟨⟨t, h⟩, dif_pos h, rfl⟩

/-- A part of the rows of two tables is as good as all of them, if no parent is missing. -/
theorem valid_of_sublist (h : t.Valid) (hpackages : t'.packages = t.packages)
    (hdependencies : t'.dependencies = t.dependencies)
    (hcapabilities : t'.capabilities.Sublist t.capabilities)
    (hoperations : t'.operations.Sublist t.operations)
    (hparents : ∀ o ∈ t'.operations, o.parent ∈ t'.capabilities.map LibCapability.key) :
    t'.Valid where
  names := hpackages ▸ h.names
  contents := hpackages ▸ h.contents
  edges := hdependencies ▸ h.edges
  loops := hdependencies ▸ h.loops
  sources := by
    rw [hpackages, hdependencies]
    exact h.sources
  targets := by
    rw [hpackages, hdependencies]
    exact h.targets
  capabilityKeys := h.capabilityKeys.sublist (hcapabilities.map _)
  capabilityChecks c hc := h.capabilityChecks c (hcapabilities.subset hc)
  operationKeys := h.operationKeys.sublist (hoperations.map _)
  operationChecks o ho := h.operationChecks o (hoperations.subset ho)
  parents := hparents

theorem insertOperations_tables
    (h : endpoints.foldlM (fun r e => r.insertOperation ⟨name, id, e.1, e.2⟩) r = .ok r') :
    r'.toTables = { r.toTables with
      operations := r.operations ++ endpoints.map fun e => ⟨name, id, e.1, e.2⟩ } := by
  induction endpoints generalizing r with
  | nil =>
      cases h
      simp
  | cons e endpoints ih =>
      rw [List.foldlM_cons] at h
      obtain ⟨r₁, h₁, h⟩ := bind_eq_ok.mp h
      rw [ih h, stored_ok h₁]
      simp

theorem saveGroups_tables (h : groups.foldlM (saveGroup name) r = .ok r') :
    r'.toTables = declaring r.toTables name groups := by
  induction groups generalizing r with
  | nil =>
      cases h
      simp [declaring, declaredCapabilities, declaredOperations]
  | cons g groups ih =>
      rw [List.foldlM_cons] at h
      obtain ⟨r₁, h₁, h⟩ := bind_eq_ok.mp h
      obtain ⟨r₀, h₀, h₁⟩ := bind_eq_ok.mp h₁
      rw [ih h, insertOperations_tables h₁, stored_ok h₀]
      simp [declaring, declaredCapabilities, declaredOperations]

theorem permissions_tables (h : permissions r name groups = .ok r') :
    r'.toTables = declaring (cleared r.toTables name) name groups := by
  obtain ⟨r₀, h₀, h⟩ := bind_eq_ok.mp h
  rw [saveGroups_tables h, stored_ok h₀]
  rfl

theorem insertOperations_ok (h : ({ r.toTables with
      operations := r.operations ++ endpoints.map fun e => ⟨name, id, e.1, e.2⟩ } : Tables).Valid) :
    ∃ r', endpoints.foldlM (fun r e => r.insertOperation ⟨name, id, e.1, e.2⟩) r = .ok r' := by
  induction endpoints generalizing r with
  | nil => exact ⟨r, rfl⟩
  | cons e endpoints ih =>
      have hfirst : ({ r.toTables with operations := r.operations ++ [⟨name, id, e.1, e.2⟩] } :
          Tables).Valid := by
        refine valid_of_sublist h rfl rfl (List.Sublist.refl _) ?_ fun o ho => h.parents o ?_
        · rw [List.map_cons]
          exact (List.Sublist.refl _).append (List.singleton_sublist.mpr List.mem_cons_self)
        · rw [List.map_cons]
          rw [List.mem_append, List.mem_singleton] at ho
          rw [List.mem_append, List.mem_cons]
          exact ho.imp_right .inl
      obtain ⟨r₁, h₁, htables⟩ := stored_of_valid hfirst
      have hrest := h
      rw [List.map_cons, ← List.singleton_append, ← List.append_assoc] at hrest
      obtain ⟨r', h'⟩ := ih (r := r₁) (by rw [htables]; exact hrest)
      refine ⟨r', ?_⟩
      rw [List.foldlM_cons, insertOperation, h₁, ok_bind]
      exact h'

theorem declaring_cons :
    declaring t name (g :: groups) = declaring (declaring t name [g]) name groups := by
  simp [declaring, declaredCapabilities, declaredOperations]

theorem mem_declaredOperations {o : LibCapabilityOperation} :
    o ∈ declaredOperations name groups ↔
      ∃ g ∈ groups, ∃ e ∈ g.endpoints, o = ⟨name, g.id, e.1, e.2⟩ := by
  simp [declaredOperations, eq_comm]

theorem parent_declared {o : LibCapabilityOperation} (h : o ∈ declaredOperations name groups) :
    o.parent ∈ (declaredCapabilities name groups).map LibCapability.key := by
  obtain ⟨g, hg, e, -, rfl⟩ := mem_declaredOperations.mp h
  exact List.mem_map_of_mem (List.mem_map_of_mem hg)

theorem routes_declared : (declaredOperations name groups).map LibCapabilityOperation.route =
    groups.flatMap GroupRow.endpoints := by
  rw [declaredOperations, List.map_flatMap]
  refine List.flatMap_congr fun g _ => ?_
  rw [List.map_map]
  exact List.map_id _

theorem saveGroup_ok (h : (declaring r.toTables name [g]).Valid) :
    ∃ r', saveGroup name r g = .ok r' := by
  have hfirst : ({ r.toTables with capabilities := r.capabilities ++ [⟨name, g.id, g.title⟩] } :
      Tables).Valid := by
    refine valid_of_sublist h rfl rfl (List.Sublist.refl _) (List.sublist_append_left _ _) ?_
    intro o ho
    rw [List.map_append, List.mem_append]
    exact .inl (r.valid.parents o ho)
  obtain ⟨r₀, h₀, htables⟩ := stored_of_valid hfirst
  have hoperations : ({ r₀.toTables with operations := r₀.operations ++ g.endpoints.map fun e =>
      ⟨name, g.id, e.1, e.2⟩ } : Tables).Valid := by
    rw [htables]
    simpa [declaring, declaredCapabilities, declaredOperations] using h
  obtain ⟨r', h'⟩ := insertOperations_ok hoperations
  refine ⟨r', ?_⟩
  rw [saveGroup, insertCapability, h₀, ok_bind]
  exact h'

theorem saveGroups_ok (h : (declaring r.toTables name groups).Valid) :
    ∃ r', groups.foldlM (saveGroup name) r = .ok r' := by
  induction groups generalizing r with
  | nil => exact ⟨r, rfl⟩
  | cons g groups ih =>
      rw [declaring_cons] at h
      have hfirst : (declaring r.toTables name [g]).Valid := by
        refine valid_of_sublist h rfl rfl (List.sublist_append_left _ _)
          (List.sublist_append_left _ _) fun o ho => ?_
        obtain ho | ho := List.mem_append.mp ho
        · rw [declaring, List.map_append, List.mem_append]
          exact .inl (r.valid.parents o ho)
        · rw [declaring, List.map_append, List.mem_append]
          exact .inr (parent_declared ho)
      obtain ⟨r₁, h₁⟩ := saveGroup_ok hfirst
      have htables : r₁.toTables = declaring r.toTables name [g] := by
        have hone : [g].foldlM (saveGroup name) r = .ok r₁ := by
          rw [List.foldlM_cons, h₁]
          rfl
        exact saveGroups_tables hone
      obtain ⟨r', h'⟩ := ih (r := r₁) (by rw [htables]; exact h)
      refine ⟨r', ?_⟩
      rw [List.foldlM_cons, h₁, ok_bind, h']

theorem cleared_valid (r : Registry) (name : String) : (cleared r.toTables name).Valid := by
  refine valid_of_sublist r.valid rfl rfl List.filter_sublist List.filter_sublist fun o ho => ?_
  obtain ⟨ho, hname⟩ := List.mem_filter.mp ho
  obtain ⟨c, hc, hkey⟩ := List.mem_map.mp (r.valid.parents o ho)
  have hlib : c.libName = o.libName := congrArg Prod.fst hkey
  refine List.mem_map.mpr ⟨c, List.mem_filter.mpr ⟨hc, ?_⟩, hkey⟩
  simpa only [hlib] using hname

/-- Permissions are replaced just if the tables stay valid. -/
theorem permissions_ok_iff : (∃ r', permissions r name groups = .ok r') ↔
    (declaring (cleared r.toTables name) name groups).Valid := by
  constructor
  · rintro ⟨r', h⟩
    rw [← permissions_tables h]
    exact r'.valid
  · intro h
    obtain ⟨r₀, h₀, htables⟩ := stored_of_valid (cleared_valid r name)
    obtain ⟨r', h'⟩ := saveGroups_ok (r := r₀) (by rwa [htables])
    refine ⟨r', ?_⟩
    have hdelete : r.deleteCapabilities name = .ok r₀ := h₀
    rw [permissions, hdelete, ok_bind, h']

theorem declaring_valid (howned : Owned r) (h : Sound name groups) :
    (declaring (cleared r.toTables name) name groups).Valid := by
  have hcleared := cleared_valid r name
  have hkept {o : LibCapabilityOperation} (ho : o ∈ (cleared r.toTables name).operations) :
      ownerOf (chars o.path) ≠ chars name := by
    obtain ⟨ho, hname⟩ := List.mem_filter.mp ho
    rw [howned o ho]
    intro heq
    have hlib : o.libName = name := String.toList_injective heq
    simp [hlib] at hname
  constructor
  · exact hcleared.names
  · exact hcleared.contents
  · exact hcleared.edges
  · exact hcleared.loops
  · exact hcleared.sources
  · exact hcleared.targets
  · rw [declaring, List.map_append, List.nodup_append']
    refine ⟨hcleared.capabilityKeys, ?_, ?_⟩
    · have hids := h.ids.map (f := fun id => (name, id)) fun _ _ heq => congrArg Prod.snd heq
      rw [declaredCapabilities, List.map_map]
      rwa [List.map_map] at hids
    · intro key hkey hkey'
      obtain ⟨c, hc, rfl⟩ := List.mem_map.mp hkey
      obtain ⟨c', hc', heq⟩ := List.mem_map.mp hkey'
      obtain ⟨g, -, rfl⟩ := List.mem_map.mp hc'
      have hlib : name = c.libName := congrArg Prod.fst heq
      simpa [hlib] using (List.mem_filter.mp hc).2
  · intro c hc
    obtain hc | hc := List.mem_append.mp hc
    · exact hcleared.capabilityChecks c hc
    · obtain ⟨g, hg, rfl⟩ := List.mem_map.mp hc
      exact h.rows g hg
  · rw [declaring, List.map_append, List.nodup_append']
    refine ⟨hcleared.operationKeys, ?_, ?_⟩
    · rw [routes_declared]
      exact h.routes
    · intro x hx hx'
      obtain ⟨o, ho, rfl⟩ := List.mem_map.mp hx
      rw [routes_declared, List.mem_flatMap] at hx'
      obtain ⟨g, hg, he⟩ := hx'
      exact hkept ho (h.owner g hg _ he)
  · intro o ho
    obtain ho | ho := List.mem_append.mp ho
    · exact hcleared.operationChecks o ho
    · obtain ⟨g, hg, e, he, rfl⟩ := mem_declaredOperations.mp ho
      exact h.endpoints g hg e he
  · intro o ho
    rw [declaring, List.map_append, List.mem_append]
    obtain ho | ho := List.mem_append.mp ho
    · exact .inl (hcleared.parents o ho)
    · exact .inr (parent_declared ho)

end

end Pishoo.CapabilitySaving
