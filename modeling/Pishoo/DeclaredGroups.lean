import Pishoo.CapabilityOffer

namespace Pishoo.DeclaredGroups

open Result Registration Publication Component CapabilityRows CapabilityOffer

/-- The operations of the document with their methods and paths. -/
def operationsOf (document : Json) : List ((String × String) × Json) :=
  (pathsOf document).flatMap fun path =>
    methods.filterMap fun method => (path.2.find method).map fun x => ((method, path.1), x)

def operationId (operation : Json) : String := ((operation.get "operationId").asStr).getD ""

/-- The group that an operation is annotated with. -/
def groupTag (operation : Json) : Option String := (accessGroup operation).bind Json.asStr

/-- The operations that a group lists. -/
def listed (group : Json) : List String :=
  ((asArr (group.get "operations")).getD []).filterMap Json.asStr

def endpointsOf (paths : List (String × Json)) (id : String) : List (String × String) :=
  Facts.sortedBy (fun e => [e.1, e.2]) (paths.flatMap fun path =>
    (methods.filter (belongs id path.2)).map fun method => (upper method, path.1))

def rowOfGroup (o : Parser) (paths : List (String × Json)) (entry : String × Json) : GroupRow where
  id := entry.1
  title := titleOf o entry.2
  endpoints := endpointsOf paths entry.1

/-- `capability_rows` of a document. -/
def rowsOf (o : Parser) (document : Json) : List GroupRow :=
  Facts.sortedBy (fun row => [row.id])
    ((groupsOf document).map (rowOfGroup o (pathsOf document)))

/-- `declarations.get(id).is_some_and(|group| group["app"] == true)`. -/
def grantsApp (document : Json) (id : String) : Bool :=
  ((accessGroups document).bind fun groups => groups.find id).any asksForApp

def mountRow (place : String) (row : GroupRow) : GroupRow :=
  { row with endpoints := row.endpoints.map fun e => (e.1, place ++ e.2) }

def grantRow (document : Json) (name : String) (hasApp : Bool) (row : GroupRow) :
    Except Error GroupRow :=
  if grantsApp document row.id then
    if hasApp then .ok { row with endpoints := row.endpoints ++ [("GET", "/app/" ++ name)] }
    else .error (invalid "app capability requires this package's public resources")
  else .ok row

/-- The groups that `save_registration` hands to `permissions`. -/
def savedRows (o : Parser) (document : Json) (id : Id) (hasApp : Bool) :
    Except Error (List GroupRow) :=
  let place := if standard id then "/std" else "/" ++ id.name
  ((rowsOf o document).map (mountRow place)).mapM (grantRow document id.name hasApp)

/-- A row with the app if its group asks for it. -/
def withApp (document : Json) (name : String) (row : GroupRow) : GroupRow :=
  { row with
    endpoints := row.endpoints ++
      if grantsApp document row.id then [("GET", "/app/" ++ name)] else [] }

def savedRow (document : Json) (id : Id) (row : GroupRow) : GroupRow :=
  withApp document id.name (mountRow (Installation.placeOf id) row)

section

variable {o : Parser} {document operation group : Json} {acc acc' : Operations}
  {operations : List Json} {paths : List (String × Json)} {id name : String}
  {groups groups' : Groups} {ids : List String}

theorem str_of_text {value : Json} {key s : String} (h : Publication.text value key = .ok s) :
    (value.get key).asStr = some s := by
  rw [(exists_of_text h).1]
  rfl

theorem readOperation_spec (h : readOperation o acc operation = .ok acc') :
    operationId operation ∉ acc.ids ∧ acc'.ids = acc.ids ++ [operationId operation] ∧
      acc'.annotated = acc.annotated ++
        (groupTag operation).toList.map fun group => (group, operationId operation) := by
  obtain ⟨id, hid, h⟩ := bind_eq_ok.mp h
  obtain ⟨_, -, h⟩ := bind_eq_ok.mp h
  obtain ⟨_, hnew, h⟩ := bind_eq_ok.mp h
  obtain ⟨_, -, h⟩ := bind_eq_ok.mp h
  obtain ⟨group, hgroup, h⟩ := bind_eq_ok.mp h
  obtain ⟨annotated, hannotated, h⟩ := bind_eq_ok.mp h
  have hacc : acc' = ⟨acc.ids ++ [id], annotated⟩ := by
    dsimp only at h
    split at h
    · exact (Except.ok.inj h).symm
    · obtain ⟨_, -, h⟩ := bind_eq_ok.mp h
      exact (Except.ok.inj h).symm
  have hoperation : operationId operation = id := by
    rw [operationId, str_of_text hid]
    rfl
  have haccess : accessGroup operation = group := by
    rw [declared] at hgroup
    split at hgroup
    · cases hgroup
    · exact Except.ok.inj hgroup
  rw [hoperation, hacc]
  refine ⟨failIf_eq_ok.mp hnew, rfl, ?_⟩
  rw [groupTag, haccess]
  cases group with
  | none =>
      cases hannotated
      simp
  | some group =>
      obtain ⟨g, hg, hannotated⟩ := bind_eq_ok.mp hannotated
      cases hannotated
      rw [orElse_eq_ok, Option.filter_eq_some_iff] at hg
      simp [hg.1]

theorem readOperations_spec (h : operations.foldlM (readOperation o) acc = .ok acc') :
    acc'.ids = acc.ids ++ operations.map operationId ∧ (acc.ids.Nodup → acc'.ids.Nodup) ∧
      acc'.annotated = acc.annotated ++ operations.flatMap fun operation =>
        (groupTag operation).toList.map fun group => (group, operationId operation) := by
  induction operations generalizing acc with
  | nil =>
      cases h
      simp
  | cons operation operations ih =>
      rw [List.foldlM_cons] at h
      obtain ⟨acc₁, h₁, h⟩ := bind_eq_ok.mp h
      obtain ⟨hnew, hids, hannotated⟩ := readOperation_spec h₁
      obtain ⟨hids', hnodup, hannotated'⟩ := ih h
      refine ⟨?_, fun hacc => hnodup ?_, ?_⟩
      · rw [hids', hids]
        simp
      · rw [hids]
        exact List.nodup_append'.mpr ⟨hacc, List.nodup_singleton _, by simpa using hnew⟩
      · rw [hannotated', hannotated]
        simp

theorem readPaths_eq (paths : List (String × Json)) (acc : Operations) {acc' : Operations}
    (h : paths.foldlM (readPath o) acc = .ok acc') :
    (paths.flatMap fun path => methods.filterMap path.2.find).foldlM (readOperation o) acc = .ok acc' := by
  induction paths generalizing acc with
  | nil => exact h
  | cons path paths ih =>
      rw [List.foldlM_cons] at h
      obtain ⟨acc₁, h₁, h⟩ := bind_eq_ok.mp h
      obtain ⟨_, -, h₁⟩ := bind_eq_ok.mp h₁
      rw [List.flatMap_cons, List.foldlM_append, h₁, ok_bind]
      exact ih acc₁ h

theorem readMembers_spec {members : List Json} {before after : List (String × String)}
    (h : members.foldlM (readMember ids name) before = .ok after) :
    after = before ++ (members.filterMap Json.asStr).map (fun id => (name, id)) ∧
      (members ≠ [] → members.filterMap Json.asStr ≠ []) := by
  induction members generalizing before with
  | nil =>
      cases h
      simp
  | cons member members ih =>
      rw [List.foldlM_cons] at h
      obtain ⟨middle, hmiddle, h⟩ := bind_eq_ok.mp h
      obtain ⟨id, hid, hmiddle⟩ := bind_eq_ok.mp hmiddle
      obtain ⟨_, -, hmiddle⟩ := bind_eq_ok.mp hmiddle
      cases hmiddle
      rw [orElse_eq_ok, Option.filter_eq_some_iff] at hid
      rw [(ih h).1, List.filterMap_cons_some hid.1]
      simp

theorem readGroup_members {entry : String × Json} (h : readGroup ids groups entry = .ok groups') :
    listed entry.2 ≠ [] ∧
      groups'.declared = groups.declared ++ (listed entry.2).map fun id => (entry.1, id) := by
  obtain ⟨_, -, h⟩ := bind_eq_ok.mp h
  obtain ⟨_, -, h⟩ := bind_eq_ok.mp h
  obtain ⟨_, -, h⟩ := bind_eq_ok.mp h
  obtain ⟨_, -, h⟩ := bind_eq_ok.mp h
  obtain ⟨members, hmembers, h⟩ := bind_eq_ok.mp h
  obtain ⟨declared, hdeclared, h⟩ := bind_eq_ok.mp h
  cases h
  rw [orElse_eq_ok, Option.filter_eq_some_iff] at hmembers
  obtain ⟨heq, hnonempty⟩ := readMembers_spec hdeclared
  rw [listed, hmembers.1, Option.getD_some]
  exact ⟨hnonempty (by simpa using hmembers.2), heq⟩

theorem readGroups_members {entries : List (String × Json)}
    (h : entries.foldlM (readGroup ids) groups = .ok groups') :
    (∀ entry ∈ entries, listed entry.2 ≠ []) ∧ groups'.declared = groups.declared ++
      entries.flatMap fun entry => (listed entry.2).map fun id => (entry.1, id) := by
  induction entries generalizing groups with
  | nil =>
      cases h
      simp
  | cons entry entries ih =>
      rw [List.foldlM_cons] at h
      obtain ⟨groups₁, h₁, h⟩ := bind_eq_ok.mp h
      obtain ⟨hlisted, hdeclared⟩ := readGroup_members h₁
      obtain ⟨hall, hrest⟩ := ih h
      rw [List.forall_mem_cons, hrest, hdeclared]
      exact ⟨⟨hlisted, hall⟩, by simp⟩

/-- What the checks of the declarations have found out: the lists of the groups and the annotations
of the operations say the same. -/
structure Agrees (document : Json) : Prop where
  ids : ((operationsOf document).map fun x => operationId x.2).Nodup
  listed : ∀ entry ∈ groupsOf document, listed entry.2 ≠ []
  members : ∀ g id, (∃ entry ∈ groupsOf document, entry.1 = g ∧ id ∈ DeclaredGroups.listed entry.2) ↔
    ∃ x ∈ operationsOf document, groupTag x.2 = some g ∧ operationId x.2 = id

theorem map_operationsOf (document : Json) : (operationsOf document).map Prod.snd =
    (pathsOf document).flatMap fun path => methods.filterMap path.2.find := by
  rw [operationsOf, List.map_flatMap]
  refine List.flatMap_congr fun path _ => ?_
  rw [List.map_filterMap]
  refine List.filterMap_congr fun method _ => ?_
  rw [Option.map_map]
  exact congrFun Option.map_id _

theorem agrees_of_validateDeclarations (h : validateDeclarations o document = .ok ()) :
    Agrees document := by
  obtain ⟨_, -, h⟩ := bind_eq_ok.mp h
  obtain ⟨_, -, h⟩ := bind_eq_ok.mp h
  obtain ⟨_, -, h⟩ := bind_eq_ok.mp h
  obtain ⟨groups, hgroups, h⟩ := bind_eq_ok.mp h
  obtain ⟨paths, hpaths, h⟩ := bind_eq_ok.mp h
  obtain ⟨operations, hoperations, h⟩ := bind_eq_ok.mp h
  obtain ⟨found, hfound, h⟩ := bind_eq_ok.mp h
  have hpathsOf : pathsOf document = paths := by
    rw [pathsOf, orElse_eq_ok.mp hpaths]
    rfl
  have hfold := readPaths_eq paths _ hoperations
  rw [← hpathsOf, ← map_operationsOf] at hfold
  obtain ⟨hids, hnodup, hannotated⟩ := readOperations_spec hfold
  have haccess : accessGroups document = groups := by
    rw [declared] at hgroups
    split at hgroups
    · cases hgroups
    · exact Except.ok.inj hgroups
  have hgroupsOf : (∀ entry ∈ groupsOf document, listed entry.2 ≠ []) ∧
      found.declared = (groupsOf document).flatMap fun entry =>
        (listed entry.2).map fun id => (entry.1, id) := by
    rw [groupsOf, haccess]
    cases groups with
    | none =>
        cases hfound
        simp
    | some groups =>
        obtain ⟨entries, hentries, hfound⟩ := bind_eq_ok.mp hfound
        rw [Option.bind_some, orElse_eq_ok.mp hentries]
        exact readGroups_members hfound
  have hnodup := hnodup List.nodup_nil
  rw [hids, List.nil_append, List.map_map] at hnodup
  have hagree := failIf_eq_ok.mp h
  simp only [not_or, Bool.not_eq_false, List.all_eq_true, List.contains_iff_mem] at hagree
  refine ⟨hnodup, hgroupsOf.1, fun g id => ?_⟩
  have hdeclared : (g, id) ∈ found.declared ↔
      ∃ entry ∈ groupsOf document, entry.1 = g ∧ id ∈ listed entry.2 := by
    rw [hgroupsOf.2]
    simp only [List.mem_flatMap, List.mem_map, Prod.mk.injEq]
    refine exists_congr fun entry => and_congr_right fun _ => ?_
    constructor
    · rintro ⟨id', hid, rfl, rfl⟩
      exact ⟨rfl, hid⟩
    · rintro ⟨rfl, hid⟩
      exact ⟨id, hid, rfl, rfl⟩
  have htag : (g, id) ∈ operations.annotated ↔
      ∃ x ∈ operationsOf document, groupTag x.2 = some g ∧ operationId x.2 = id := by
    rw [hannotated, List.nil_append]
    simp only [List.mem_flatMap, List.mem_map, Option.mem_toList, Prod.mk.injEq]
    constructor
    · rintro ⟨_, ⟨x, hx, rfl⟩, g', hg, rfl, rfl⟩
      exact ⟨x, hx, hg, rfl⟩
    · rintro ⟨x, hx, hg, rfl⟩
      exact ⟨x.2, ⟨x, hx, rfl⟩, g, hg, rfl, rfl⟩
  rw [← hdeclared, ← htag]
  exact ⟨hagree.1 _, hagree.2 _⟩

theorem find_eq_some_iff {item x : Json} {method : String} :
    item.find method = some x → item.get method = x := by
  intro h
  cases item with
  | obj fields =>
      rw [Json.find] at h
      rw [Json.get, h]
      rfl
  | _ => cases h

theorem mem_operationsOf {x : (String × String) × Json} : x ∈ operationsOf document ↔
    ∃ item, (x.1.2, item) ∈ pathsOf document ∧ x.1.1 ∈ methods ∧ item.find x.1.1 = some x.2 := by
  obtain ⟨⟨method, key⟩, operation⟩ := x
  simp only [operationsOf, List.mem_flatMap, List.mem_filterMap, Option.map_eq_some_iff,
    Prod.mk.injEq]
  constructor
  · rintro ⟨⟨key', item⟩, hpath, method', hmethod, operation', hfind, ⟨rfl, rfl⟩, rfl⟩
    exact ⟨item, hpath, hmethod, hfind⟩
  · rintro ⟨item, hpath, hmethod, hfind⟩
    exact ⟨(key, item), hpath, method, hmethod, operation, hfind, ⟨rfl, rfl⟩, rfl⟩

/-- The endpoints of a group are those of the operations that are annotated with it. -/
theorem mem_endpointsOf {e : String × String} : e ∈ endpointsOf (pathsOf document) id ↔
    ∃ x ∈ operationsOf document, groupTag x.2 = some id ∧ e = (upper x.1.1, x.1.2) := by
  rw [endpointsOf, (Facts.sortedBy_perm _ _).mem_iff]
  simp only [List.mem_flatMap, List.mem_map, List.mem_filter, belongs, beq_iff_eq]
  constructor
  · rintro ⟨⟨key, item⟩, hpath, method, ⟨hmethod, hbelongs⟩, rfl⟩
    have hne : item.get method ≠ .null := by
      intro hnull
      rw [hnull] at hbelongs
      cases hbelongs
    exact ⟨((method, key), item.get method), mem_operationsOf.mpr
      ⟨item, hpath, hmethod, Json.find_of_get rfl hne⟩, hbelongs, rfl⟩
  · rintro ⟨x, hx, htag, rfl⟩
    obtain ⟨item, hpath, hmethod, hfind⟩ := mem_operationsOf.mp hx
    refine ⟨(x.1.2, item), hpath, x.1.1, ⟨hmethod, ?_⟩, rfl⟩
    rw [find_eq_some_iff hfind]
    exact htag

theorem nodup_places (h : ((pathsOf document).map Prod.fst).Nodup) :
    ((operationsOf document).map Prod.fst).Nodup := by
  rw [operationsOf, List.map_flatMap, List.nodup_flatMap]
  refine ⟨fun path _ => ?_, ?_⟩
  · rw [List.Nodup, List.pairwise_map, List.pairwise_filterMap]
    have hmethods : methods.Nodup := by decide
    refine hmethods.imp ?_
    intro method method' hne x hx x' hx' heq
    obtain ⟨y, -, rfl⟩ := Option.map_eq_some_iff.mp hx
    obtain ⟨y', -, rfl⟩ := Option.map_eq_some_iff.mp hx'
    exact hne (congrArg Prod.fst heq)
  · rw [List.Nodup, List.pairwise_map] at h
    refine h.imp ?_
    intro path path' hne x hx hx'
    obtain ⟨y, hy, rfl⟩ := List.mem_map.mp hx
    obtain ⟨y', hy', heq⟩ := List.mem_map.mp hx'
    obtain ⟨method, -, hmethod⟩ := List.mem_filterMap.mp hy
    obtain ⟨z, -, rfl⟩ := Option.map_eq_some_iff.mp hmethod
    obtain ⟨method', -, hmethod'⟩ := List.mem_filterMap.mp hy'
    obtain ⟨z', -, rfl⟩ := Option.map_eq_some_iff.mp hmethod'
    exact hne (congrArg Prod.snd heq).symm

/-- An operation is determined by its endpoint. -/
theorem operation_unique (h : ((pathsOf document).map Prod.fst).Nodup)
    {x y : (String × String) × Json} (hx : x ∈ operationsOf document) (hy : y ∈ operationsOf document)
    (heq : (upper x.1.1, x.1.2) = (upper y.1.1, y.1.2)) : x = y := by
  obtain ⟨_, _, hmethod, _⟩ := mem_operationsOf.mp hx
  obtain ⟨_, _, hmethod', _⟩ := mem_operationsOf.mp hy
  rw [Prod.mk.injEq] at heq
  refine List.inj_on_of_nodup_map (nodup_places h) hx hy ?_
  exact Prod.ext (upper_injective hmethod hmethod' heq.1) heq.2

theorem nodup_endpointsOf (h : ((pathsOf document).map Prod.fst).Nodup) (id : String) :
    (endpointsOf (pathsOf document) id).Nodup := by
  rw [endpointsOf, (Facts.sortedBy_perm _ _).nodup_iff, List.nodup_flatMap]
  refine ⟨fun path _ => ?_, ?_⟩
  · have hmethods : (methods.filter (belongs id path.2)).Nodup := List.Nodup.filter _ (by decide)
    refine hmethods.map_on fun method hmethod method' hmethod' heq => ?_
    exact upper_injective (List.mem_of_mem_filter hmethod) (List.mem_of_mem_filter hmethod')
      (congrArg Prod.fst heq)
  · rw [List.Nodup, List.pairwise_map] at h
    refine h.imp ?_
    intro path path' hne x hx hx'
    obtain ⟨method, -, rfl⟩ := List.mem_map.mp hx
    obtain ⟨method', -, heq⟩ := List.mem_map.mp hx'
    exact hne (congrArg Prod.snd heq).symm

/-- The endpoints of a group are those of the operations that it lists. -/
theorem mem_row (hgroups : ((groupsOf document).map Prod.fst).Nodup) (h : Agrees document)
    {entry : String × Json} (hentry : entry ∈ groupsOf document) {e : String × String} :
    e ∈ endpointsOf (pathsOf document) entry.1 ↔ ∃ x ∈ operationsOf document,
      operationId x.2 ∈ listed entry.2 ∧ e = (upper x.1.1, x.1.2) := by
  rw [mem_endpointsOf]
  constructor
  · rintro ⟨x, hx, htag, rfl⟩
    obtain ⟨entry', hentry', hname, hlisted⟩ :=
      (h.members entry.1 (operationId x.2)).mpr ⟨x, hx, htag, rfl⟩
    obtain rfl : entry' = entry := List.inj_on_of_nodup_map hgroups hentry' hentry hname
    exact ⟨x, hx, hlisted, rfl⟩
  · rintro ⟨x, hx, hlisted, rfl⟩
    obtain ⟨y, hy, htag, hid⟩ :=
      (h.members entry.1 (operationId x.2)).mp ⟨entry, hentry, rfl, hlisted⟩
    obtain rfl : y = x := List.inj_on_of_nodup_map h.ids hy hx hid
    exact ⟨y, hy, htag, rfl⟩

theorem grantsApp_eq (hgroups : ((groupsOf document).map Prod.fst).Nodup) {entry : String × Json}
    (hentry : entry ∈ groupsOf document) : grantsApp document entry.1 = asksForApp entry.2 := by
  rw [groupsOf] at hgroups hentry
  rw [grantsApp]
  cases hfields : (accessGroups document).bind fieldsOf with
  | none =>
      rw [hfields] at hentry
      cases hentry
  | some fields =>
      obtain ⟨groups, hdeclared, hobject⟩ := Option.bind_eq_some_iff.mp hfields
      rw [hfields] at hgroups hentry
      have hfind : groups.find entry.1 = some entry.2 := by
        cases groups with
        | obj fields' =>
            cases hobject
            exact Json.lookup_of_mem hgroups hentry
        | _ => cases hobject
      rw [hdeclared, Option.bind_some, hfind, Option.any_some]

theorem rowsOf_perm (o : Parser) (document : Json) : (rowsOf o document).Perm
    ((groupsOf document).map (rowOfGroup o (pathsOf document))) :=
  Facts.sortedBy_perm _ _

theorem disjoint_endpointsOf (hpaths : ((pathsOf document).map Prod.fst).Nodup) {id' : String}
    (hne : id ≠ id') :
    List.Disjoint (endpointsOf (pathsOf document) id) (endpointsOf (pathsOf document) id') := by
  intro e he he'
  obtain ⟨x, hx, htag, rfl⟩ := mem_endpointsOf.mp he
  obtain ⟨y, hy, htag', heq⟩ := mem_endpointsOf.mp he'
  obtain rfl := operation_unique hpaths hx hy heq
  exact hne (Option.some.inj (htag.symm.trans htag'))

/-- At most one of the groups asks for the app. -/
theorem app_length {groups : List (String × Json)} (h : Grouped groups) :
    (groups.filter fun entry => asksForApp entry.2).length ≤ 1 := by
  have hpairwise := h.app.filter fun entry => asksForApp entry.2
  cases hfilter : groups.filter fun entry => asksForApp entry.2 with
  | nil => exact Nat.zero_le 1
  | cons entry rest =>
      cases rest with
      | nil => exact Nat.le_refl 1
      | cons entry' rest =>
          have hboth {x : String × Json} (hx : x ∈ entry :: entry' :: rest) :
              asksForApp x.2 = true := by
            rw [← hfilter] at hx
            exact (List.mem_filter.mp hx).2
          rw [hfilter, List.pairwise_cons] at hpairwise
          exact absurd ⟨hboth List.mem_cons_self, hboth (List.mem_cons_of_mem _ List.mem_cons_self)⟩
            (hpairwise.1 entry' List.mem_cons_self)

theorem grantRow_ok {hasApp : Bool} {row : GroupRow}
    (h : grantsApp document row.id = true → hasApp = true) :
    grantRow document name hasApp row = .ok (withApp document name row) := by
  rw [grantRow, withApp]
  split
  · rename_i hgrants
    rw [if_pos (h hgrants)]
  · rw [List.append_nil]

theorem mapM_grantRow {hasApp : Bool} {rows rows' : List GroupRow}
    (h : rows.mapM (grantRow document name hasApp) = .ok rows') :
    rows' = rows.map (withApp document name) := by
  induction rows generalizing rows' with
  | nil =>
      cases h
      rfl
  | cons row rows ih =>
      rw [List.mapM_cons] at h
      obtain ⟨first, hfirst, h⟩ := bind_eq_ok.mp h
      obtain ⟨rest, hrest, h⟩ := bind_eq_ok.mp h
      cases h
      rw [List.map_cons, ← ih hrest]
      congr 1
      rw [withApp]
      rw [grantRow] at hfirst
      split at hfirst
      · rename_i hgrants
        split at hfirst
        · cases hfirst
          rw [if_pos hgrants]
        · cases hfirst
      · rename_i hgrants
        cases hfirst
        rw [if_neg hgrants, List.append_nil]

theorem savedRows_eq {hasApp : Bool} {id : Id} {rows : List GroupRow}
    (h : savedRows o document id hasApp = .ok rows) :
    rows = (rowsOf o document).map (savedRow document id) := by
  rw [mapM_grantRow h, List.map_map]
  rfl

theorem endpointsOf_eq {paths : List (String × Json)}
    (h : ∀ path ∈ paths, path.1.toList.head? = some '/') (id : String) :
    (endpoints paths id).map route = endpointsOf paths id := by
  have hat : (paths.flatMap (endpointsAt id)).map route = paths.flatMap fun path =>
      (methods.filter (belongs id path.2)).map fun method => (upper method, path.1) := by
    rw [List.map_flatMap]
    refine List.flatMap_congr fun path hpath => ?_
    rw [endpointsAt, List.map_filterMap, ← List.filterMap_eq_map']
    refine List.filterMap_congr fun method _ => ?_
    rw [endpointOf, dif_pos (h path hpath)]
    rfl
  have hkey : ∀ e : Endpoint, (fun x : String × String => [x.1, x.2]) (route e) =
      (fun e : Endpoint => [e.method, e.path]) e := fun _ => rfl
  rw [endpointsOf, ← hat, endpoints]
  exact Facts.map_sortedBy hkey _

/-- Of an accepted package exactly the rows of its document are saved. -/
theorem groupRows_eq {t : Trust} {files : Files} {m : Metadata} {rel : Release} {raw : Bytes}
    {paths : List (String × PathItem)} (hfaithful : Faithful t.parse o)
    (hcomes : Comes t o files m rel) (hopened : Opened t o files m raw paths document) :
    groupRows rel = savedRows o document rel.id rel.hasApp := by
  have hkeyed := hfaithful.keyed raw document hopened.parsed
  have hrooted : ∀ path ∈ pathsOf document, path.1.toList.head? = some '/' := by
    intro path hpath
    obtain ⟨⟨version, hopen⟩, hvalid⟩ := validateOpenapi_spec hopened.checked.openApi
    obtain ⟨typed, htyped, hkey⟩ := List.mem_map.mp
      (hfaithful.paths raw version paths document hopen hopened.parsed path hpath)
    obtain ⟨rest, hrest⟩ := RouteAgreement.validPath_head (hvalid typed htyped).1
    rw [← hkey]
    exact List.head?_eq_some_iff.mpr ⟨rest, hrest⟩
  let toRow (g : AccessGroup) : GroupRow := ⟨g.id, g.title, g.endpoints.map route⟩
  have hgroup : (groupsOf document).map (rowOfGroup o (pathsOf document)) =
      ((groupsOf document).map (groupOf o (pathsOf document))).map toRow := by
    rw [List.map_map]
    refine List.map_congr_left fun entry _ => ?_
    rw [rowOfGroup, ← endpointsOf_eq hrooted]
    rfl
  have hrows : rowsOf o document = (Facts.sortedBy (fun g => [g.id])
      ((groupsOf document).map (groupOf o (pathsOf document)))).map toRow := by
    rw [rowsOf, hgroup]
    exact (Facts.map_sortedBy (fun _ => rfl) _).symm
  obtain ⟨gs, hgs, hperm, hok⟩ := hcomes.rows hopened
  have hsorted : Facts.sortedBy (fun g => [g.id])
      ((groupsOf document).map (groupOf o (pathsOf document))) = gs := by
    rw [hcomes.groups, capabilityRows, hopened.documentOf, ok_bind] at hgs
    exact Except.ok.inj hgs
  rw [hsorted] at hrows
  have hgrants {g : AccessGroup} (hg : g ∈ gs) : grantsApp document g.id = g.app ∧
      (g.app = true → rel.hasApp = true) := by
    obtain ⟨entry, hentry, rfl⟩ := List.mem_map.mp (hperm.subset hg)
    refine ⟨grantsApp_eq (nodup_groupsOf hkeyed) hentry, fun happ => ?_⟩
    rw [hcomes.hasApp]
    by_contra hno
    have hnone := hopened.grouped.2 (by simpa using hno) entry hentry
    exact absurd (happ.symm.trans hnone) (by decide)
  have hsaved : savedRows o document rel.id rel.hasApp = .ok (gs.map (rowOf rel)) := by
    have hplace : (gs.map (rowOf rel)) = (((rowsOf o document).map
        (mountRow (Installation.placeOf rel.id))).map (withApp document rel.id.name)) := by
      rw [hrows, List.map_map, List.map_map]
      refine List.map_congr_left fun g hg => ?_
      have hmount : g.endpoints.map (fun e => (e.method, Installation.placeOf rel.id ++ e.path)) =
          (g.endpoints.map route).map fun e => (e.1, Installation.placeOf rel.id ++ e.2) := by
        rw [List.map_map]
        rfl
      rw [rowOf, ← (hgrants hg).1, hmount]
      rfl
    rw [hplace]
    refine mapM_eq_ok fun row hrow => ?_
    obtain ⟨row', hrow', rfl⟩ := List.mem_map.mp hrow
    rw [hrows] at hrow'
    obtain ⟨g, hg, rfl⟩ := List.mem_map.mp hrow'
    refine grantRow_ok fun happ => (hgrants hg).2 ?_
    rw [← (hgrants hg).1]
    exact happ
  rw [hok, hsaved]

end

/-- A row says what its group says. -/
structure Renders (o : Parser) (document : Json) (row : GroupRow) (group : Json) : Prop where
  declared : (row.id, group) ∈ groupsOf document
  title : row.title = titleOf o group
  nodup : row.endpoints.Nodup
  nonempty : row.endpoints ≠ []
  endpoints : ∀ e, e ∈ row.endpoints ↔ ∃ x ∈ operationsOf document,
    operationId x.2 ∈ listed group ∧ e = (upper x.1.1, x.1.2)
  app : grantsApp document row.id = true ↔ group.get "app" = .bool true

/-- The rows of a document are its groups, each with the operations that it lists, and with the app
where it is asked for they are what is saved of an accepted package. -/
theorem declared_groups (o : Parser) (document : Json) (hkeyed : document.keyed = true)
    (h : validateDeclarations o document = .ok ()) :
    ((rowsOf o document).map GroupRow.id).Perm ((groupsOf document).map Prod.fst) ∧
      ((rowsOf o document).map GroupRow.id).Nodup ∧
      (∀ row ∈ rowsOf o document, ∃ group, Renders o document row group) ∧
      (rowsOf o document).Pairwise (fun row row' => List.Disjoint row.endpoints row'.endpoints) ∧
      ((groupsOf document).filter fun entry => asksForApp entry.2).length ≤ 1 ∧
      (∀ id hasApp rows, savedRows o document id hasApp = .ok rows →
        rows = (rowsOf o document).map (savedRow document id)) ∧
      ∀ t files m rel, Faithful t.parse o → Component.validateContents t o files = .ok m →
        CapabilityRows.documentOf o t.parse files = .ok document → Comes t o files m rel →
        groupRows rel = savedRows o document rel.id rel.hasApp := by
  have hpaths := nodup_pathsOf hkeyed
  have hgroups := nodup_groupsOf hkeyed
  have hagrees := agrees_of_validateDeclarations h
  have hids : ((rowsOf o document).map GroupRow.id).Perm ((groupsOf document).map Prod.fst) := by
    have hperm := (rowsOf_perm o document).map GroupRow.id
    rwa [List.map_map] at hperm
  have hnodup := hids.nodup_iff.mpr hgroups
  have hrow {row : GroupRow} (hrow : row ∈ rowsOf o document) :
      ∃ entry ∈ groupsOf document, row = rowOfGroup o (pathsOf document) entry := by
    obtain ⟨entry, hentry, rfl⟩ := List.mem_map.mp ((rowsOf_perm o document).subset hrow)
    exact ⟨entry, hentry, rfl⟩
  refine ⟨hids, hnodup, fun row hmem => ?_, ?_, app_length (grouped_of_validateDeclarations h),
    fun id hasApp rows => savedRows_eq, fun t files m rel hfaithful hvalid hdocument hcomes => ?_⟩
  · obtain ⟨entry, hentry, rfl⟩ := hrow hmem
    have hendpoints := fun e => mem_row (e := e) hgroups hagrees hentry
    refine ⟨entry.2, hentry, rfl, nodup_endpointsOf hpaths entry.1, ?_, hendpoints, ?_⟩
    · obtain ⟨id, hid⟩ := List.exists_mem_of_ne_nil _ (hagrees.listed entry hentry)
      obtain ⟨x, hx, -, rfl⟩ := (hagrees.members entry.1 id).mp ⟨entry, hentry, rfl, hid⟩
      exact List.ne_nil_of_mem ((hendpoints _).mpr ⟨x, hx, hid, rfl⟩)
    · rw [show (rowOfGroup o (pathsOf document) entry).id = entry.1 from rfl,
        grantsApp_eq hgroups hentry, asksForApp, beq_iff_eq]
  · rw [List.Nodup, List.pairwise_map] at hnodup
    refine hnodup.imp_of_mem ?_
    intro row row' hmem hmem' hne
    obtain ⟨entry, -, rfl⟩ := hrow hmem
    obtain ⟨entry', -, rfl⟩ := hrow hmem'
    exact disjoint_endpointsOf hpaths hne
  · have haccepted := accepted_of_validateContents hvalid
    obtain ⟨raw, hraw, -⟩ := bind_eq_ok.mp hdocument
    obtain ⟨backend, hbackend, -⟩ := bind_eq_ok.mp hraw
    have hlib : m.hasLib = true := by
      rw [(packageMetadata_spec haccepted.metadata).2.1, orElse_eq_ok.mp hbackend]
      rfl
    obtain ⟨raw', paths, document', hopened⟩ := opened_of_accepted haccepted hlib
    have hsame := hopened.documentOf.symm.trans hdocument
    cases hsame
    exact groupRows_eq hfaithful hcomes hopened

/-- Legacy groups, and a tag of each style. -/
def mixedDocument : Json :=
  .obj [("openapi", .str "3.1.0"), ("info", .obj [("title", .str "API"), ("version", .str "1.0.0")]),
    ("x-pishoo", .obj [("access-groups", .obj [
      ("readers", .obj [("title", .str "Readers"), ("operations", .arr [.str "list"])]),
      ("writers", .obj [("title", .str "Writers"), ("operations", .arr [.str "add", .str "drop"]),
        ("app", .bool true)])])]),
    ("paths", .obj [
      ("/items", .obj [
        ("get", .obj [("operationId", .str "list"), ("summary", .str "List"),
          ("x-access-group", .str "readers")]),
        ("post", .obj [("operationId", .str "add"), ("summary", .str "Add"),
          ("x-pishoo", .obj [("access-group", .str "writers")])])]),
      ("/item", .obj [("delete", .obj [("operationId", .str "drop"), ("summary", .str "Drop"),
        ("x-access-group", .str "writers")])])])]

def tuple (row : GroupRow) : String × String × List (String × String) :=
  (row.id, row.title, row.endpoints)

theorem declared_groups_mixed :
    (rowsOf RouteAgreement.sampleParser mixedDocument).map tuple =
        [("readers", "Readers", [("GET", "/items")]),
          ("writers", "Writers", [("DELETE", "/item"), ("POST", "/items")])] ∧
      (savedRows RouteAgreement.sampleParser mixedDocument ⟨some "alice.example", "shop"⟩
          true).toOption.map (List.map tuple) =
        some [("readers", "Readers", [("GET", "/shop/items")]), ("writers", "Writers",
          [("DELETE", "/shop/item"), ("POST", "/shop/items"), ("GET", "/app/shop")])] ∧
      ∀ row ∈ rowsOf RouteAgreement.sampleParser mixedDocument,
        ∃ group, Renders RouteAgreement.sampleParser mixedDocument row group := by
  have hkeyed : mixedDocument.keyed = true := by decide +kernel
  have hvalid : validateDeclarations RouteAgreement.sampleParser mixedDocument = .ok () := by
    decide +kernel
  refine ⟨by decide +kernel, by decide +kernel, ?_⟩
  exact (declared_groups RouteAgreement.sampleParser mixedDocument hkeyed hvalid).2.2.1

end Pishoo.DeclaredGroups
