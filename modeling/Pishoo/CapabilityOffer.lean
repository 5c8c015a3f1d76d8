import Pishoo.CapabilitySaving

namespace Pishoo.CapabilityOffer

open Result Registry Registration Publication Component CapabilityRows CapabilitySaving
open RouteAgreement PathText

/-- The release has been read from files that are accepted. -/
structure Comes (t : Trust) (o : Parser) (files : Files) (m : Metadata) (rel : Release) :
    Prop where
  accepted : Component.validateContents t o files = .ok m
  id : rel.id = m.id
  hasLib : rel.hasLib = m.hasLib
  hasApp : rel.hasApp = m.hasApp
  groups : rel.groups = capabilityRows o t.parse files

/-- The document has the operation. -/
def HasOperation (document : Json) (method path : String) : Prop :=
  ∃ item, (path, item) ∈ pathsOf document ∧
    ∃ m ∈ methods, (item.find m).isSome = true ∧ method = upper m

/-- Every title of the package's document is plain. -/
def PlainTitles (t : Trust) (o : Parser) (files : Files) : Prop :=
  ∀ document, documentOf o t.parse files = .ok document → ∀ entry ∈ groupsOf document, Plain entry.2

/-- The row of a group that asks for the app only if there is one. -/
def rowOf (rel : Release) (g : AccessGroup) : GroupRow where
  id := g.id
  title := g.title
  endpoints := g.endpoints.map (fun e => (e.method, Installation.placeOf rel.id ++ e.path)) ++
    if g.app then [("GET", "/app/" ++ rel.id.name)] else []

/-- A package that has been accepted with its document. -/
structure Opened (t : Trust) (o : Parser) (files : Files) (m : Metadata) (raw : Bytes)
    (paths : List (String × PathItem)) (document : Json) : Prop where
  accepted : Accepted t o files m
  hasLib : m.hasLib = true
  found : packageOpenapi o files = .ok raw
  parsed : t.parse raw = some document
  checked : Checked o t.parse m raw paths

section

variable {t : Trust} {o : Parser} {files files' : Files} {m : Metadata} {rel : Release} {raw : Bytes}
  {paths : List (String × PathItem)} {document : Json} {path : String × Json} {r : Registry}
  {gs : List AccessGroup} {id : Id} {rest method : String}

theorem Opened.documentOf (h : Opened t o files m raw paths document) :
    documentOf o t.parse files = .ok document := by
  rw [CapabilityRows.documentOf, h.found, ok_bind, h.parsed]
  rfl

theorem opened_of_accepted (h : Accepted t o files m) (hlib : m.hasLib = true) :
    ∃ raw paths document, Opened t o files m raw paths document := by
  have hbackend : files.lookup "backend.wasm" ≠ none := by
    have hsome := (packageMetadata_spec h.metadata).2.1
    rw [hlib] at hsome
    intro hnone
    simp [hnone] at hsome
  obtain ⟨raw, paths, hfound, hchecked⟩ := h.backend hbackend
  obtain ⟨document, hparsed, -⟩ := hchecked.document
  exact ⟨raw, paths, document, h, hlib, hfound, hparsed, hchecked⟩

theorem documentOf_congr (h : files'.lookup "backend.wasm" = files.lookup "backend.wasm") :
    CapabilityRows.documentOf o t.parse files' = CapabilityRows.documentOf o t.parse files := by
  rw [CapabilityRows.documentOf, CapabilityRows.documentOf, packageOpenapi, packageOpenapi, h]

theorem Opened.grouped (h : Opened t o files m raw paths document) :
    Grouped (groupsOf document) ∧
      (m.hasApp = false → ∀ entry ∈ groupsOf document, asksForApp entry.2 = false) := by
  obtain ⟨document', hparsed, hdeclarations, happ⟩ := h.checked.document
  rw [h.parsed] at hparsed
  cases hparsed
  refine ⟨grouped_of_validateDeclarations hdeclarations, fun hnot entry hentry => ?_⟩
  rw [groupsOf] at hentry
  cases hgroups : (accessGroups document).bind fieldsOf with
  | none => simp [hgroups] at hentry
  | some groups =>
      rw [hgroups] at hentry
      exact happ hnot groups hgroups entry hentry

theorem Opened.nodup_paths (hfaithful : Faithful t.parse o)
    (h : Opened t o files m raw paths document) : ((pathsOf document).map Prod.fst).Nodup :=
  nodup_pathsOf (hfaithful.keyed raw document h.parsed)

theorem Opened.nodup_groups (hfaithful : Faithful t.parse o)
    (h : Opened t o files m raw paths document) : ((groupsOf document).map Prod.fst).Nodup :=
  nodup_groupsOf (hfaithful.keyed raw document h.parsed)

theorem chars_append (s s' : String) : chars (s ++ s') = chars s ++ chars s' := String.toList_append

theorem chars_placeOf (id : Id) : chars (Installation.placeOf id) = RouteAgreement.placeOf id := by
  rw [Installation.placeOf, RouteAgreement.placeOf]
  split
  · rfl
  · exact String.toList_append

/-- A path of the document is mounted at the name of its package. -/
theorem Opened.route (hfaithful : Faithful t.parse o) (h : Opened t o files m raw paths document)
    (hpath : path ∈ pathsOf document) : ∃ tail, Route (chars m.name) (standard m.id)
      (chars (Installation.placeOf m.id ++ path.1)) (chars path.1) tail := by
  obtain ⟨⟨version, hopen⟩, -⟩ := validateOpenapi_spec h.checked.openApi
  obtain ⟨typed, htyped, hkey⟩ := List.mem_map.mp
    (hfaithful.paths raw version paths document hopen h.parsed path hpath)
  obtain ⟨tail, hroute⟩ := route_of_checked h.accepted h.hasLib h.checked htyped
  rw [hkey, ← chars_placeOf, ← chars_append] at hroute
  exact ⟨tail, hroute⟩

theorem Opened.slash (h : Opened t o files m raw paths document) : '/' ∉ chars m.name :=
  (validName_spec (packageMetadata_spec h.accepted.metadata).1).2

theorem owner_app {name : String} (hslash : '/' ∉ chars name) :
    ownerOf (chars ("/app/" ++ name)) = chars name := by
  rw [chars_append, show chars "/app/" = Authorization.app from rfl, ownerOf, targetOf_app]
  exact segment_eq hslash (.inl rfl)

theorem lowercase_ne_nul {c : Char} (h : lowercase c = true) : c ≠ '\x00' := by
  rintro rfl
  revert h
  decide

theorem validName_cons {name : String} (h : validName name = true) :
    ∃ c rest, name.toList = c :: rest ∧ lowercase c = true := by
  simp only [validName, Bool.and_eq_true, Option.any_eq_true] at h
  obtain ⟨⟨-, c, hhead, hc⟩, -⟩ := h
  obtain ⟨rest, hrest⟩ := List.head?_eq_some_iff.mp hhead
  exact ⟨c, rest, hrest, hc⟩

theorem sqlLength_cons {c : Char} {text : List Char} (h : c ≠ '\x00') :
    sqlLength (c :: text) = sqlLength text + 1 := by
  simp [sqlLength, h]

theorem method_checked (h : method ∈ methods) : 0 < sqlLength (upper method).toList ∧
    (upper method).toList.all (fun c => !lowercase c) = true := by
  have hall : ∀ method ∈ methods, 0 < sqlLength (upper method).toList ∧
      (upper method).toList.all (fun c => !lowercase c) = true := by decide
  exact hall method h

/-- What the constraints ask of a path. -/
def Rooted (path : String) : Prop := path.toList.head? = some '/' ∧ 1 < sqlLength path.toList

theorem rooted_place (hname : validName id.name = true) (rest : String) :
    Rooted (Installation.placeOf id ++ rest) := by
  rw [Rooted, String.toList_append, Installation.placeOf]
  split
  · rw [show "/std".toList = ['/', 's', 't', 'd'] from rfl]
    simp [sqlLength]
  · obtain ⟨c, cs, hcs, hc⟩ := validName_cons hname
    rw [String.toList_append, hcs, show "/".toList = ['/'] from rfl]
    simp [sqlLength, lowercase_ne_nul hc]

theorem rooted_app (name : String) : Rooted ("/app/" ++ name) := by
  rw [Rooted, String.toList_append, show "/app/".toList = ['/', 'a', 'p', 'p', '/'] from rfl]
  simp [sqlLength]

theorem operation_checks {lib id method path : String} (hmethod : 0 < sqlLength method.toList)
    (hupper : method.toList.all (fun c => !lowercase c) = true) (hpath : Rooted path) :
    (LibCapabilityOperation.mk lib id method path).checks = true := by
  simp only [LibCapabilityOperation.checks, Bool.and_eq_true, decide_eq_true_eq, beq_iff_eq]
  exact ⟨⟨⟨hmethod, hupper⟩, hpath.1⟩, hpath.2⟩

theorem capability_checks {lib id title : String} (hid : validName id = true) :
    (LibCapability.mk lib id title).checks = true ↔ 0 < sqlLength (sqlTrim title.toList) := by
  obtain ⟨c, rest, hrest, hc⟩ := validName_cons hid
  have hpos : 0 < sqlLength id.toList := by
    rw [hrest, sqlLength_cons (lowercase_ne_nul hc)]
    omega
  simp [LibCapability.checks, hpos]

theorem groupRow_ok {g : AccessGroup} (h : g.app = true → rel.hasApp = true) :
    groupRow rel g = .ok (rowOf rel g) := by
  have hnot : ¬(g.app = true ∧ rel.hasApp = false) := by
    rintro ⟨happ, hno⟩
    rw [h happ] at hno
    cases hno
  rw [groupRow, failIf, if_neg hnot, ok_bind]
  rfl

/-- The groups of an accepted package become rows. -/
theorem Comes.rows (hcomes : Comes t o files m rel) (h : Opened t o files m raw paths document) :
    ∃ gs, rel.groups = .ok gs ∧ gs.Perm ((groupsOf document).map (groupOf o (pathsOf document))) ∧
      groupRows rel = .ok (gs.map (rowOf rel)) := by
  have hgroups : rel.groups = .ok (Facts.sortedBy (fun g => [g.id])
      ((groupsOf document).map (groupOf o (pathsOf document)))) := by
    rw [hcomes.groups, capabilityRows, h.documentOf, ok_bind]
  have hperm := Facts.sortedBy_perm (fun g : AccessGroup => [g.id])
    ((groupsOf document).map (groupOf o (pathsOf document)))
  refine ⟨_, hgroups, hperm, ?_⟩
  rw [groupRows, if_pos (hcomes.hasLib.trans h.hasLib), hgroups, ok_bind]
  refine mapM_eq_ok fun g hg => groupRow_ok fun happ => ?_
  obtain ⟨entry, hentry, rfl⟩ := List.mem_map.mp (hperm.subset hg)
  rw [hcomes.hasApp]
  by_contra hno
  have hnone := h.grouped.2 (by simpa using hno) entry hentry
  exact absurd (happ.symm.trans hnone) (by decide)

theorem titles_checked (hfaithful : Faithful t.parse o) (h : Opened t o files m raw paths document)
    (hperm : gs.Perm ((groupsOf document).map (groupOf o (pathsOf document)))) (lib : String) :
    (∀ g ∈ gs.map (rowOf rel), (LibCapability.mk lib g.id g.title).checks = true) ↔
      ∀ entry ∈ groupsOf document, Plain entry.2 := by
  have hgrouped := h.grouped.1
  have hentry {entry : String × Json} (hentry : entry ∈ groupsOf document) :
      (LibCapability.mk lib entry.1 (titleOf o entry.2)).checks = true ↔ Plain entry.2 := by
    rw [capability_checks (hgrouped.names entry hentry)]
    exact title_checked hfaithful (hgrouped.titles entry hentry)
  constructor
  · intro hall entry hmem
    exact (hentry hmem).mp (hall _ (List.mem_map_of_mem (hperm.mem_iff.mpr (List.mem_map_of_mem hmem))))
  · intro hall row hrow
    obtain ⟨g, hg, rfl⟩ := List.mem_map.mp hrow
    obtain ⟨entry, hmem, rfl⟩ := List.mem_map.mp (hperm.mem_iff.mp hg)
    exact (hentry hmem).mpr (hall entry hmem)

theorem mem_rowOf {g : AccessGroup} {x : String × String} (h : x ∈ (rowOf rel g).endpoints) :
    (∃ e ∈ g.endpoints, x = (e.method, Installation.placeOf rel.id ++ e.path)) ∨
      g.app = true ∧ x = ("GET", "/app/" ++ rel.id.name) := by
  obtain h | h := List.mem_append.mp h
  · obtain ⟨e, he, rfl⟩ := List.mem_map.mp h
    exact .inl ⟨e, he, rfl⟩
  · split at h
    · exact .inr ⟨‹_›, List.mem_singleton.mp h⟩
    · cases h

/-- An endpoint of an accepted package is an operation of its document. -/
theorem operation_of_endpoint {g : AccessGroup} {e : Endpoint}
    (hperm : gs.Perm ((groupsOf document).map (groupOf o (pathsOf document)))) (hg : g ∈ gs)
    (he : e ∈ g.endpoints) : ∃ path ∈ pathsOf document, e.path = path.1 ∧
      ∃ method ∈ methods, e.method = upper method ∧ (path.2.find method).isSome = true := by
  obtain ⟨entry, -, rfl⟩ := List.mem_map.mp (hperm.subset hg)
  obtain ⟨path, hpath, method, hmethod, hbelongs, hroute⟩ := mem_endpoints.mp he
  refine ⟨path, hpath, congrArg Prod.snd hroute, method, hmethod, congrArg Prod.fst hroute, ?_⟩
  by_contra hnone
  have hget : path.2.get method = .null := by
    by_contra hne
    rw [Json.find_of_get rfl hne] at hnone
    exact hnone rfl
  rw [belongs, hget] at hbelongs
  cases hbelongs

/-- Where an operation of a group is mounted. -/
def mount (rel : Release) (x : String × String) : String × String :=
  (x.1, Installation.placeOf rel.id ++ x.2)

def granted (rel : Release) (g : AccessGroup) : List (String × String) :=
  if g.app then [("GET", "/app/" ++ rel.id.name)] else []

theorem endpoints_rowOf (g : AccessGroup) :
    (rowOf rel g).endpoints = (g.endpoints.map CapabilityRows.route).map (mount rel) ++ granted rel g := by
  rw [List.map_map]
  rfl

theorem mount_injective (rel : Release) : Function.Injective (mount rel) := by
  intro x y h
  obtain ⟨hmethod, hpath⟩ := Prod.mk.injEq .. ▸ h
  refine Prod.ext hmethod (String.toList_injective ?_)
  have hlist := congrArg String.toList hpath
  rw [String.toList_append, String.toList_append] at hlist
  exact List.append_cancel_left hlist

theorem Opened.nodup_granted (h : Opened t o files m raw paths document)
    (hperm : gs.Perm ((groupsOf document).map (groupOf o (pathsOf document)))) :
    (gs.flatMap (granted rel)).Nodup := by
  rw [List.nodup_flatMap]
  constructor
  · intro g _
    rw [granted]
    split
    · exact List.nodup_singleton _
    · exact List.nodup_nil
  · have happ : gs.Pairwise fun g g' => ¬(g.app = true ∧ g'.app = true) := by
      refine (hperm.pairwise_iff fun hnot hboth => hnot hboth.symm).mpr ?_
      rw [List.pairwise_map]
      exact h.grouped.1.app
    refine happ.imp fun hnot x hx hx' => hnot ?_
    rw [granted] at hx hx'
    split at hx
    · split at hx'
      · exact ⟨‹_›, ‹_›⟩
      · cases hx'
    · cases hx

theorem Opened.route_endpoint (hfaithful : Faithful t.parse o)
    (h : Opened t o files m raw paths document) (hid : rel.id = m.id)
    (hperm : gs.Perm ((groupsOf document).map (groupOf o (pathsOf document))))
    {g : AccessGroup} {e : Endpoint} (hg : g ∈ gs) (he : e ∈ g.endpoints) :
    ∃ tail, Route (chars m.name) (standard m.id)
      (chars (Installation.placeOf rel.id ++ e.path)) (chars e.path) tail := by
  obtain ⟨path, hpath, heq, -⟩ := operation_of_endpoint hperm hg he
  rw [heq, hid]
  exact h.route hfaithful hpath

theorem Opened.owner (hfaithful : Faithful t.parse o) (h : Opened t o files m raw paths document)
    (hid : rel.id = m.id)
    (hperm : gs.Perm ((groupsOf document).map (groupOf o (pathsOf document)))) :
    ∀ row ∈ gs.map (rowOf rel), ∀ x ∈ row.endpoints, ownerOf (chars x.2) = chars m.name := by
  intro row hrow x hx
  obtain ⟨g, hg, rfl⟩ := List.mem_map.mp hrow
  obtain ⟨e, he, rfl⟩ | ⟨-, rfl⟩ := mem_rowOf hx
  · obtain ⟨tail, hroute⟩ := h.route_endpoint hfaithful hid hperm hg he
    exact hroute.ownerOf h.slash
  · rw [hid]
    exact owner_app h.slash

theorem Opened.sound (hfaithful : Faithful t.parse o) (h : Opened t o files m raw paths document)
    (hid : rel.id = m.id)
    (hperm : gs.Perm ((groupsOf document).map (groupOf o (pathsOf document))))
    (hplain : ∀ entry ∈ groupsOf document, Plain entry.2) : Sound m.name (gs.map (rowOf rel)) := by
  have hname : validName rel.id.name = true := by
    rw [hid]
    exact (packageMetadata_spec h.accepted.metadata).1
  have hids : (gs.map AccessGroup.id).Nodup := by
    rw [(hperm.map AccessGroup.id).nodup_iff, List.map_map]
    exact h.nodup_groups hfaithful
  have hendpoints : ∀ g ∈ gs, g.endpoints = endpoints (pathsOf document) g.id := by
    intro g hg
    obtain ⟨entry, -, rfl⟩ := List.mem_map.mp (hperm.subset hg)
    rfl
  constructor
  · rwa [List.map_map]
  · exact (titles_checked hfaithful h hperm m.name).mpr hplain
  · rw [List.flatMap_map, List.flatMap_congr fun g _ => endpoints_rowOf g,
      ← (List.flatMap_append_perm gs _ _).nodup_iff, List.nodup_append', ← List.map_flatMap]
    refine ⟨(nodup_routes (h.nodup_paths hfaithful) hids hendpoints).map (mount_injective rel),
      h.nodup_granted hperm, fun x hx hx' => ?_⟩
    obtain ⟨y, hy, rfl⟩ := List.mem_map.mp hx
    obtain ⟨g, hg, hy⟩ := List.mem_flatMap.mp hy
    obtain ⟨e, he, rfl⟩ := List.mem_map.mp hy
    obtain ⟨g', -, hx'⟩ := List.mem_flatMap.mp hx'
    rw [granted] at hx'
    split at hx'
    · have hpath : Installation.placeOf rel.id ++ e.path = "/app/" ++ rel.id.name :=
        congrArg Prod.snd (List.mem_singleton.mp hx')
      obtain ⟨tail, hroute⟩ := h.route_endpoint hfaithful hid hperm hg he
      have htarget := hroute.target
      rw [hpath, chars_append, show chars "/app/" = Authorization.app from rfl, targetOf_app] at htarget
      cases htarget
    · cases hx'
  · intro row hrow x hx
    obtain ⟨g, hg, rfl⟩ := List.mem_map.mp hrow
    obtain ⟨e, he, rfl⟩ | ⟨-, rfl⟩ := mem_rowOf hx
    · obtain ⟨path, -, -, method, hmethod, heq, -⟩ := operation_of_endpoint hperm hg he
      obtain ⟨hpos, hupper⟩ := method_checked hmethod
      exact operation_checks (heq ▸ hpos) (heq ▸ hupper) (rooted_place hname e.path)
    · have hget : 0 < sqlLength "GET".toList ∧ "GET".toList.all (fun c => !lowercase c) = true := by
        decide
      exact operation_checks hget.1 hget.2 (rooted_app rel.id.name)
  · exact h.owner hfaithful hid hperm

end

end Pishoo.CapabilityOffer
