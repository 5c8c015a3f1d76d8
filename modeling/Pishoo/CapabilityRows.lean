import Mathlib.Data.List.Nodup
import Pishoo.Component
import Pishoo.Entry

namespace Pishoo.CapabilityRows

open Result Publication Component

/-- `to_ascii_uppercase`. -/
def upper (method : String) : String := String.ofList (method.toList.map Char.toUpper)

/-- The paths of an accepted document begin with a slash. -/
def endpointOf (method path : String) : Option Endpoint :=
  if h : path.toList.head? = some '/' then some ⟨upper method, path, h⟩ else none

def belongs (id : String) (item : Json) (method : String) : Bool :=
  (accessGroup (item.get method)).bind Json.asStr == some id

def endpointsAt (id : String) (path : String × Json) : List Endpoint :=
  (methods.filter (belongs id path.2)).filterMap fun method => endpointOf method path.1

def endpoints (paths : List (String × Json)) (id : String) : List Endpoint :=
  Facts.sortedBy (fun e => [e.method, e.path]) (paths.flatMap (endpointsAt id))

def titleOf (o : Parser) (group : Json) : String :=
  (group.get "title").asStr.getD (o.text (group.get "title"))

def groupOf (o : Parser) (paths : List (String × Json)) (entry : String × Json) : AccessGroup where
  id := entry.1
  title := titleOf o entry.2
  endpoints := endpoints paths entry.1
  app := asksForApp entry.2

def pathsOf (document : Json) : List (String × Json) := (fieldsOf (document.get "paths")).getD []

def groupsOf (document : Json) : List (String × Json) :=
  ((accessGroups document).bind fieldsOf).getD []

def documentOf (o : Parser) (parse : Bytes → Option Json) (files : Files) : Except Error Json := do
  let raw ← packageOpenapi o files
  orElse (parse raw) (invalid "invalid OpenAPI JSON")

/-- `capability_rows`, with the wish for the app that `save_registration` reads of each group. -/
def capabilityRows (o : Parser) (parse : Bytes → Option Json) (files : Files) :
    Except Error (List AccessGroup) := do
  let document ← documentOf o parse files
  .ok (Facts.sortedBy (fun g => [g.id])
    ((groupsOf document).map (groupOf o (pathsOf document))))

/-- What is relied on of the parsers: an object has each key once, JSON text of an object begins
with a brace, and the typed document has the paths of the untyped one and its operations. -/
structure Faithful (parse : Bytes → Option Json) (o : Parser) : Prop where
  keyed : ∀ raw v, parse raw = some v → v.keyed = true
  text : ∀ fields, (o.text (.obj fields)).toList.head? = some '{'
  paths : ∀ raw version paths document, o.openApi raw = .ok ⟨version, some paths⟩ →
    parse raw = some document → ∀ path ∈ pathsOf document, path.1 ∈ paths.map Prod.fst
  methods : ∀ raw version paths document, o.openApi raw = .ok ⟨version, some paths⟩ →
    parse raw = some document → ∀ path ∈ paths, ∀ operation ∈ path.2.methods,
      ∃ item, (path.1, item) ∈ pathsOf document ∧
        ∃ method ∈ methods, (item.find method).isSome = true ∧ operation.1 = upper method

def route (e : Endpoint) : String × String := (e.method, e.path)

/-- A title that is a string has something other than a NUL character after its first spaces. -/
def Plain (group : Json) : Prop :=
  ∀ title, group.get "title" = .str title → (title.toList.dropWhile (· == ' ')).head? ≠ some '\x00'

section

variable {o : Parser} {parse : Bytes → Option Json} {files : Files} {document : Json}
  {paths : List (String × Json)} {id id' : String} {e : Endpoint} {gs : List AccessGroup}
  {group : Json} {text : List Char}

theorem upper_injective {m m' : String} (hm : m ∈ methods) (hm' : m' ∈ methods)
    (h : upper m = upper m') : m = m' := by
  have hall : ∀ m ∈ methods, ∀ m' ∈ methods, upper m = upper m' → m = m' := by decide
  exact hall m hm m' hm' h

theorem endpointOf_eq_some {method path : String} :
    endpointOf method path = some e ↔ route e = (upper method, path) := by
  obtain ⟨m, p, hrooted⟩ := e
  rw [endpointOf, route, Prod.mk.injEq]
  constructor
  · intro h
    split at h
    · cases h
      exact ⟨rfl, rfl⟩
    · cases h
  · rintro ⟨rfl, rfl⟩
    rw [dif_pos hrooted]

theorem mem_endpointsAt {path : String × Json} :
    e ∈ endpointsAt id path ↔ ∃ method ∈ methods, belongs id path.2 method = true ∧
      route e = (upper method, path.1) := by
  simp only [endpointsAt, List.mem_filterMap, List.mem_filter, endpointOf_eq_some, and_assoc]

theorem mem_endpoints :
    e ∈ endpoints paths id ↔ ∃ path ∈ paths, ∃ method ∈ methods, belongs id path.2 method = true ∧
      route e = (upper method, path.1) := by
  rw [endpoints, (Facts.sortedBy_perm _ _).mem_iff, List.mem_flatMap]
  simp only [mem_endpointsAt]

theorem belongs_unique {item : Json} {method : String} (h : belongs id item method = true)
    (h' : belongs id' item method = true) : id = id' := by
  rw [belongs, beq_iff_eq] at h h'
  exact Option.some.inj (h.symm.trans h')

theorem nodup_endpointsAt (id : String) (path : String × Json) :
    ((endpointsAt id path).map route).Nodup := by
  have hmethods : (methods.filter (belongs id path.2)).Nodup :=
    List.Nodup.filter _ (by decide)
  rw [endpointsAt, List.Nodup, List.pairwise_map, List.pairwise_filterMap]
  refine hmethods.imp_of_mem ?_
  intro m m' hm hm' hne e he e' he' heq
  rw [endpointOf_eq_some] at he he'
  have hroutes : (upper m, path.1) = (upper m', path.1) := by rw [← he, ← he', heq]
  exact hne (upper_injective (List.mem_of_mem_filter hm) (List.mem_of_mem_filter hm')
    (congrArg Prod.fst hroutes))

theorem nodup_endpoints (hpaths : (paths.map Prod.fst).Nodup) (id : String) :
    ((endpoints paths id).map route).Nodup := by
  have hperm := (Facts.sortedBy_perm (fun e : Endpoint => [e.method, e.path])
    (paths.flatMap (endpointsAt id))).map route
  rw [endpoints, hperm.nodup_iff, List.map_flatMap, List.nodup_flatMap]
  refine ⟨fun path _ => nodup_endpointsAt id path, ?_⟩
  rw [List.Nodup, List.pairwise_map] at hpaths
  refine hpaths.imp ?_
  intro path path' hne x hx hx'
  obtain ⟨e, he, rfl⟩ := List.mem_map.mp hx
  obtain ⟨e', he', heq⟩ := List.mem_map.mp hx'
  obtain ⟨m, -, -, hm⟩ := mem_endpointsAt.mp he
  obtain ⟨m', -, -, hm'⟩ := mem_endpointsAt.mp he'
  rw [hm, hm'] at heq
  exact hne (congrArg Prod.snd heq).symm

/-- No operation of the document belongs to two groups. -/
theorem nodup_routes (hpaths : (paths.map Prod.fst).Nodup)
    (hids : (gs.map AccessGroup.id).Nodup)
    (hgs : ∀ g ∈ gs, g.endpoints = endpoints paths g.id) :
    (gs.flatMap fun g => g.endpoints.map route).Nodup := by
  rw [List.nodup_flatMap]
  refine ⟨fun g hg => hgs g hg ▸ nodup_endpoints hpaths g.id, ?_⟩
  rw [List.Nodup, List.pairwise_map] at hids
  refine hids.imp_of_mem ?_
  intro g g' hg hg' hne x hx hx'
  obtain ⟨e, he, rfl⟩ := List.mem_map.mp hx
  obtain ⟨e', he', heq⟩ := List.mem_map.mp hx'
  rw [hgs g hg, mem_endpoints] at he
  rw [hgs g' hg', mem_endpoints] at he'
  obtain ⟨path, hpath, m, hm, hbelongs, hroute⟩ := he
  obtain ⟨path', hpath', m', hm', hbelongs', hroute'⟩ := he'
  rw [hroute, hroute', Prod.mk.injEq] at heq
  obtain rfl : path' = path := List.inj_on_of_nodup_map hpaths hpath' hpath heq.2
  obtain rfl : m' = m := upper_injective hm' hm heq.1
  exact hne (belongs_unique hbelongs hbelongs')

theorem nodup_fieldsOf {v : Json} (h : v.keyed = true) :
    (((fieldsOf v).getD []).map Prod.fst).Nodup := by
  cases v with
  | obj fields => exact Json.nodup_of_keyed h
  | _ => exact List.nodup_nil

theorem nodup_pathsOf (h : document.keyed = true) : ((pathsOf document).map Prod.fst).Nodup := by
  rw [pathsOf]
  cases hget : document.get "paths" with
  | obj fields => exact Json.nodup_of_keyed (Json.keyed_get h hget)
  | _ => exact List.nodup_nil

theorem nodup_groupsOf (h : document.keyed = true) : ((groupsOf document).map Prod.fst).Nodup := by
  rw [groupsOf]
  cases hgroups : accessGroups document with
  | none => exact List.nodup_nil
  | some groups =>
      refine nodup_fieldsOf ?_
      rw [accessGroups, Option.or_eq_some_iff] at hgroups
      obtain hown | ⟨-, hlegacy⟩ := hgroups
      · exact Json.keyed_find h hown
      · cases hget : document.get "x-pishoo" with
        | obj extension =>
            rw [hget] at hlegacy
            exact Json.keyed_find (Json.keyed_get h hget) hlegacy
        | _ =>
            rw [hget] at hlegacy
            cases hlegacy

theorem capabilityRows_spec (h : capabilityRows o parse files = .ok gs) :
    ∃ document, documentOf o parse files = .ok document ∧
      gs.Perm ((groupsOf document).map (groupOf o (pathsOf document))) := by
  obtain ⟨document, hdocument, h⟩ := bind_eq_ok.mp h
  cases h
  exact ⟨document, hdocument, Facts.sortedBy_perm _ _⟩

/-- What the checks of the declarations have found out about the groups. -/
structure Grouped (groups : List (String × Json)) : Prop where
  names : ∀ entry ∈ groups, validName entry.1 = true
  titles : ∀ entry ∈ groups, checkTitle entry.2 = .ok ()
  app : groups.Pairwise fun entry entry' => ¬(asksForApp entry.2 = true ∧ asksForApp entry'.2 = true)

theorem readGroup_spec {ids : List String} {acc acc' : Groups} {entry : String × Json}
    (h : readGroup ids acc entry = .ok acc') : validName entry.1 = true ∧
      checkTitle entry.2 = .ok () ∧ ¬(asksForApp entry.2 = true ∧ acc.app = true) ∧
      acc'.app = (acc.app || asksForApp entry.2) := by
  obtain ⟨_, hname, h⟩ := bind_eq_ok.mp h
  obtain ⟨_, htitle, h⟩ := bind_eq_ok.mp h
  obtain ⟨_, -, h⟩ := bind_eq_ok.mp h
  obtain ⟨_, happ, h⟩ := bind_eq_ok.mp h
  obtain ⟨members, -, h⟩ := bind_eq_ok.mp h
  obtain ⟨declared, -, h⟩ := bind_eq_ok.mp h
  cases h
  exact ⟨by simpa using hname, htitle, failIf_eq_ok.mp happ, rfl⟩

theorem readGroups_spec {ids : List String} {acc acc' : Groups} {groups : List (String × Json)}
    (h : groups.foldlM (readGroup ids) acc = .ok acc') : Grouped groups ∧
      (acc.app = true → ∀ entry ∈ groups, asksForApp entry.2 = false) := by
  induction groups generalizing acc with
  | nil => exact ⟨⟨nofun, nofun, .nil⟩, fun _ => nofun⟩
  | cons entry groups ih =>
      rw [List.foldlM_cons] at h
      obtain ⟨acc₁, h₁, h⟩ := bind_eq_ok.mp h
      obtain ⟨hname, htitle, happ, hacc⟩ := readGroup_spec h₁
      obtain ⟨hgrouped, hrest⟩ := ih h
      refine ⟨⟨?_, ?_, ?_⟩, fun hset => ?_⟩
      · rw [List.forall_mem_cons]
        exact ⟨hname, hgrouped.names⟩
      · rw [List.forall_mem_cons]
        exact ⟨htitle, hgrouped.titles⟩
      · rw [List.pairwise_cons]
        refine ⟨fun entry' hentry' hboth => ?_, hgrouped.app⟩
        have hnot := hrest (by simp [hacc, hboth.1]) entry' hentry'
        rw [hboth.2] at hnot
        cases hnot
      · rw [List.forall_mem_cons]
        refine ⟨?_, hrest (by simp [hacc, hset])⟩
        cases hasks : asksForApp entry.2 with
        | false => rfl
        | true => exact absurd ⟨hasks, hset⟩ happ

theorem grouped_of_validateDeclarations (h : validateDeclarations o document = .ok ()) :
    Grouped (groupsOf document) := by
  obtain ⟨_, -, h⟩ := bind_eq_ok.mp h
  obtain ⟨_, -, h⟩ := bind_eq_ok.mp h
  obtain ⟨_, -, h⟩ := bind_eq_ok.mp h
  obtain ⟨groups, hgroups, h⟩ := bind_eq_ok.mp h
  obtain ⟨paths, -, h⟩ := bind_eq_ok.mp h
  obtain ⟨operations, -, h⟩ := bind_eq_ok.mp h
  obtain ⟨found, hfound, -⟩ := bind_eq_ok.mp h
  have haccess : accessGroups document = groups := by
    rw [declared] at hgroups
    split at hgroups
    · cases hgroups
    · cases hgroups
      rfl
  rw [groupsOf, haccess]
  cases groups with
  | none => exact ⟨nofun, nofun, .nil⟩
  | some groups =>
      obtain ⟨entries, hentries, hfound⟩ := bind_eq_ok.mp hfound
      rw [Option.bind_some, orElse_eq_ok.mp hentries]
      exact (readGroups_spec hfound).1

theorem rdropWhile_cons {c : Char} (rest : List Char) (hc : (c == ' ') = false) :
    ∃ rest', (c :: rest).rdropWhile (· == ' ') = c :: rest' := by
  rw [List.rdropWhile, List.reverse_cons, List.dropWhile_append]
  split
  · exact ⟨[], by simp [hc]⟩
  · exact ⟨_, by rw [List.reverse_append, List.reverse_singleton, List.singleton_append]⟩

theorem sqlLength_pos (h : ∃ c ∈ text, c ≠ ' ') : 0 < sqlLength (sqlTrim text) ↔
    (text.dropWhile (· == ' ')).head? ≠ some '\x00' := by
  cases hdrop : text.dropWhile (· == ' ') with
  | nil =>
      obtain ⟨c, hc, hne⟩ := h
      exact absurd (by simpa using List.dropWhile_eq_nil_iff.mp hdrop c hc) hne
  | cons c rest =>
      have hc : (c == ' ') = false := by
        have hhead := List.head?_dropWhile_not (· == ' ') text
        rw [hdrop] at hhead
        simpa using hhead
      obtain ⟨rest', hrest'⟩ := rdropWhile_cons rest hc
      rw [sqlTrim, hdrop, hrest', sqlLength, List.takeWhile_cons, List.head?_cons]
      by_cases hnul : c = '\x00'
      · simp [hnul]
      · simp [hnul]

theorem exists_of_text {value : Json} {key : String} {s : String} (h : Publication.text value key = .ok s) :
    value.get key = .str s ∧ ∃ c ∈ s.toList, c ≠ ' ' := by
  obtain ⟨hs, hany⟩ := Option.filter_eq_some_iff.mp (orElse_eq_ok.mp h)
  obtain ⟨c, hc, hspace⟩ := List.any_eq_true.mp hany
  refine ⟨?_, c, hc, ?_⟩
  · cases hvalue : value.get key with
    | str s' =>
        rw [hvalue] at hs
        exact congrArg Json.str (Option.some.inj hs)
    | _ =>
        rw [hvalue] at hs
        cases hs
  · rintro rfl
    simp [whitespace] at hspace

/-- The table takes the title of a group that has been accepted just if it is plain. -/
theorem title_checked (hfaithful : Faithful parse o) (h : checkTitle group = .ok ()) :
    0 < sqlLength (sqlTrim (titleOf o group).toList) ↔ Plain group := by
  rw [checkTitle] at h
  cases htitle : group.get "title" with
  | obj fields =>
      have hbrace : (titleOf o group).toList.head? = some '{' := by
        rw [titleOf, htitle]
        exact hfaithful.text fields
      obtain ⟨rest, hrest⟩ := List.head?_eq_some_iff.mp hbrace
      rw [sqlLength_pos ⟨'{', by simp [hrest], by decide⟩, hrest]
      simp [Plain, htitle]
  | str title =>
      rw [htitle] at h
      obtain ⟨s, hs, -⟩ := bind_eq_ok.mp h
      obtain ⟨hget, hspace⟩ := exists_of_text hs
      rw [htitle] at hget
      cases hget
      have hof : titleOf o group = title := by
        rw [titleOf, htitle]
        rfl
      rw [hof, sqlLength_pos hspace]
      simp [Plain, htitle]
  | _ =>
      rw [htitle] at h
      obtain ⟨s, hs, -⟩ := bind_eq_ok.mp h
      exact absurd (htitle.symm.trans (exists_of_text hs).1) (by simp)

end

end Pishoo.CapabilityRows
