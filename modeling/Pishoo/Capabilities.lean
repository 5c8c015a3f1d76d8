import Mathlib.Data.List.AList
import Mathlib.Data.List.Forall2
import Pishoo.Outbound
import Pishoo.PathText

namespace Pishoo.Capabilities

open Outbound PathText Result

/-- `http::Uri` and `http::Method` as far as the selection asks them. -/
structure Http where
  uri : String → Bool
  method : String → Bool

structure Operation where
  method : String
  path : String
  deriving DecidableEq

/-- One chosen entry, the value `{"id":id,"endpoints":endpoints}`. -/
structure Capability where
  id : String
  endpoints : List Operation
  deriving DecidableEq

/-- A JSON object of paths with an array of methods each. -/
abbrev Access := AList fun _ : String => List String

/-- The effects of one path in the offers snapshot. -/
structure Effects where
  allow : List String
  review : List String
  deny : List String

def addMethod (access : Access) (endpoint : Operation) : Access :=
  let access := if (access.lookup endpoint.path).isNone then access.insert endpoint.path [] else access
  let methods := (access.lookup endpoint.path).getD []
  if methods.contains endpoint.method then access
  else access.insert endpoint.path (methods ++ [endpoint.method])

def requested (selected : List Capability) : Access :=
  selected.foldl (fun access capability => capability.endpoints.foldl addMethod access) ∅

def offered (selected : List Capability) : List (String × Effects) :=
  (requested selected).entries.map fun entry => (entry.1, ⟨entry.2, [], []⟩)

/-- `str::split_once`. -/
def splitOnce (sep : Text) : Text → Option (Text × Text)
  | [] => if sep = [] then some ([], []) else none
  | c :: text => match strip sep (c :: text) with
    | some rest => some ([], rest)
    | none => (splitOnce sep text).map fun parts => (c :: parts.1, parts.2)

/-- The entry belongs to a package and carries this title. -/
def titled (id : String) (entry : String × Json) : Bool :=
  (splitOnce (chars " · ") (chars entry.1)).any fun parts => parts.2 == chars id

def choose (catalog : List (String × Json)) (id : String) : Except Failure (String × Json) :=
  match catalog.find? (fun entry => entry.1 == id) with
  | some entry => .ok entry
  | none => match catalog.filter (titled id) with
    | [] => .error (fail 409 "selected capability unavailable")
    | [entry] => .ok entry
    | _ => .error (fail 409 "selected capability is ambiguous; refresh the catalog")

def orFail {α : Type} (x : Option α) (status : Nat) (message : String) : Except Failure α :=
  match x with
  | some a => .ok a
  | none => .error (fail status message)

def validPath (http : Http) (path : String) : Bool :=
  let text := chars path
  text.head? == some '/' && text.length != 1 && !starts (chars "//") text &&
    !text.any (fun c => c == '?' || c == '#' || c == '%' || c == '\\') &&
    !(text.splitOn '/').any (fun part => part == ['.'] || part == ['.', '.']) &&
    http.uri path

/-- No character that `to_ascii_uppercase` changes, and a method of `http`. -/
def validMethod (http : Http) (method : String) : Bool :=
  !(chars method).any Char.isLower && http.method method

def readMethod (http : Http) (path : String) (method : Json) : Except Failure Operation := do
  let method ← orFail method.asStr 502 "invalid permission method"
  failIf (validMethod http method = false) (fail 502 "invalid permission method")
  .ok ⟨method, path⟩

def readPath (http : Http) (path : String × Json) : Except Failure (List Operation) := do
  failIf (validPath http path.1 = false) (fail 502 "invalid permission path")
  let methods ← orFail path.2.asArray 502 "invalid permission methods"
  methods.mapM (readMethod http path.1)

def readEndpoints (http : Http) (paths : Json) : Except Failure (List Operation) := do
  let paths ← orFail paths.asObject 502 "invalid permission paths"
  let endpoints ← paths.mapM (readPath http)
  .ok endpoints.flatten

/-- One round of the loop over the names. -/
def select (http : Http) (catalog : List (String × Json)) (result : List Capability) (id : Json) :
    Except Failure (List Capability) := do
  let id ← orFail id.asStr 400 "invalid permission name"
  let entry ← choose catalog id
  failIf (result.any (fun capability => capability.id == entry.1) = true)
    (fail 400 "duplicate capability")
  let endpoints ← readEndpoints http entry.2
  .ok (result ++ [⟨entry.1, endpoints⟩])

/-- `catalog` is the answer of the target, or of the local database. -/
def selected (http : Http) (catalog : Except Failure Json) (ids : Json) :
    Except Failure (List Capability) := do
  let ids ← orFail ids.asArray 400 "invalid capabilities"
  if ids.isEmpty then .ok []
  else do
    let catalog ← catalog
    let catalog ← orFail catalog.asObject 502 "invalid permission catalog"
    ids.foldlM (select http catalog) []

/-- The map lists the method under the path. -/
def Allows (access : Access) (endpoint : Operation) : Prop :=
  endpoint.method ∈ (access.lookup endpoint.path).getD []

theorem allows_iff {access : Access} {endpoint : Operation} :
    Allows access endpoint ↔
      ∃ methods, access.lookup endpoint.path = some methods ∧ endpoint.method ∈ methods := by
  unfold Allows
  cases access.lookup endpoint.path <;> simp

theorem lookup_addMethod (access : Access) (endpoint : Operation) (path : String) :
    ((addMethod access endpoint).lookup path).getD [] =
      if path = endpoint.path ∧ endpoint.method ∉ (access.lookup path).getD [] then
        (access.lookup path).getD [] ++ [endpoint.method]
      else (access.lookup path).getD [] := by
  by_cases hpath : path = endpoint.path
  · subst hpath
    cases hlookup : access.lookup endpoint.path with
    | none => simp [addMethod, hlookup]
    | some methods =>
        by_cases hmethod : endpoint.method ∈ methods
        · simp [addMethod, hlookup, hmethod]
        · simp [addMethod, hlookup, hmethod]
  · rw [if_neg fun h => hpath h.1]
    simp only [addMethod]
    split <;> split <;> simp [AList.lookup_insert_ne hpath]

theorem allows_addMethod {access : Access} {endpoint other : Operation} :
    Allows (addMethod access endpoint) other ↔ Allows access other ∨ other = endpoint := by
  obtain ⟨method, path⟩ := endpoint
  obtain ⟨method', path'⟩ := other
  simp only [Allows, lookup_addMethod, Operation.mk.injEq]
  split
  · rename_i h
    simp [h.1]
  · rename_i h
    constructor
    · exact .inl
    · rintro (hmem | ⟨rfl, rfl⟩)
      · exact hmem
      · simpa using h

theorem allows_foldl (endpoints : List Operation) {access : Access} {other : Operation} :
    Allows (endpoints.foldl addMethod access) other ↔ Allows access other ∨ other ∈ endpoints := by
  induction endpoints generalizing access with
  | nil => simp
  | cons endpoint endpoints ih =>
      rw [List.foldl_cons, ih, allows_addMethod, or_assoc, List.mem_cons]

theorem requested_eq (selected : List Capability) :
    requested selected = (selected.flatMap Capability.endpoints).foldl addMethod ∅ :=
  (List.foldl_flatMap ..).symm

theorem allows_requested {selected : List Capability} {endpoint : Operation} :
    Allows (requested selected) endpoint ↔ endpoint ∈ selected.flatMap Capability.endpoints := by
  rw [requested_eq, allows_foldl]
  simp [Allows]

theorem nodup_addMethod {access : Access} (endpoint : Operation)
    (h : ∀ path, ((access.lookup path).getD []).Nodup) (path : String) :
    (((addMethod access endpoint).lookup path).getD []).Nodup := by
  rw [lookup_addMethod]
  split
  · rename_i hnew
    exact (h path).append (List.nodup_singleton _) (by simpa using hnew.2)
  · exact h path

theorem nodup_requested (selected : List Capability) (path : String) :
    (((requested selected).lookup path).getD []).Nodup := by
  rw [requested_eq]
  suffices ∀ endpoints : List Operation, ∀ access : Access,
      (∀ path, ((access.lookup path).getD []).Nodup) →
      (((endpoints.foldl addMethod access).lookup path).getD []).Nodup from
    this _ _ (by simp)
  intro endpoints
  induction endpoints with
  | nil => exact fun _ h => h path
  | cons endpoint endpoints ih => exact fun access h => ih _ (nodup_addMethod endpoint h)

theorem mem_offered {selected : List Capability} {path : String} {effects : Effects} :
    (path, effects) ∈ offered selected ↔
      ∃ methods, (requested selected).lookup path = some methods ∧ effects = ⟨methods, [], []⟩ := by
  simp only [offered, List.mem_map, Prod.mk.injEq]
  constructor
  · rintro ⟨⟨path, methods⟩, hmem, rfl, rfl⟩
    exact ⟨methods, AList.mem_lookup_iff.mpr hmem, rfl⟩
  · rintro ⟨methods, hlookup, rfl⟩
    exact ⟨⟨path, methods⟩, AList.mem_lookup_iff.mp hlookup, rfl, rfl⟩

/-- The name picks the entry: by the name of the entry, or by a title that this entry alone has. -/
def Picks (catalog : List (String × Json)) (id : String) (entry : String × Json) : Prop :=
  entry ∈ catalog ∧ (entry.1 = id ∨ (∀ other ∈ catalog, other.1 ≠ id) ∧
    ∀ other ∈ catalog, titled id other = true ↔ other = entry)

theorem choose_picks {catalog : List (String × Json)} {id : String} {entry : String × Json}
    (h : choose catalog id = .ok entry) : Picks catalog id entry := by
  unfold choose at h
  split at h
  · rename_i found hfound
    cases h
    exact ⟨List.mem_of_find?_eq_some hfound, .inl (by simpa using List.find?_some hfound)⟩
  · rename_i hnone
    split at h
    · cases h
    · rename_i found hfilter
      cases h
      have hmem (other : String × Json) : other ∈ catalog ∧ titled id other = true ↔ other = entry := by
        rw [← List.mem_filter, hfilter, List.mem_singleton]
      refine ⟨((hmem entry).mpr rfl).1, .inr ⟨?_, fun other hother => ?_⟩⟩
      · simpa using hnone
      · rw [← hmem other, and_iff_right hother]
    · cases h

/-- The operations that an entry of the catalog lists. -/
def Offers (paths : Json) (endpoint : Operation) : Prop :=
  ∃ fields methods, paths = .obj fields ∧ (endpoint.path, Json.arr methods) ∈ fields ∧
    Json.str endpoint.method ∈ methods

@[simp] theorem orFail_eq_ok {α : Type} {x : Option α} {status : Nat} {message : String} {a : α} :
    orFail x status message = .ok a ↔ x = some a := by
  cases x <;> simp [orFail]

theorem asStr_eq_some {v : Json} {s : String} : v.asStr = some s ↔ v = .str s := by
  cases v <;> simp [Json.asStr]

theorem asArray_eq_some {v : Json} {items : List Json} : v.asArray = some items ↔ v = .arr items := by
  cases v <;> simp [Json.asArray]

theorem asObject_eq_some {v : Json} {fields : List (String × Json)} :
    v.asObject = some fields ↔ v = .obj fields := by
  cases v <;> simp [Json.asObject]

section

variable {http : Http} {path : String × Json} {paths method : Json} {endpoint : Operation}
  {endpoints : List Operation}

theorem readMethod_eq_ok (h : readMethod http path.1 method = .ok endpoint) :
    method = .str endpoint.method ∧ endpoint.path = path.1 := by
  obtain ⟨text, htext, h⟩ := bind_eq_ok.mp h
  obtain ⟨-, -, h⟩ := bind_eq_ok.mp h
  cases h
  exact ⟨asStr_eq_some.mp (orFail_eq_ok.mp htext), rfl⟩

theorem mem_readPath (h : readPath http path = .ok endpoints) :
    endpoint ∈ endpoints ↔ endpoint.path = path.1 ∧
      ∃ methods, path.2 = .arr methods ∧ Json.str endpoint.method ∈ methods := by
  obtain ⟨-, -, h⟩ := bind_eq_ok.mp h
  obtain ⟨methods, hmethods, h⟩ := bind_eq_ok.mp h
  have harr := asArray_eq_some.mp (orFail_eq_ok.mp hmethods)
  constructor
  · intro hmem
    obtain ⟨method, hmethod, hread⟩ := exists_of_mem_mapM h hmem
    obtain ⟨rfl, hpath⟩ := readMethod_eq_ok hread
    exact ⟨hpath, methods, harr, hmethod⟩
  · rintro ⟨hpath, methods', harr', hmethod⟩
    cases harr.symm.trans harr'
    obtain ⟨found, hread, hfound⟩ := exists_of_mapM h hmethod
    obtain ⟨hmethod', hpath'⟩ := readMethod_eq_ok hread
    obtain ⟨m, p⟩ := endpoint
    obtain ⟨m', p'⟩ := found
    cases hmethod'
    cases hpath.trans hpath'.symm
    exact hfound

theorem mem_readEndpoints (h : readEndpoints http paths = .ok endpoints) :
    endpoint ∈ endpoints ↔ Offers paths endpoint := by
  obtain ⟨fields, hfields, h⟩ := bind_eq_ok.mp h
  obtain ⟨parts, hparts, h⟩ := bind_eq_ok.mp h
  cases h
  cases asObject_eq_some.mp (orFail_eq_ok.mp hfields)
  rw [List.mem_flatten]
  constructor
  · rintro ⟨part, hpart, hmem⟩
    obtain ⟨⟨path, v⟩, hpath, hread⟩ := exists_of_mem_mapM hparts hpart
    obtain ⟨rfl, methods, rfl, hmethod⟩ := (mem_readPath hread).mp hmem
    exact ⟨fields, methods, rfl, hpath, hmethod⟩
  · rintro ⟨fields', methods, heq, hpath, hmethod⟩
    cases heq
    obtain ⟨part, hread, hpart⟩ := exists_of_mapM hparts hpath
    exact ⟨part, hpart, (mem_readPath hread).mpr ⟨rfl, methods, rfl, hmethod⟩⟩

end

/-- What a name resolves to, before the check for duplicates. -/
def resolve (http : Http) (catalog : List (String × Json)) (id : Json) :
    Except Failure Capability := do
  let id ← orFail id.asStr 400 "invalid permission name"
  let entry ← choose catalog id
  let endpoints ← readEndpoints http entry.2
  .ok ⟨entry.1, endpoints⟩

section

variable {http : Http} {catalog : List (String × Json)} {id : Json} {capability : Capability}
  {result caps : List Capability} {ids : List Json}

theorem resolve_eq_ok (h : resolve http catalog id = .ok capability) :
    ∃ name paths, id = .str name ∧ Picks catalog name (capability.id, paths) ∧
      ∀ endpoint, endpoint ∈ capability.endpoints ↔ Offers paths endpoint := by
  obtain ⟨name, hname, h⟩ := bind_eq_ok.mp h
  obtain ⟨⟨chosen, paths⟩, hentry, h⟩ := bind_eq_ok.mp h
  obtain ⟨endpoints, hendpoints, h⟩ := bind_eq_ok.mp h
  cases h
  exact ⟨name, paths, asStr_eq_some.mp (orFail_eq_ok.mp hname), choose_picks hentry,
    fun _ => mem_readEndpoints hendpoints⟩

theorem select_eq_ok : select http catalog result id = .ok caps ↔
    ∃ capability, resolve http catalog id = .ok capability ∧
      capability.id ∉ result.map Capability.id ∧ caps = result ++ [capability] := by
  have hany (name : String) : ¬(result.any (fun capability => capability.id == name) = true) ↔
      name ∉ result.map Capability.id := by
    simp
  constructor
  · intro h
    obtain ⟨name, hname, h⟩ := bind_eq_ok.mp h
    obtain ⟨entry, hentry, h⟩ := bind_eq_ok.mp h
    obtain ⟨_, hdup, h⟩ := bind_eq_ok.mp h
    obtain ⟨endpoints, hendpoints, h⟩ := bind_eq_ok.mp h
    cases h
    refine ⟨⟨entry.1, endpoints⟩, ?_, (hany _).mp (failIf_eq_ok.mp hdup), rfl⟩
    simp only [resolve, hname, hentry, hendpoints, ok_bind]
  · rintro ⟨capability, h, hnew, rfl⟩
    obtain ⟨name, hname, h⟩ := bind_eq_ok.mp h
    obtain ⟨entry, hentry, h⟩ := bind_eq_ok.mp h
    obtain ⟨endpoints, hendpoints, h⟩ := bind_eq_ok.mp h
    cases h
    have hpass : failIf (result.any (fun capability => capability.id == entry.1) = true)
        (fail 400 "duplicate capability") = .ok () := failIf_eq_ok.mpr ((hany _).mpr hnew)
    simp only [select, hname, hentry, hendpoints, ok_bind, hpass]

/-- The loop succeeds on the names that resolve to different entries. -/
theorem foldlM_select (hresult : (result.map Capability.id).Nodup) :
    ids.foldlM (select http catalog) result = .ok caps ↔
      ∃ chosen, List.Forall₂ (fun id capability => resolve http catalog id = .ok capability) ids chosen ∧
        caps = result ++ chosen ∧ (caps.map Capability.id).Nodup := by
  induction ids generalizing result with
  | nil =>
      simp only [List.foldlM_nil, List.forall₂_nil_left_iff, exists_eq_left, List.append_nil]
      constructor
      · rintro ⟨⟩
        exact ⟨rfl, hresult⟩
      · rintro ⟨rfl, -⟩
        rfl
  | cons id ids ih =>
      rw [List.foldlM_cons, bind_eq_ok]
      simp only [select_eq_ok]
      constructor
      · rintro ⟨_, ⟨capability, hid, hnew, rfl⟩, h⟩
        have hnodup : ((result ++ [capability]).map Capability.id).Nodup := by
          rw [List.map_append]
          exact hresult.append (List.nodup_singleton _) (by simpa using hnew)
        obtain ⟨chosen, hchosen, rfl, hcaps⟩ := (ih hnodup).mp h
        exact ⟨capability :: chosen, .cons hid hchosen, by simp, hcaps⟩
      · rintro ⟨_, hchosen, rfl, hcaps⟩
        obtain _ | ⟨hid, hchosen⟩ := hchosen
        rename_i capability chosen
        have happ : result ++ capability :: chosen = (result ++ [capability]) ++ chosen := by simp
        rw [happ] at hcaps
        have hnodup : ((result ++ [capability]).map Capability.id).Nodup := by
          rw [List.map_append] at hcaps
          exact hcaps.of_append_left
        refine ⟨_, ⟨capability, hid, ?_, rfl⟩, (ih hnodup).mpr ⟨chosen, hchosen, happ, happ ▸ hcaps⟩⟩
        rw [List.map_append, List.nodup_append'] at hnodup
        simpa using hnodup.2.2

theorem exists_of_forall₂ {α β : Type} {R : α → β → Prop} {l : List α} {l' : List β}
    (h : List.Forall₂ R l l') {b : β} (hb : b ∈ l') : ∃ a ∈ l, R a b := by
  induction h with
  | nil => cases hb
  | cons hab _ ih =>
      obtain rfl | hb := List.mem_cons.mp hb
      · exact ⟨_, List.mem_cons_self, hab⟩
      · obtain ⟨a, ha, hab⟩ := ih hb
        exact ⟨a, List.mem_cons_of_mem _ ha, hab⟩

theorem foldlM_select_nil : ids.foldlM (select http catalog) [] = .ok caps ↔
    List.Forall₂ (fun id capability => resolve http catalog id = .ok capability) ids caps ∧
      (caps.map Capability.id).Nodup := by
  rw [foldlM_select (by simp)]
  constructor
  · rintro ⟨_, hchosen, rfl, hnodup⟩
    exact ⟨hchosen, hnodup⟩
  · rintro ⟨hchosen, hnodup⟩
    exact ⟨_, hchosen, rfl, hnodup⟩

/-- A selection that succeeds: nothing was asked for, or the catalog could be read and all names
resolve to different entries. -/
theorem selected_eq_ok {answer : Except Failure Json} {names : Json} :
    selected http answer names = .ok caps ↔ ∃ ids, names = .arr ids ∧
      (ids = [] ∧ caps = [] ∨ ids ≠ [] ∧ ∃ entries, answer = .ok (.obj entries) ∧
        List.Forall₂ (fun id capability => resolve http entries id = .ok capability) ids caps ∧
        (caps.map Capability.id).Nodup) := by
  unfold selected
  rw [bind_eq_ok]
  simp only [orFail_eq_ok, asArray_eq_some]
  refine exists_congr fun ids => and_congr_right fun _ => ?_
  cases ids with
  | nil => simp [eq_comm]
  | cons id ids =>
      simp only [List.isEmpty_cons, Bool.false_eq_true, if_false, bind_eq_ok, orFail_eq_ok,
        asObject_eq_some, foldlM_select_nil]
      constructor
      · rintro ⟨_, hanswer, entries, rfl, hchosen⟩
        exact .inr ⟨List.cons_ne_nil _ _, entries, hanswer, hchosen⟩
      · rintro (⟨⟨⟩, -⟩ | ⟨-, entries, hanswer, hchosen⟩)
        exact ⟨_, hanswer, entries, rfl, hchosen⟩

end

end Pishoo.Capabilities
