import Mathlib.Data.List.Sort
import Pishoo.ContactQuery
import Pishoo.ContactView

namespace Pishoo.ContactList

open Outbound Result ContactQuery ContactView

/-- What a `GET` of the contacts reads outside the contact database: whether the visitor may list
contacts, the native answers, and `str::to_lowercase`. `database` is why the contact database
cannot be read. A build either checks its arithmetic or wraps around. -/
structure Reader where
  manager : Except Failure Bool
  nativeList : Query → Except Failure Json
  nativeContact : Query → Except Failure (Nat × Json)
  database : Option Failure
  lowercase : String → String
  wraps : Bool

/-- The value of a row with its binding. -/
def draftOf (r : OutboundContactRequest) : Json :=
  ((outboundRequest r).set "_contact_id" (nullable .int r.contactId)).set "_contact_subject"
    (nullable .str r.contactSubject)

/-- `BTreeMap::entry(…).or_insert(…)`. -/
def orInsert (entries : List (String × Json)) (r : OutboundContactRequest) : List (String × Json) :=
  if entries.any (fun entry => entry.1 == r.targetName) then entries
  else entries ++ [(r.targetName, draftOf r)]

/-- The rows that are not revoked, `ORDER BY id DESC`. -/
def rowsDescending (t : Table) : List OutboundContactRequest :=
  (t.rows.filter fun r => r.status != .revoked).insertionSort fun a b => b.id ≤ a.id

def drafts (t : Table) : List (String × Json) :=
  ((rowsDescending t).foldl orInsert []).insertionSort fun a b => a.1 ≤ b.1

def readDrafts (x : Reader) (t : Table) : Except Failure (List (String × Json)) :=
  match x.database with
  | some f => .error f
  | none => .ok (drafts t)

/-- A draft that is listed without a contact. -/
def unbound (draft : Json) : Bool :=
  (draft.get "_contact_id").isNull &&
    (draft.get "status" == .str "queued" || draft.get "status" == .str "failed")

/-- `GET /std/contact`. -/
def getContact (x : Reader) (t : Table) (query : Query) : Except Failure (Nat × Json) := do
  let manager ← x.manager
  if manager = false then x.nativeContact query
  else do
    let entries ← readDrafts x t
    let raw ← match ← parameter query "name" with
      | some raw => .ok raw
      | none => .error (fail 400 "name is required")
    let name ← name raw
    match x.nativeContact query, entries.lookup name with
    | .ok (status, value), some draft => .ok (status, projectContact value draft)
    | .error (404, message), some draft =>
        if unbound draft then .ok (200, projectContact .null draft) else .error (404, message)
    | response, _ => response

def filters (query : Query) : Query :=
  query.filter fun pair => pair.1 != "page" && pair.1 != "page_size"

def pageQuery (params : Query) (current : Int) : Query :=
  params ++ [("page", toString current), ("page_size", "100")]

/-- The loop over the native pages, for at most this many rounds. -/
def gather (nativeList : Query → Except Failure Json) (params : Query) :
    Nat → Int → List Json → Option (Except Failure (List Json × Json))
  | 0, _, _ => none
  | rounds + 1, current, items => match nativeList (pageQuery params current) with
    | .error f => some (.error f)
    | .ok value => match (value.get "items").asArray with
      | none => some (.error (fail 500 "invalid contact list"))
      | some entries =>
          if entries.isEmpty || decide (((value.get "total").asI64).getD 0 ≤ current * 100) then
            some (.ok (items ++ entries, value.get "deleted"))
          else gather nativeList params rounds (current + 1) (items ++ entries)

/-- `items.iter_mut().find(…)` by name, with the draft merged into what it finds. -/
def projectFirst (name : String) (draft : Json) : List Json → Option (List Json)
  | [] => none
  | c :: items =>
      if c.get "name" == .str name then some (projectContact c draft :: items)
      else (projectFirst name draft items).map fun items => c :: items

def contains (text part : PathText.Text) : Bool := text.tails.any (PathText.starts part)

/-- The filter of the list on a draft without contact. -/
def passes (x : Reader) (query : Query) (name : String) (value : Json) : Except Failure Bool := do
  let search ← parameter query "search"
  let since ← integer query "modified_since" 0
  .ok (contains (PathText.chars (x.lowercase name)) (PathText.chars (x.lowercase (search.getD ""))) &&
    decide (since ≤ updatedAt value))

def mergeDraft (x : Reader) (query : Query) (items : List Json) (entry : String × Json) :
    Except Failure (List Json) :=
  match projectFirst entry.1 entry.2 items with
  | some items => .ok items
  | none =>
      if unbound entry.2 then do
        let value := projectContact .null entry.2
        let shown ← passes x query entry.1 value
        .ok (if shown then items ++ [value] else items)
      else .ok items

/-- `Ord` of an `Option`. -/
def compareOption {α : Type} [Ord α] : Option α → Option α → Ordering
  | none, none => .eq
  | none, some _ => .lt
  | some _, none => .gt
  | some a, some b => compare a b

def order (key : String) (asc : Bool) (a b : Json) : Ordering :=
  let byKey :=
    if key = "created_at" ∨ key = "updated_at" then compareOption (a.get key).asI64 (b.get key).asI64
    else compare (((a.get key).asStr).getD "") (((b.get key).asStr).getD "")
  let order := byKey.then (compareOption (a.get "name").asStr (b.get "name").asStr)
  if asc then order else order.swap

/-- `sort_by`, which is stable. -/
def sorted (key : String) (asc : Bool) (items : List Json) : List Json :=
  items.insertionSort fun a b => (order key asc a b).isLE = true

/-- The native items with the drafts, in the order asked for. -/
def mergedItems (x : Reader) (t : Table) (query : Query) (items : List Json) :
    Except Failure (List Json) := do
  let items ← (drafts t).foldlM (mergeDraft x query) items
  let key := (← parameter query "sort").getD "updated_at"
  let asc := (← parameter query "order") == some "asc"
  .ok (sorted (if key = "names" then "name" else key) asc items)

/-- `((requested_page - 1) * size) as usize`. A build that checks its arithmetic panics when the
product is no `i64`. -/
def offset (wraps : Bool) (p size : Int) : Option Nat :=
  if (p - 1) * size < 2 ^ 63 then some ((p - 1) * size).toNat
  else if wraps then some ((p - 1) * size % 2 ^ 64).toNat
  else none

def response (items : List Json) (total : Nat) (p size : Int) (deleted : Json) : Json :=
  .obj [("items", .arr items), ("total", .int total), ("page", .int p), ("page_size", .int size),
    ("deleted", deleted)]

/-- The part of the handler after the native pages. -/
def finish (x : Reader) (t : Table) (query : Query) (p size : Int) (items : List Json)
    (deleted : Json) : Option (Except Failure Json) :=
  match mergedItems x t query items with
  | .error f => some (.error f)
  | .ok items => (offset x.wraps p size).map fun start =>
      .ok (response ((items.drop start).take size.toNat) items.length p size deleted)

/-- `GET /std/contact/list`, with at most this many native pages. There is no answer while the
loop runs, nor after a panic. -/
def getList (x : Reader) (t : Table) (query : Query) (rounds : Nat) : Option (Except Failure Json) :=
  match x.manager with
  | .error f => some (.error f)
  | .ok false => some (x.nativeList query)
  | .ok true => match readDrafts x t with
    | .error f => some (.error f)
    | .ok _ => match page query with
      | .error f => some (.error f)
      | .ok (p, size) => match gather x.nativeList (filters query) rounds 1 [] with
        | none => none
        | some (.error f) => some (.error f)
        | some (.ok (items, deleted)) => finish x t query p size items deleted

section

variable {entries : List (String × Json)} {rows : List OutboundContactRequest} {t : Table}
  {r : OutboundContactRequest} {key : String} {draft : Json}

theorem mem_orInsert : (key, draft) ∈ orInsert entries r ↔ (key, draft) ∈ entries ∨
    r.targetName ∉ entries.map Prod.fst ∧ key = r.targetName ∧ draft = draftOf r := by
  have hany : entries.any (fun entry => entry.1 == r.targetName) = true ↔
      r.targetName ∈ entries.map Prod.fst := by
    simp
  unfold orInsert
  split
  · rename_i hmem
    simp only [hany.mp hmem, not_true_eq_false, false_and, or_false]
  · rename_i hmem
    simp only [mt hany.mpr hmem, not_false_eq_true, true_and, List.mem_append, List.mem_singleton,
      Prod.mk.injEq]

theorem keys_orInsert : (orInsert entries r).map Prod.fst =
    if r.targetName ∈ entries.map Prod.fst then entries.map Prod.fst
    else entries.map Prod.fst ++ [r.targetName] := by
  have hany : entries.any (fun entry => entry.1 == r.targetName) = true ↔
      r.targetName ∈ entries.map Prod.fst := by
    simp
  unfold orInsert
  split <;> rename_i hmem
  · rw [if_pos (hany.mp hmem)]
  · rw [if_neg (mt hany.mpr hmem), List.map_append]
    rfl

/-- The first row of each name makes the entry. -/
theorem mem_foldl_orInsert : (key, draft) ∈ rows.foldl orInsert entries ↔
    (key, draft) ∈ entries ∨ key ∉ entries.map Prod.fst ∧
      ∃ r, rows.find? (fun r => r.targetName == key) = some r ∧ draft = draftOf r := by
  induction rows generalizing entries with
  | nil => simp
  | cons q rows ih =>
      rw [List.foldl_cons, ih, mem_orInsert, keys_orInsert, List.find?_cons]
      by_cases hkey : q.targetName = key
      · subst hkey
        rw [beq_self_eq_true]
        by_cases hmem : q.targetName ∈ entries.map Prod.fst
        · simp [hmem]
        · simp [hmem, eq_comm]
      · rw [beq_false_of_ne hkey]
        have hne : key ≠ q.targetName := Ne.symm hkey
        by_cases hmem : q.targetName ∈ entries.map Prod.fst <;> simp [hmem, hne]

theorem nodup_foldl_orInsert (h : (entries.map Prod.fst).Nodup) :
    ((rows.foldl orInsert entries).map Prod.fst).Nodup := by
  induction rows generalizing entries with
  | nil => exact h
  | cons q rows ih =>
      refine ih ?_
      rw [keys_orInsert]
      split
      · exact h
      · rename_i hmem
        exact h.append (List.nodup_singleton _) (by simpa using hmem)

/-- The newest row of its target that is not revoked. -/
def Newest (t : Table) (r : OutboundContactRequest) : Prop :=
  r ∈ t.rows ∧ r.status ≠ .revoked ∧
    ∀ q ∈ t.rows, q.targetName = r.targetName → q.status ≠ .revoked → q.id ≤ r.id

theorem mem_rowsDescending : r ∈ rowsDescending t ↔ r ∈ t.rows ∧ r.status ≠ .revoked := by
  rw [rowsDescending, (List.perm_insertionSort _ _).mem_iff, List.mem_filter, bne_iff_ne]

theorem rowsDescending_pairwise (t : Table) : (rowsDescending t).Pairwise fun a b => b.id ≤ a.id := by
  have htotal : Std.Total fun a b : OutboundContactRequest => b.id ≤ a.id :=
    ⟨fun a b => le_total b.id a.id⟩
  have htrans : IsTrans OutboundContactRequest fun a b => b.id ≤ a.id :=
    ⟨fun _ _ _ hab hbc => hbc.trans hab⟩
  exact List.pairwise_insertionSort _ _

theorem find_rowsDescending : (rowsDescending t).find? (fun r => r.targetName == key) = some r ↔
    Newest t r ∧ r.targetName = key := by
  have hmax {q : OutboundContactRequest}
      (h : (rowsDescending t).find? (fun r => r.targetName == key) = some q) :
      Newest t q ∧ q.targetName = key := by
    obtain ⟨hname, before, after, hsplit, hbefore⟩ := List.find?_eq_some_iff_append.mp h
    have hmem : q ∈ rowsDescending t := hsplit ▸ List.mem_append_right _ List.mem_cons_self
    obtain ⟨hq, hlive⟩ := mem_rowsDescending.mp hmem
    have hname := beq_iff_eq.mp hname
    refine ⟨⟨hq, hlive, fun p hp hpname hplive => ?_⟩, hname⟩
    have hpmem := mem_rowsDescending.mpr ⟨hp, hplive⟩
    have hsorted := rowsDescending_pairwise t
    rw [hsplit] at hpmem hsorted
    obtain hpbefore | hpafter := List.mem_append.mp hpmem
    · have hother := hbefore p hpbefore
      rw [hpname, hname] at hother
      simp at hother
    · obtain rfl | hpafter := List.mem_cons.mp hpafter
      · exact le_rfl
      · exact (List.pairwise_cons.mp (List.pairwise_append.mp hsorted).2.1).1 p hpafter
  refine ⟨hmax, ?_⟩
  rintro ⟨hnewest, rfl⟩
  have hmem := mem_rowsDescending.mpr ⟨hnewest.1, hnewest.2.1⟩
  cases hfind : (rowsDescending t).find? (fun q => q.targetName == r.targetName) with
  | none =>
      have hnone := List.find?_eq_none.mp hfind r hmem
      simp at hnone
  | some q =>
      obtain ⟨hq, hname⟩ := hmax hfind
      have hid : q.id = r.id :=
        le_antisymm (hnewest.2.2 q hq.1 hname hq.2.1) (hq.2.2 r hnewest.1 hname.symm hnewest.2.1)
      rw [List.inj_on_of_nodup_map t.valid.ids hq.1 hnewest.1 hid]

theorem mem_drafts : (key, draft) ∈ drafts t ↔
    ∃ r, Newest t r ∧ r.targetName = key ∧ draft = draftOf r := by
  rw [drafts, (List.perm_insertionSort _ _).mem_iff, mem_foldl_orInsert]
  simp [find_rowsDescending, and_assoc]

theorem nodup_drafts (t : Table) : ((drafts t).map Prod.fst).Nodup := by
  rw [drafts, ((List.perm_insertionSort _ _).map Prod.fst).nodup_iff]
  exact nodup_foldl_orInsert List.nodup_nil

theorem lookup_drafts : (drafts t).lookup key = some draft ↔ (key, draft) ∈ drafts t := by
  constructor
  · intro h
    obtain ⟨before, after, heq, -⟩ := List.lookup_eq_some_iff.mp h
    rw [heq]
    exact List.mem_append_right _ List.mem_cons_self
  · exact Json.lookup_of_mem (nodup_drafts t)

end

end Pishoo.ContactList
