import Pishoo.ContactList
import Pishoo.Dispatch
import Pishoo.Paging

namespace Pishoo.ListPages

open Outbound Result ContactQuery ContactView ContactList Paging

/-- The native list, asked for pages of 100, gives the pages of one list. -/
structure Honours (nativeList : Query → Except Failure Json) (params : Query) (all : List Json)
    (deleted : Json) : Prop where
  counted : all.length < 2 ^ 63
  answers : ∀ i : Nat, ∃ value, nativeList (pageQuery params (i + 1)) = .ok value ∧
    value.get "items" = .arr (slice all 100 i) ∧ value.get "total" = .int all.length ∧
    value.get "deleted" = deleted

/-- The request is answered, however long the native loop runs. -/
def Answers (x : Reader) (t : Table) (query : Query) (result : Except Failure Json) : Prop :=
  ∃ n, ∀ rounds ≥ n, getList x t query rounds = some result

def itemsOf (value : Json) : List Json := ((value.get "items").asArray).getD []

/-- Page `p` of the merged list `items`. -/
def pageOf (items : List Json) (p size : Int) (deleted : Json) : Json :=
  response (slice items size.toNat (p - 1).toNat) items.length p size deleted

section

variable {nativeList : Query → Except Failure Json} {params query : Query} {all items : List Json}
  {deleted : Json} {x : Reader} {t : Table} {p size : Int}

theorem gather_slices (h : Honours nativeList params all deleted) (rounds i : Nat)
    (hrounds : 0 < rounds) (hall : all.length ≤ (i + rounds) * 100) :
    gather nativeList params rounds (i + 1) (all.take (i * 100)) = some (.ok (all, deleted)) := by
  induction rounds generalizing i with
  | zero => exact absurd hrounds (Nat.lt_irrefl 0)
  | succ rounds ih =>
      obtain ⟨value, hvalue, hitems, htotal, hdeleted⟩ := h.answers i
      have hcount := h.counted
      have htake : all.take (i * 100) ++ slice all 100 i = all.take ((i + 1) * 100) := by
        rw [Nat.succ_mul, List.take_add]
        rfl
      have hall64 : ((value.get "total").asI64).getD 0 = all.length := by
        rw [htotal, Json.asI64, if_pos (by omega)]
        rfl
      rw [gather, hvalue]
      simp only [hitems, Json.asArray, hall64, hdeleted, htake]
      by_cases hlast : all.length ≤ (i + 1) * 100
      · have hstop : decide ((all.length : Int) ≤ ((i : Int) + 1) * 100) = true := by
          rw [decide_eq_true_eq]
          omega
        rw [hstop, Bool.or_true, if_pos rfl, List.take_of_length_le hlast]
      · have hgo : decide ((all.length : Int) ≤ ((i : Int) + 1) * 100) = false := by
          rw [decide_eq_false_iff_not]
          omega
        have hfull : (slice all 100 i).isEmpty = false := by
          rw [List.isEmpty_eq_false_iff, ne_eq, slice_eq_nil (by omega)]
          omega
        rw [hgo, hfull, Bool.or_false, if_neg Bool.false_ne_true]
        exact_mod_cast ih (i + 1) (by omega) (by omega)

/-- The loop ends, and has read every native item once and in order. -/
theorem gather_all (h : Honours nativeList params all deleted) :
    ∃ n, ∀ rounds ≥ n, gather nativeList params rounds 1 [] = some (.ok (all, deleted)) := by
  refine ⟨all.length / 100 + 1, fun rounds hrounds => ?_⟩
  have hgather := gather_slices h rounds 0 (by omega) (by omega)
  simpa using hgather

theorem page_ok (h : page query = .ok (p, size)) : 1 ≤ p ∧ 1 ≤ size ∧ size ≤ 100 := by
  obtain ⟨p', -, h⟩ := bind_eq_ok.mp h
  obtain ⟨size', -, h⟩ := bind_eq_ok.mp h
  obtain ⟨_, hvalid, h⟩ := bind_eq_ok.mp h
  cases h
  have hvalid := failIf_eq_ok.mp hvalid
  omega

theorem getList_finish (hmanager : x.manager = .ok true) (hdatabase : x.database = none)
    (hnative : Honours x.nativeList (filters query) all deleted) (hpage : page query = .ok (p, size)) :
    ∃ n, ∀ rounds ≥ n, getList x t query rounds = finish x t query p size all deleted := by
  obtain ⟨n, hn⟩ := gather_all hnative
  refine ⟨n, fun rounds hrounds => ?_⟩
  simp only [getList, hmanager, readDrafts, hdatabase, hpage, hn rounds hrounds]

theorem answers_iff (hmanager : x.manager = .ok true) (hdatabase : x.database = none)
    (hnative : Honours x.nativeList (filters query) all deleted) (hpage : page query = .ok (p, size))
    {result : Except Failure Json} :
    Answers x t query result ↔ finish x t query p size all deleted = some result := by
  obtain ⟨n, hn⟩ := getList_finish (t := t) hmanager hdatabase hnative hpage
  constructor
  · rintro ⟨m, hm⟩
    rw [← hn (max n m) (le_max_left n m)]
    exact hm (max n m) (le_max_right n m)
  · intro hfinish
    exact ⟨n, fun rounds hrounds => (hn rounds hrounds).trans hfinish⟩

theorem finish_fits (hpage : page query = .ok (p, size)) (hmerged : mergedItems x t query all = .ok items)
    (hfits : (p - 1) * size < 2 ^ 63) :
    finish x t query p size all deleted = some (.ok (pageOf items p size deleted)) := by
  obtain ⟨hp, hsize, -⟩ := page_ok hpage
  have hstart : ((p - 1) * size).toNat = (p - 1).toNat * size.toNat :=
    Int.toNat_mul (by omega) (by omega)
  rw [finish, hmerged]
  simp only [offset, if_pos hfits, Option.map_some, hstart]
  rfl

theorem parameter_filters (key : String) (hpage : key ≠ "page") (hsize : key ≠ "page_size") :
    parameter (filters query) key = parameter query key := by
  rw [parameter, parameter, filters, List.filter_filter]
  have hkeep : (fun pair : String × String => pair.1 == key && (pair.1 != "page" && pair.1 != "page_size")) =
      fun pair => pair.1 == key := by
    funext pair
    by_cases hkey : pair.1 = key
    · simp [hkey, hpage, hsize]
    · simp [hkey]
  rw [hkeep]

theorem passes_filters {name : String} {value : Json} :
    passes x (filters query) name value = passes x query name value := by
  simp only [passes, integer, parameter_filters "search" (by decide) (by decide),
    parameter_filters "modified_since" (by decide) (by decide)]

theorem merged_filters : mergedItems x t (filters query) all = mergedItems x t query all := by
  have hdraft : mergeDraft x (filters query) = mergeDraft x query := by
    funext items entry
    simp only [mergeDraft, passes_filters]
  simp only [mergedItems, hdraft, parameter_filters "sort" (by decide) (by decide),
    parameter_filters "order" (by decide) (by decide)]

theorem merged_congr {query' : Query} (h : filters query' = filters query) :
    mergedItems x t query' all = mergedItems x t query all := by
  rw [← merged_filters, h, merged_filters]

@[simp] theorem itemsOf_response {total : Nat} :
    itemsOf (response items total p size deleted) = items := rfl

theorem slice_beyond (h : items.length ≤ (p - 1).toNat * size.toNat) (hsize : 1 ≤ size) :
    itemsOf (pageOf items p size deleted) = [] := by
  rw [pageOf, itemsOf_response]
  exact (slice_eq_nil (by omega)).mpr h

/-- What the pages of one list are meant to be: the loop over the native pages ends and reads each
native item once, page `p` answers with its part of the merged list, nothing is left beyond the
end, and the pages 1 to `k` together are the list. -/
structure Paged (x : Reader) (t : Table) (query : Query) (all items : List Json) (deleted : Json)
    (p size : Int) : Prop where
  gathered : ∃ n, ∀ rounds ≥ n,
    gather x.nativeList (filters query) rounds 1 [] = some (.ok (all, deleted))
  answered : ∀ wraps, Answers { x with wraps } t query (.ok (pageOf items p size deleted))
  beyond : items.length ≤ (p - 1).toNat * size.toNat → itemsOf (pageOf items p size deleted) = []
  together : ∀ (queries : Nat → Query) (answers : Nat → Json) (k : Nat), items.length ≤ k * size.toNat →
    k * size < 2 ^ 63 →
    (∀ i < k, filters (queries i) = filters query ∧ page (queries i) = .ok (i + 1, size) ∧
      Answers x t (queries i) (.ok (answers i))) →
    (List.range k).flatMap (fun i => itemsOf (answers i)) = items

theorem answer_slice (hmanager : x.manager = .ok true) (hdatabase : x.database = none)
    (hnative : Honours x.nativeList (filters query) all deleted)
    (hmerged : mergedItems x t query all = .ok items) {query' : Query} {i : Nat} {answer : Json}
    (hfilters : filters query' = filters query) (hpage : page query' = .ok (i + 1, size))
    (hfits : i * size < 2 ^ 63) (hanswer : Answers x t query' (.ok answer)) :
    itemsOf answer = slice items size.toNat i := by
  have hmerged' : mergedItems x t query' all = .ok items := (merged_congr hfilters).trans hmerged
  have hfinish := (answers_iff hmanager hdatabase (hfilters ▸ hnative) hpage).mp hanswer
  rw [finish_fits hpage hmerged' (by simpa using hfits)] at hfinish
  cases hfinish
  simp [pageOf]

/-- A build that checks its arithmetic answers no page whose first index is no `i64`. -/
theorem fits_of_answered (hmanager : x.manager = .ok true) (hdatabase : x.database = none)
    (hnative : Honours x.nativeList (filters query) all deleted) (hpage : page query = .ok (p, size))
    (hmerged : mergedItems x t query all = .ok items) {answer : Json}
    (hanswer : Answers { x with wraps := false } t query (.ok answer)) : (p - 1) * size < 2 ^ 63 := by
  have hmerged' : mergedItems { x with wraps := false } t query all = .ok items := hmerged
  rw [answers_iff (x := { x with wraps := false }) hmanager hdatabase hnative hpage, finish,
    hmerged'] at hanswer
  by_contra hlarge
  simp only [offset, if_neg hlarge, Bool.false_eq_true, if_false, Option.map_none] at hanswer
  cases hanswer

end

/-- A manager, without any stored contact. -/
def reader : Reader where
  manager := .ok true
  nativeList _ := .ok (.obj [("items", .arr []), ("total", .int 0), ("deleted", .int 0)])
  nativeContact _ := .error (fail 404 "contact not found")
  database := none
  lowercase name := name.map Char.toLower
  wraps := true

def greeting : Dispatch.Draft where
  targetName := "bob.dhttp.net"
  contactId := none
  contactSubject := none
  description := "Hello"
  requestedCapabilities := []
  offeredCapabilities := []
  requestedAccess := []
  offers := []
  applicationId := String.ofList (List.replicate 64 'c')
  validBefore := 9000

/-- One queued request. -/
def queued : Table where
  rows := [{ Dispatch.posted greeting 900 with id := 1 }]
  sequence := 1
  valid := by decide +kernel

def greeted : Json := projectContact .null (draftOf { Dispatch.posted greeting 900 with id := 1 })

/-- Page 4611686018427387905 of 100 items each. -/
def farPage : Query := [("page", "4611686018427387905"), ("page_size", "100")]

theorem far_page : page farPage = .ok (4611686018427387905, 100) := by decide +kernel

theorem merged_greeted : mergedItems reader queued farPage [] = .ok [greeted] := by decide +kernel

theorem reader_honours (query : Query) : Honours reader.nativeList (filters query) [] (.int 0) where
  counted := by decide
  answers i := ⟨_, rfl, by rw [slice, List.drop_nil, List.take_nil]; rfl, rfl, rfl⟩

end Pishoo.ListPages
