import Pishoo.ListPages

namespace Pishoo.ListDetail

open Outbound Result ContactQuery ContactView ContactList Paging ListPages

/-- A contact of the list with the newest draft of its name. -/
def projected (entries : List (String × Json)) (c : Json) : Json :=
  match c.get "name" with
  | .str name => match entries.lookup name with
    | some draft => projectContact c draft
    | none => c
  | _ => c

/-- The draft is listed as an item of its own. -/
def fresh (x : Reader) (query : Query) (items : List Json) (entry : String × Json) : Bool :=
  items.all (fun c => c.get "name" != .str entry.1) && unbound entry.2 &&
    decide (passes x query entry.1 (projectContact .null entry.2) = .ok true)

def Named (c : Json) : Prop := ∃ name, c.get "name" = .str name

section

variable {x : Reader} {query : Query} {items items' : List Json} {entries : List (String × Json)}
  {name : String} {draft c : Json}

theorem Named.obj (h : Named c) : ∃ fields, c = .obj fields := by
  obtain ⟨name, hname⟩ := h
  refine @obj_of_get c "name" ?_
  rw [hname]
  exact Json.noConfusion

theorem name_projectContact (h : Named c) : (projectContact c draft).get "name" = c.get "name" :=
  get_projectContact h.obj (by decide) (by decide) (by decide)

theorem projectFirst_none : projectFirst name draft items = none ↔
    ∀ c ∈ items, c.get "name" ≠ .str name := by
  induction items with
  | nil => simp [projectFirst]
  | cons c items ih =>
      rw [projectFirst]
      split
      · rename_i hname
        simp [beq_iff_eq.mp hname]
      · rename_i hname
        simp [ih, mt beq_iff_eq.mpr hname]

theorem projectFirst_some (hnodup : (items.map (·.get "name")).Nodup)
    (h : projectFirst name draft items = some items') :
    items' = items.map fun c => if c.get "name" = .str name then projectContact c draft else c := by
  induction items generalizing items' with
  | nil => cases h
  | cons c items ih =>
      rw [List.map_cons, List.nodup_cons] at hnodup
      rw [projectFirst] at h
      rw [List.map_cons]
      split at h
      · rename_i hname
        have hname := beq_iff_eq.mp hname
        cases h
        rw [if_pos hname]
        refine congrArg _ ((List.map_id items).symm.trans (List.map_congr_left fun d hd => ?_))
        rw [if_neg]
        · rfl
        · exact fun heq => hnodup.1 (List.mem_map.mpr ⟨d, hd, heq.trans hname.symm⟩)
      · rename_i hname
        obtain ⟨rest, hrest, rfl⟩ := Option.map_eq_some_iff.mp h
        rw [if_neg (mt beq_iff_eq.mpr hname), ih hnodup.2 hrest]

theorem lookup_none (h : name ∉ entries.map Prod.fst) : entries.lookup name = none := by
  rw [List.lookup_eq_none_iff]
  intro entry hentry
  rw [bne_iff_ne]
  exact fun heq => h (List.mem_map.mpr ⟨entry, hentry, heq.symm⟩)

theorem projected_of_not_mem (hc : c.get "name" = .str name) (h : name ∉ entries.map Prod.fst) :
    projected entries c = c := by
  rw [projected, hc]
  simp [lookup_none h]

theorem projected_cons (hname : name ∉ entries.map Prod.fst) (hc : Named c) :
    projected ((name, draft) :: entries) c =
      projected entries (if c.get "name" = .str name then projectContact c draft else c) := by
  obtain ⟨own, hown⟩ := hc
  by_cases heq : own = name
  · subst heq
    have hname' : (projectContact c draft).get "name" = .str own :=
      (name_projectContact ⟨own, hown⟩).trans hown
    rw [if_pos hown, projected_of_not_mem hname' hname, projected, hown]
    simp
  · rw [if_neg (by rw [hown]; exact fun h => heq (Json.str.inj h)), projected, projected, hown]
    simp [List.lookup_cons, beq_false_of_ne heq]

theorem name_projectNull (h : draft.get "target_name" = .str name) :
    (projectContact .null draft).get "name" = .str name := by
  rw [get_projectNull (by decide) (by decide) (by decide)]
  exact h

/-- One draft: it is merged into the contact of its name, or it is listed, or it is left out. -/
theorem mergeDraft_ok {entry : String × Json} (hnodup : (items.map (·.get "name")).Nodup)
    (h : mergeDraft x query items entry = .ok items') :
    (∃ c ∈ items, c.get "name" = .str entry.1) ∧
        items' = items.map (fun c => if c.get "name" = .str entry.1 then projectContact c entry.2 else c) ∨
      (∀ c ∈ items, c.get "name" ≠ .str entry.1) ∧
        items' = if fresh x query items entry then items ++ [projectContact .null entry.2] else items := by
  unfold mergeDraft at h
  split at h
  · rename_i found hfound
    cases h
    refine .inl ⟨?_, projectFirst_some hnodup hfound⟩
    by_contra hnone
    have hall : ∀ c ∈ items, c.get "name" ≠ .str entry.1 := fun c hc heq => hnone ⟨c, hc, heq⟩
    rw [projectFirst_none.mpr hall] at hfound
    cases hfound
  · rename_i hnone
    have hall := projectFirst_none.mp hnone
    have hfresh : items.all (fun c => c.get "name" != .str entry.1) = true := by
      rw [List.all_eq_true]
      exact fun c hc => bne_iff_ne.mpr (hall c hc)
    refine .inr ⟨hall, ?_⟩
    rw [fresh, hfresh, Bool.true_and]
    split at h
    · rename_i hunbound
      obtain ⟨shown, hshown, h⟩ := bind_eq_ok.mp h
      cases h
      rw [hunbound, hshown]
      cases shown <;> simp
    · rename_i hunbound
      cases h
      simp [hunbound]

theorem named_iff {items : List Json} :
    (∃ c ∈ items, c.get "name" = .str name) ↔ Json.str name ∈ items.map (·.get "name") :=
  List.mem_map.symm

theorem all_named_ne (items : List Json) (name : String) :
    items.all (fun c => c.get "name" != .str name) = !(items.map (·.get "name")).contains (.str name) := by
  induction items with
  | nil => rfl
  | cons c items ih =>
      rw [List.all_cons, ih, List.map_cons, List.contains_cons, Bool.not_or, bne, Bool.beq_comm]

theorem fresh_congr {entry : String × Json}
    (h : Json.str entry.1 ∈ items.map (·.get "name") ↔ Json.str entry.1 ∈ items'.map (·.get "name")) :
    fresh x query items entry = fresh x query items' entry := by
  have hcontains : (items.map (·.get "name")).contains (.str entry.1) =
      (items'.map (·.get "name")).contains (.str entry.1) := by
    rw [Bool.eq_iff_iff, List.contains_iff_mem, List.contains_iff_mem, h]
  rw [fresh, fresh, all_named_ne, all_named_ne, hcontains]

theorem fresh_of_mem {entry : String × Json} (h : ∃ c ∈ items, c.get "name" = .str entry.1) :
    fresh x query items entry = false := by
  rw [fresh, all_named_ne, List.contains_iff_mem.mpr (named_iff.mp h)]
  rfl

/-- The list is the contacts with their drafts, and then the drafts that stand for themselves. -/
theorem foldlM_mergeDraft (hkeys : (entries.map Prod.fst).Nodup)
    (htargets : ∀ entry ∈ entries, entry.2.get "target_name" = .str entry.1)
    (hnamed : ∀ c ∈ items, Named c) (hnodup : (items.map (·.get "name")).Nodup)
    (h : entries.foldlM (mergeDraft x query) items = .ok items') :
    items' = items.map (projected entries) ++
      (entries.filter (fresh x query items)).map fun entry => projectContact .null entry.2 := by
  induction entries generalizing items with
  | nil =>
      cases h
      have hsame : projected [] = id := by
        funext c
        unfold projected
        split <;> rfl
      simp [hsame]
  | cons entry entries ih =>
      obtain ⟨name, draft⟩ := entry
      rw [List.map_cons, List.nodup_cons] at hkeys
      have htarget := htargets (name, draft) List.mem_cons_self
      have hrest := fun entry he => htargets entry (List.mem_cons_of_mem _ he)
      have hother {entry : String × Json} (he : entry ∈ entries) : entry.1 ≠ name :=
        fun heq => hkeys.1 (List.mem_map.mpr ⟨entry, he, heq⟩)
      rw [List.foldlM_cons] at h
      obtain ⟨items₁, hstep, h⟩ := bind_eq_ok.mp h
      have hprojected (c : Json) (hc : c ∈ items) : projected ((name, draft) :: entries) c = _ :=
        projected_cons hkeys.1 (hnamed c hc)
      obtain ⟨hmem, rfl⟩ | ⟨hnone, rfl⟩ := mergeDraft_ok hnodup hstep
      · have hnames : (items.map fun c => if c.get "name" = .str name then projectContact c draft else c).map
            (·.get "name") = items.map (·.get "name") := by
          rw [List.map_map]
          refine List.map_congr_left fun c hc => ?_
          rw [Function.comp_apply]
          split
          · exact name_projectContact (hnamed c hc)
          · rfl
        have hitems := ih hkeys.2 hrest ?_ (hnames ▸ hnodup) h
        · rw [hitems, List.filter_cons_of_neg (by simp [fresh_of_mem hmem]), List.map_map]
          refine congrArg₂ _ (List.map_congr_left fun c hc => (hprojected c hc).symm) ?_
          refine congrArg _ (List.filter_congr fun e _ => fresh_congr ?_)
          rw [hnames]
        · intro c hc
          obtain ⟨d, hd, rfl⟩ := List.mem_map.mp hc
          split
          · exact (hnamed d hd).imp fun own hown => (name_projectContact (hnamed d hd)).trans hown
          · exact hnamed d hd
      · have hsame : items.map (projected ((name, draft) :: entries)) = items.map (projected entries) := by
          refine List.map_congr_left fun c hc => ?_
          rw [hprojected c hc, if_neg (hnone c hc)]
        have hname := name_projectNull htarget
        by_cases hfresh : fresh x query items (name, draft) = true
        · rw [if_pos hfresh] at h
          have hitems := ih hkeys.2 hrest ?_ ?_ h
          · have hown : projected entries (projectContact .null draft) = projectContact .null draft :=
              projected_of_not_mem hname hkeys.1
            rw [hitems, hsame, List.filter_cons_of_pos hfresh, List.map_append, List.map_singleton, hown,
              List.append_assoc, List.singleton_append, List.map_cons]
            refine congrArg _ (congrArg _ (congrArg _ (List.filter_congr fun e he => fresh_congr ?_)))
            have hne : Json.str e.1 ≠ .str name := fun heq => hother he (Json.str.inj heq)
            simp [hname, hne]
          · intro c hc
            obtain hc | hc := List.mem_append.mp hc
            · exact hnamed c hc
            · cases List.mem_singleton.mp hc
              exact ⟨name, hname⟩
          · rw [List.map_append, List.map_singleton]
            refine hnodup.append (List.nodup_singleton _) ?_
            rw [List.disjoint_singleton, hname, ← named_iff]
            rintro ⟨c, hc, heq⟩
            exact hnone c hc heq
        · rw [if_neg hfresh] at h
          rw [ih hkeys.2 hrest hnamed hnodup h, hsame, List.filter_cons_of_neg hfresh]

end

/-- The access service as it is documented: names are unique and are names of identities, contacts
are numbered, and the detail of a name is its contact. -/
structure NativeContacts (x : Reader) (stored : List Json) : Prop where
  named : ∀ c ∈ stored, ∃ raw own, name raw = .ok own ∧ c.get "name" = .str own
  unique : (stored.map (·.get "name")).Nodup
  numbered : ∀ c ∈ stored, ∃ n, c.get "id" = .int n
  detail : ∀ c ∈ stored, ∀ own, c.get "name" = .str own →
    x.nativeContact [("name", own)] = .ok (200, c)
  missing : ∀ own, (∀ c ∈ stored, c.get "name" ≠ .str own) →
    ∃ message, x.nativeContact [("name", own)] = .error (404, message)

/-- The request answers a page of this list with the item on it. -/
def Listed (x : Reader) (t : Table) (query : Query) (item : Json) : Prop :=
  ∃ query' answer, filters query' = filters query ∧ Answers x t query' (.ok answer) ∧
    item ∈ itemsOf answer

/-- List and detail agree: every item on a page is the detail of its name, no page has a name
twice, and an item of a stored contact has its id. -/
structure Consistent (x : Reader) (t : Table) (query : Query) (stored : List Json) : Prop where
  detail : ∀ item, Listed x t query item →
    ∃ own, item.get "name" = .str own ∧ getContact x t [("name", own)] = .ok (200, item)
  once : ∀ query' answer, filters query' = filters query → Answers x t query' (.ok answer) →
    ((itemsOf answer).map (·.get "name")).Nodup
  bound : ∀ item, Listed x t query item → ∀ c ∈ stored, c.get "name" = item.get "name" →
    item.get "id" = c.get "id"

/-- The newest row of a stored contact that the native list leaves out belongs to no contact, is
queued or failed, and passes the filter of the list. -/
def Hidden (x : Reader) (t : Table) (query : Query) (stored all : List Json)
    (r : OutboundContactRequest) : Prop :=
  Newest t r ∧ r.contactId = none ∧ (r.status = .queued ∨ r.status = .failed) ∧
    (∃ c ∈ stored, c.get "name" = .str r.targetName) ∧
    (∀ c ∈ all, c.get "name" ≠ .str r.targetName) ∧
    passes x query r.targetName (projectContact .null (draftOf r)) = .ok true

section

variable {x : Reader} {t : Table} {query : Query} {stored all items : List Json} {deleted : Json}
  {own : String} {draft c : Json} {r : OutboundContactRequest}

theorem unbound_draftOf : unbound (draftOf r) = true ↔
    r.contactId = none ∧ (r.status = .queued ∨ r.status = .failed) := by
  have hid : (draftOf r).get "_contact_id" = nullable .int r.contactId := rfl
  have hstatus : (draftOf r).get "status" = .str r.status.text := rfl
  rw [unbound, hid, hstatus]
  cases r.contactId <;> cases r.status <;> simp [nullable, Json.isNull, Status.text]

theorem getContact_eq (hmanager : x.manager = .ok true) (hdatabase : x.database = none)
    (hname : name own = .ok own) :
    getContact x t [("name", own)] = match x.nativeContact [("name", own)], (drafts t).lookup own with
      | .ok (status, value), some draft => .ok (status, projectContact value draft)
      | .error (404, message), some draft =>
          if unbound draft then .ok (200, projectContact .null draft) else .error (404, message)
      | response, _ => response := by
  have hparameter : parameter [("name", own)] "name" = .ok (some own) := rfl
  simp only [getContact, hmanager, readDrafts, hdatabase, hparameter, hname, ok_bind]
  rfl

theorem getContact_stored (hmanager : x.manager = .ok true) (hdatabase : x.database = none)
    (hstored : NativeContacts x stored) (hc : c ∈ stored) :
    ∃ own, c.get "name" = .str own ∧
      getContact x t [("name", own)] = .ok (200, projected (drafts t) c) := by
  obtain ⟨raw, own, hraw, hname⟩ := hstored.named c hc
  refine ⟨own, hname, ?_⟩
  rw [getContact_eq hmanager hdatabase (name_idem hraw), hstored.detail c hc own hname, projected, hname]
  cases hlookup : (drafts t).lookup own <;> simp [hlookup]

theorem getContact_missing (hmanager : x.manager = .ok true) (hdatabase : x.database = none)
    (hstored : NativeContacts x stored) (hown : name own = .ok own)
    (hnone : ∀ c ∈ stored, c.get "name" ≠ .str own) (hlookup : (drafts t).lookup own = some draft)
    (hunbound : unbound draft = true) :
    getContact x t [("name", own)] = .ok (200, projectContact .null draft) := by
  obtain ⟨message, hmissing⟩ := hstored.missing own hnone
  rw [getContact_eq hmanager hdatabase hown, hmissing, hlookup]
  simp [hunbound]

theorem sorted_perm (key : String) (asc : Bool) (items : List Json) : (sorted key asc items).Perm items :=
  List.perm_insertionSort _ items

theorem name_projected (h : Named c) {entries : List (String × Json)} :
    (projected entries c).get "name" = c.get "name" := by
  obtain ⟨own, hown⟩ := h
  rw [projected, hown]
  cases hlookup : entries.lookup own with
  | none => simpa [hlookup] using hown
  | some draft => simpa [hlookup] using (name_projectContact ⟨own, hown⟩).trans hown

theorem id_projected (h : Named c) {entries : List (String × Json)} :
    (projected entries c).get "id" = c.get "id" := by
  obtain ⟨own, hown⟩ := h
  rw [projected, hown]
  cases hlookup : entries.lookup own with
  | none => simp [hlookup]
  | some draft =>
      have hproject : (projectContact c draft).get "id" = c.get "id" :=
        get_projectContact (Named.obj ⟨own, hown⟩) (by decide) (by decide) (by decide)
      simpa [hlookup] using hproject

theorem drafts_targets : ∀ entry ∈ drafts t, entry.2.get "target_name" = .str entry.1 := by
  rintro ⟨key, draft⟩ hentry
  obtain ⟨r, -, rfl, rfl⟩ := mem_drafts.mp hentry
  rfl

theorem mergedItems_perm (hnamed : ∀ c ∈ all, Named c) (hnodup : (all.map (·.get "name")).Nodup)
    (h : mergedItems x t query all = .ok items) :
    items.Perm (all.map (projected (drafts t)) ++
      ((drafts t).filter (fresh x query all)).map fun entry => projectContact .null entry.2) := by
  obtain ⟨merged, hmerged, h⟩ := bind_eq_ok.mp h
  obtain ⟨_, -, h⟩ := bind_eq_ok.mp h
  obtain ⟨_, -, h⟩ := bind_eq_ok.mp h
  cases h
  rw [← foldlM_mergeDraft (nodup_drafts t) drafts_targets hnamed hnodup hmerged]
  exact sorted_perm ..

theorem mem_mergedItems (hnamed : ∀ c ∈ all, Named c) (hnodup : (all.map (·.get "name")).Nodup)
    (h : mergedItems x t query all = .ok items) {item : Json} :
    item ∈ items ↔ (∃ c ∈ all, projected (drafts t) c = item) ∨
      ∃ r, Newest t r ∧ fresh x query all (r.targetName, draftOf r) = true ∧
        projectContact .null (draftOf r) = item := by
  rw [(mergedItems_perm hnamed hnodup h).mem_iff, List.mem_append, List.mem_map, List.mem_map]
  refine or_congr Iff.rfl ?_
  constructor
  · rintro ⟨⟨key, draft⟩, hentry, rfl⟩
    obtain ⟨hentry, hfresh⟩ := List.mem_filter.mp hentry
    obtain ⟨r, hr, rfl, rfl⟩ := mem_drafts.mp hentry
    exact ⟨r, hr, hfresh, rfl⟩
  · rintro ⟨r, hr, hfresh, rfl⟩
    exact ⟨(r.targetName, draftOf r), List.mem_filter.mpr ⟨mem_drafts.mpr ⟨r, hr, rfl, rfl⟩, hfresh⟩, rfl⟩

theorem fresh_iff : fresh x query all (r.targetName, draftOf r) = true ↔
    (∀ c ∈ all, c.get "name" ≠ .str r.targetName) ∧
      (r.contactId = none ∧ (r.status = .queued ∨ r.status = .failed)) ∧
      passes x query r.targetName (projectContact .null (draftOf r)) = .ok true := by
  rw [fresh, Bool.and_eq_true, Bool.and_eq_true, List.all_eq_true, unbound_draftOf, decide_eq_true_eq,
    and_assoc]
  simp only [bne_iff_ne]

theorem nodup_mergedItems (hnamed : ∀ c ∈ all, Named c) (hnodup : (all.map (·.get "name")).Nodup)
    (h : mergedItems x t query all = .ok items) : (items.map (·.get "name")).Nodup := by
  rw [((mergedItems_perm hnamed hnodup h).map _).nodup_iff, List.map_append, List.map_map, List.map_map]
  have hcontacts : all.map ((·.get "name") ∘ projected (drafts t)) = all.map (·.get "name") :=
    List.map_congr_left fun c hc => name_projected (hnamed c hc)
  have hdrafts : ((drafts t).filter (fresh x query all)).map
        ((·.get "name") ∘ fun entry => projectContact .null entry.2) =
      (((drafts t).filter (fresh x query all)).map Prod.fst).map Json.str := by
    rw [List.map_map]
    refine List.map_congr_left fun entry hentry => ?_
    exact name_projectNull (drafts_targets entry (List.mem_filter.mp hentry).1)
  rw [hcontacts, hdrafts]
  refine hnodup.append ?_ ?_
  · refine List.Nodup.map (fun a b heq => Json.str.inj heq) ?_
    exact (nodup_drafts t).sublist (List.filter_sublist.map _)
  · intro value hvalue hvalue'
    obtain ⟨key, hkey, rfl⟩ := List.mem_map.mp hvalue'
    obtain ⟨entry, hentry, rfl⟩ := List.mem_map.mp hkey
    have hfresh := (List.mem_filter.mp hentry).2
    rw [fresh_of_mem (named_iff.mpr hvalue)] at hfresh
    cases hfresh

/-- What a page shows is a stretch of the merged list. -/
theorem answer_stretch (hmanager : x.manager = .ok true) (hdatabase : x.database = none)
    (hnative : Honours x.nativeList (filters query) all deleted)
    (hmerged : mergedItems x t query all = .ok items) {query' : Query} {answer : Json}
    (hfilters : filters query' = filters query) (hanswer : Answers x t query' (.ok answer)) :
    ∃ start size, itemsOf answer = (items.drop start).take size := by
  cases hpage : page query' with
  | error f =>
      obtain ⟨n, hn⟩ := hanswer
      have hlist := hn n le_rfl
      simp only [getList, hmanager, readDrafts, hdatabase, hpage] at hlist
      cases hlist
  | ok window =>
      obtain ⟨p, size⟩ := window
      have hfinish := (answers_iff hmanager hdatabase (hfilters ▸ hnative) hpage).mp hanswer
      rw [finish, (merged_congr hfilters).trans hmerged] at hfinish
      obtain ⟨start, -, hvalue⟩ := Option.map_eq_some_iff.mp hfinish
      cases hvalue
      exact ⟨start, size.toNat, rfl⟩

theorem filters_append (query : Query) (p size : String) :
    filters (filters query ++ [("page", p), ("page_size", size)]) = filters query := by
  simp [filters]

theorem parameter_append {query : Query} {key value : String} {rest : Query}
    (h : ∀ pair ∈ query, pair.1 ≠ key) (hrest : ∀ pair ∈ rest, pair.1 ≠ key) :
    parameter (query ++ (key, value) :: rest) key = .ok (some value) := by
  have hquery : query.filter (fun pair => pair.1 == key) = [] := by
    rw [List.filter_eq_nil_iff]
    exact fun pair hpair => by simpa using h pair hpair
  have hnone : rest.filter (fun pair => pair.1 == key) = [] := by
    rw [List.filter_eq_nil_iff]
    exact fun pair hpair => by simpa using hrest pair hpair
  rw [parameter, List.filter_append, hquery, List.nil_append, List.filter_cons_of_pos (by simp), hnone]

theorem page_window {n : Nat} (hn : n < 2 ^ 63) :
    page (filters query ++ [("page", n.repr), ("page_size", "100")]) =
      if n = 0 then .error (fail 400 "invalid pagination") else .ok ((n : Int), 100) := by
  have hpage : ∀ pair ∈ filters query, pair.1 ≠ "page" := fun pair hpair => by
    have hkeep := (List.mem_filter.mp hpair).2
    simp only [Bool.and_eq_true, bne_iff_ne] at hkeep
    exact hkeep.1
  have hsize : ∀ pair ∈ filters query ++ [("page", n.repr)], pair.1 ≠ "page_size" := fun pair hpair => by
    obtain hpair | hpair := List.mem_append.mp hpair
    · have hkeep := (List.mem_filter.mp hpair).2
      simp only [Bool.and_eq_true, bne_iff_ne] at hkeep
      exact hkeep.2
    · cases List.mem_singleton.mp hpair
      show "page" ≠ "page_size"
      decide
  have hfirst : parameter (filters query ++ [("page", n.repr), ("page_size", "100")]) "page" =
      .ok (some n.repr) := parameter_append hpage (by simp)
  have hsecond : parameter (filters query ++ [("page", n.repr), ("page_size", "100")]) "page_size" =
      .ok (some "100") := by
    have happend := @parameter_append _ "page_size" "100" [] hsize (by simp)
    rwa [List.append_assoc] at happend
  have hhundred : parseI64 (PathText.chars "100") = some 100 := by decide
  simp only [page, integer, hfirst, hsecond, ok_bind, parseI64_repr hn, hhundred]
  split
  · rename_i hzero
    subst hzero
    rfl
  · rename_i hpos
    have hpass : failIf ((n : Int) < 1 ∨ ¬((1 : Int) ≤ 100 ∧ (100 : Int) ≤ 100))
        (fail 400 "invalid pagination") = .ok () := failIf_eq_ok.mpr (by omega)
    rw [hpass]
    rfl

/-- The pages show the whole merged list. -/
theorem listed_iff (hmanager : x.manager = .ok true) (hdatabase : x.database = none)
    (hnative : Honours x.nativeList (filters query) all deleted)
    (hmerged : mergedItems x t query all = .ok items) (hlength : items.length < 2 ^ 63) {item : Json} :
    Listed x t query item ↔ item ∈ items := by
  constructor
  · rintro ⟨query', answer, hfilters, hanswer, hitem⟩
    obtain ⟨start, size, hstretch⟩ := answer_stretch hmanager hdatabase hnative hmerged hfilters hanswer
    rw [hstretch] at hitem
    exact List.mem_of_mem_drop (List.mem_of_mem_take hitem)
  · intro hitem
    obtain ⟨i, hi, hslice⟩ := mem_slice (by omega : 0 < 100) hitem
    have hwindow : page (filters query ++ [("page", (i + 1).repr), ("page_size", "100")]) = _ :=
      page_window (by omega)
    rw [if_neg (Nat.succ_ne_zero i)] at hwindow
    have hfilters := filters_append query (i + 1).repr "100"
    refine ⟨_, pageOf items ((i + 1 : Nat) : Int) 100 deleted, hfilters, ?_, ?_⟩
    · rw [answers_iff hmanager hdatabase (hfilters.symm ▸ hnative) hwindow]
      refine finish_fits hwindow ((merged_congr hfilters).trans hmerged) ?_
      push_cast
      omega
    · have hindex : (((i + 1 : Nat) : Int) - 1).toNat = i := by omega
      rw [pageOf, itemsOf_response, hindex]
      exact hslice

theorem NativeContacts.namedAll (hstored : NativeContacts x stored) : ∀ c ∈ stored, Named c := by
  intro c hc
  obtain ⟨-, own, -, hname⟩ := hstored.named c hc
  exact ⟨own, hname⟩

theorem NativeContacts.nodup (hstored : NativeContacts x stored) (hsubset : all.Subperm stored) :
    (all.map (·.get "name")).Nodup := by
  obtain ⟨kept, hperm, hkept⟩ := hsubset
  exact (hperm.map _).nodup_iff.mp (hstored.unique.sublist (hkept.map _))

/-- A hidden contact is listed as a draft without id. -/
theorem hidden_listed (hmanager : x.manager = .ok true) (hdatabase : x.database = none)
    (hstored : NativeContacts x stored) (hsubset : all.Subperm stored)
    (hnative : Honours x.nativeList (filters query) all deleted)
    (hmerged : mergedItems x t query all = .ok items) (hlength : items.length < 2 ^ 63)
    (hhidden : Hidden x t query stored all r) : ¬Consistent x t query stored := by
  intro hconsistent
  obtain ⟨hnewest, hid, hstatus, ⟨c, hc, hname⟩, hnone, hpasses⟩ := hhidden
  have hmem := (mem_mergedItems (fun d hd => hstored.namedAll d (hsubset.subset hd))
    (hstored.nodup hsubset) hmerged).mpr
      (.inr ⟨r, hnewest, fresh_iff.mpr ⟨hnone, ⟨hid, hstatus⟩, hpasses⟩, rfl⟩)
  have hitem := (listed_iff hmanager hdatabase hnative hmerged hlength).mpr hmem
  have hbound := hconsistent.bound _ hitem c hc (hname.trans (name_projectNull rfl).symm)
  obtain ⟨n, hn⟩ := hstored.numbered c hc
  rw [hn, get_projectNull (by decide) (by decide) (by decide)] at hbound
  cases hbound

/-- List and detail agree unless the list hides a stored contact behind a draft. -/
theorem consistent_iff (hmanager : x.manager = .ok true) (hdatabase : x.database = none)
    (hstored : NativeContacts x stored) (hsubset : all.Subperm stored)
    (hnative : Honours x.nativeList (filters query) all deleted)
    (hrows : ∀ r ∈ t.rows, ∃ raw, name raw = .ok r.targetName)
    (hmerged : mergedItems x t query all = .ok items) (hlength : items.length < 2 ^ 63) :
    Consistent x t query stored ↔ ∀ r, ¬Hidden x t query stored all r := by
  have hnamed : ∀ c ∈ all, Named c := fun c hc => hstored.namedAll c (hsubset.subset hc)
  have hnodup := hstored.nodup hsubset
  have hlisted (item : Json) : Listed x t query item ↔ item ∈ items :=
    listed_iff hmanager hdatabase hnative hmerged hlength
  have hmem (item : Json) : item ∈ items ↔ _ := mem_mergedItems hnamed hnodup hmerged
  constructor
  · intro hconsistent r hhidden
    exact hidden_listed hmanager hdatabase hstored hsubset hnative hmerged hlength hhidden hconsistent
  · intro hvisible
    have hfree {r : OutboundContactRequest} (hnewest : Newest t r)
        (hfresh : fresh x query all (r.targetName, draftOf r) = true) :
        ∀ c ∈ stored, c.get "name" ≠ .str r.targetName := by
      obtain ⟨hnone, ⟨hid, hstatus⟩, hpasses⟩ := fresh_iff.mp hfresh
      exact fun c hc hname => hvisible r ⟨hnewest, hid, hstatus, ⟨c, hc, hname⟩, hnone, hpasses⟩
    constructor
    · intro item hitem
      obtain ⟨c, hc, rfl⟩ | ⟨r, hnewest, hfresh, rfl⟩ := (hmem item).mp ((hlisted item).mp hitem)
      · obtain ⟨own, hown, hdetail⟩ :=
          getContact_stored (t := t) hmanager hdatabase hstored (hsubset.subset hc)
        exact ⟨own, (name_projected (hnamed c hc)).trans hown, hdetail⟩
      · obtain ⟨raw, hraw⟩ := hrows r hnewest.1
        obtain ⟨-, hunbound, -⟩ := fresh_iff.mp hfresh
        have hlookup := lookup_drafts.mpr (mem_drafts.mpr ⟨r, hnewest, rfl, rfl⟩)
        exact ⟨r.targetName, name_projectNull rfl, getContact_missing hmanager hdatabase hstored
          (name_idem hraw) (hfree hnewest hfresh) hlookup (unbound_draftOf.mpr hunbound)⟩
    · intro query' answer hfilters hanswer
      obtain ⟨start, size, hstretch⟩ := answer_stretch hmanager hdatabase hnative hmerged hfilters hanswer
      rw [hstretch]
      refine (nodup_mergedItems hnamed hnodup hmerged).sublist (List.Sublist.map _ ?_)
      exact (List.take_sublist ..).trans (List.drop_sublist ..)
    · intro item hitem c hc hname
      obtain ⟨d, hd, rfl⟩ | ⟨r, hnewest, hfresh, rfl⟩ := (hmem item).mp ((hlisted item).mp hitem)
      · rw [name_projected (hnamed d hd)] at hname
        rw [List.inj_on_of_nodup_map hstored.unique hc (hsubset.subset hd) hname]
        exact id_projected (hnamed d hd)
      · rw [name_projectNull rfl] at hname
        exact absurd hname (hfree hnewest hfresh c hc)

end

def bob : Json :=
  .obj [("id", .int 1), ("name", .str "bob.dhttp.net"), ("subject_id", .str "b"), ("updated_at", .int 5)]

/-- The manager has the contact Bob, who was last changed at 5. -/
def bobReader : Reader :=
  { reader with
    nativeContact query := if query = [("name", "bob.dhttp.net")] then .ok (200, bob)
      else .error (fail 404 "contact not found") }

theorem bob_contacts : NativeContacts bobReader [bob] where
  named c hc := by
    cases List.mem_singleton.mp hc
    exact ⟨"bob", "bob.dhttp.net", by decide +kernel, rfl⟩
  unique := List.nodup_singleton _
  numbered c hc := by
    cases List.mem_singleton.mp hc
    exact ⟨1, rfl⟩
  detail c hc own hown := by
    cases List.mem_singleton.mp hc
    cases hown
    rfl
  missing own hown := by
    refine ⟨"contact not found", if_neg fun heq => ?_⟩
    have hname : own = "bob.dhttp.net" := by simpa using heq
    exact hown bob List.mem_cons_self (congrArg Json.str hname.symm)

def since : Query := [("modified_since", "100")]

theorem merged_since : mergedItems bobReader queued since [] = .ok [greeted] := by decide +kernel

/-- Bob has not changed since 100 and is filtered out, and his queued request is listed instead. -/
theorem stored_contact_listed_as_draft : ¬Consistent bobReader queued since [bob] := by
  refine hidden_listed rfl rfl bob_contacts List.nil_subperm (reader_honours _) merged_since (by decide)
    (r := { Dispatch.posted greeting 900 with id := 1 })
    ⟨⟨List.mem_cons_self, by decide, ?_⟩, rfl, .inl rfl, ⟨bob, List.mem_cons_self, rfl⟩, by simp,
      by decide +kernel⟩
  intro q hq _ _
  cases List.mem_singleton.mp hq
  exact le_rfl

theorem consistent_since : Consistent bobReader queued since [bob] ↔
    ∀ r, ¬Hidden bobReader queued since [bob] [] r := by
  refine consistent_iff rfl rfl bob_contacts List.nil_subperm (reader_honours _) ?_ merged_since
    (by decide)
  intro r hr
  cases List.mem_singleton.mp hr
  exact ⟨"bob", by decide +kernel⟩

end Pishoo.ListDetail
