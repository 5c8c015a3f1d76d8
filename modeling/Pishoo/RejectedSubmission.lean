import Pishoo.Submission

namespace Pishoo.RejectedSubmission

open Outbound Result Capabilities ContactAccess Submission

/-- The operations that a request offers. -/
def operations (x : Accepted) : List Operation := x.offered.flatMap Capability.endpoints

/-- The contact of the recipient, when `grant_offered` can read it. -/
def Found (e : Environment) (store : AccessStore) (x : Accepted) (c : Json) : Prop :=
  e.grant.found = none ∧ store.contacts.lookup x.target = some c

/-- There is no contact of the recipient, and the access service stores this one. -/
def Recorded (e : Environment) (store : AccessStore) (x : Accepted) (subject : String) (c : Json) : Prop :=
  e.grant.found = none ∧ store.contacts.lookup x.target = none ∧
    e.grant.record (newContact e.grant x.target subject x.requested x.offered x.validBefore) = .ok c

/-- The grant records a contact or adds a rule. -/
def Writes (e : Environment) (store : AccessStore) (x : Accepted) : Prop :=
  x.offered ≠ [] ∧ ∃ subject, e.peer = .ok subject ∧
    ((∃ c, Recorded e store x subject c) ∨ ∃ c, Found e store x c ∧ offerable c subject = true ∧
      Adds x.target store e.grant.replies (operations x))

/-- Nothing fails in the grant. -/
def Passes (e : Environment) (store : AccessStore) (x : Accepted) : Prop :=
  x.offered = [] ∨ ∃ subject, e.peer = .ok subject ∧
    (∃ c, (Found e store x c ∨ Recorded e store x subject c ∧ e.grant.again = none) ∧
      offerable c subject = true) ∧
    AllStored e.grant.replies (operations x) ∧ e.pinned = none

/-- Nothing fails up to the commit of the new row: the database works, the recipient has no
queued or pending request but expired ones, and the application id is new. -/
def Inserts (e : Environment) (t : Table) (x : Accepted) : Prop :=
  e.database = none ∧ e.begun = none ∧ e.inserted = none ∧
    (∀ r ∈ t.rows, r.targetName = x.target → r.status.waiting = true → overdue e.expiredAt r = true) ∧
    ∃ id, e.applicationId = .ok id ∧ id.length = 64 ∧ ∀ r ∈ t.rows, r.applicationId ≠ some id

/-- The rows that are due to be delivered or answered, less those that have expired. -/
def liveRows (t : Table) (now : Int) : List OutboundContactRequest :=
  t.rows.filter fun r => r.status.live && !overdue now r

def rulesOf (store : AccessStore) (target : String) : List Rule :=
  store.allow.filter fun rule => rule.target == target

/-- The request is the owner's, and addresses this target. -/
def Addresses (e : Environment) (target : String) : Prop :=
  ∃ doc, document e = .ok doc ∧ recipient e doc = .ok (some target)

structure NoTrace (e : Environment) (s s' : Stores) : Prop where
  contacts : s'.access.contacts = s.access.contacts
  rules : ∀ target, Addresses e target → rulesOf s'.access target = rulesOf s.access target
  live : liveRows s'.table e.expiredAt = liveRows s.table e.expiredAt

def Traceless (e : Environment) (s : Stores) : Prop :=
  ∀ failure, (submit e s).2 = .error failure → NoTrace e s (submit e s).1

/-- The request passes every check up to the grant. -/
def Reaches (e : Environment) (s : Stores) (x : Accepted) : Prop :=
  ∃ doc target existing, document e = .ok doc ∧ recipient e doc = .ok (some target) ∧
    accepted e doc target = .ok x ∧ checked e s.access x = .ok existing

section

variable {e : Environment} {store : AccessStore} {x : Accepted} {subject : String} {existing : Option Json}
  {t : Table} {pinned : Option Json}

theorem rulesOf_extends {target : String} {store' : AccessStore} {adds : Prop}
    (h : Extends target store store' adds) :
    rulesOf store' target = rulesOf store target ↔ ¬adds := by
  obtain ⟨extra, rfl, htarget, hadds⟩ := h
  have hextra : extra.filter (fun rule => rule.target == target) = extra :=
    List.filter_eq_self.mpr fun rule hrule => beq_iff_eq.mpr (htarget rule hrule)
  rw [← hadds, not_ne_iff, rulesOf, rulesOf, List.filter_append, hextra, List.append_right_eq_self]

/-- The store with a contact that the access service has just stored. -/
def withContact (store : AccessStore) (target : String) (c : Json) : AccessStore :=
  { store with contacts := (target, c) :: store.contacts }

def granted (e : Environment) (store : AccessStore) (x : Accepted) (subject : String) : Grant :=
  grantOffered e.grant store x.target subject x.requested x.offered x.validBefore

theorem contact_eq_ok {trouble : Option Trouble} {target : String} {c : Json} :
    contact trouble store target = .ok c ↔ trouble = none ∧ store.contacts.lookup target = some c := by
  cases trouble <;> simp [contact]

/-- The three ways in which `grant_offered` gets at the contact. -/
theorem recorded_cases (e : Environment) (store : AccessStore) (x : Accepted) (subject : String) :
    (∃ c, Found e store x c ∧ recorded e.grant store x.target subject x.requested x.offered
      x.validBefore = (store, .ok c)) ∨
    (∃ c, Recorded e store x subject c ∧ recorded e.grant store x.target subject x.requested x.offered
      x.validBefore = (withContact store x.target c,
        contact e.grant.again (withContact store x.target c) x.target)) ∨
    ((∀ c, ¬Found e store x c) ∧ (∀ c, ¬Recorded e store x subject c) ∧
      ∃ f, recorded e.grant store x.target subject x.requested x.offered x.validBefore =
        (store, .error f)) := by
  unfold Found Recorded recorded contact
  cases hfound : e.grant.found with
  | some trouble =>
      refine .inr (.inr ⟨by simp, by simp, trouble.failure, ?_⟩)
      have hother := trouble.other
      split
      · rename_i h
        cases h
      · rename_i h
        exact absurd (congrArg Prod.fst (Except.error.inj h)) hother
      · rename_i h
        cases h
        rfl
  | none =>
      cases hlookup : store.contacts.lookup x.target with
      | some c => exact .inl ⟨c, ⟨rfl, rfl⟩, rfl⟩
      | none =>
          cases hrecord : e.grant.record
              (newContact e.grant x.target subject x.requested x.offered x.validBefore) with
          | error f =>
              refine .inr (.inr ⟨by simp, by simp, f, ?_⟩)
              simp only [orFail, fail, recordOutbound, hrecord]
              rfl
          | ok c =>
              refine .inr (.inl ⟨c, ⟨rfl, rfl, rfl⟩, ?_⟩)
              simp only [orFail, fail, recordOutbound, hrecord]
              rfl

theorem found_of_lookup {c c' : Json} (h : Found e store x c) (h' : Found e store x c') : c = c' :=
  Option.some.inj (h.2.symm.trans h'.2)

theorem found_not_recorded {c c' : Json} (h : Found e store x c) : ¬Recorded e store x subject c' :=
  fun h' => by cases h.2.symm.trans h'.2.1

theorem recorded_unique {c c' : Json} (h : Recorded e store x subject c)
    (h' : Recorded e store x subject c') : c = c' :=
  Except.ok.inj (h.2.2.symm.trans h'.2.2)

/-- What the grant does with the contact that it has got. -/
def grantTo (e : Environment) (store : AccessStore) (x : Accepted) (subject : String) (c : Json) :
    Grant :=
  if offerable c subject then allowAll x.target store e.grant.replies (operations x)
  else ⟨[], store, .error (fail 409 "local contact blocks offered capabilities")⟩

theorem grantTo_outcome {c : Json} : (grantTo e store x subject c).outcome = .ok () ↔
    offerable c subject = true ∧ AllStored e.grant.replies (operations x) := by
  unfold grantTo
  split
  · rename_i hopen
    rw [allowAll_outcome, and_iff_right hopen]
  · rename_i hopen
    simp [hopen]

theorem grantTo_store {c : Json} : Extends x.target store (grantTo e store x subject c).store
    (offerable c subject = true ∧ Adds x.target store e.grant.replies (operations x)) := by
  unfold grantTo
  split
  · rename_i hopen
    rw [and_iff_right hopen]
    exact allowAll_store
  · rename_i hopen
    exact extends_refl fun h => hopen h.1

theorem granted_found {c : Json} (h : Found e store x c) :
    granted e store x subject = grantTo e store x subject c := by
  obtain ⟨c', hc, heq⟩ | ⟨c', hc, -⟩ | ⟨hnone, -⟩ := recorded_cases e store x subject
  · cases found_of_lookup h hc
    rw [granted, grantOffered, heq]
    rfl
  · exact absurd hc (found_not_recorded h)
  · exact absurd h (hnone c)

theorem granted_recorded {c : Json} (h : Recorded e store x subject c) :
    granted e store x subject = match e.grant.again with
      | some trouble => ⟨[], withContact store x.target c, .error trouble.failure⟩
      | none => grantTo e (withContact store x.target c) x subject c := by
  obtain ⟨c', hc, -⟩ | ⟨c', hc, heq⟩ | ⟨-, hnone, -⟩ := recorded_cases e store x subject
  · exact absurd h (found_not_recorded hc)
  · cases recorded_unique h hc
    rw [granted, grantOffered, heq]
    cases hagain : e.grant.again with
    | some trouble => rfl
    | none =>
        have hread : contact none (withContact store x.target c) x.target = .ok c :=
          contact_eq_ok.mpr ⟨rfl, by simp [withContact]⟩
        rw [hread]
        rfl
  · exact absurd h (hnone c)

theorem granted_refused (hfound : ∀ c, ¬Found e store x c) (hrecorded : ∀ c, ¬Recorded e store x subject c) :
    ∃ f, granted e store x subject = ⟨[], store, .error f⟩ := by
  obtain ⟨c, hc, -⟩ | ⟨c, hc, -⟩ | ⟨-, -, f, heq⟩ := recorded_cases e store x subject
  · exact absurd hc (hfound c)
  · exact absurd hc (hrecorded c)
  · refine ⟨f, ?_⟩
    rw [granted, grantOffered, heq]

/-- The contacts and the rules of the recipient stay as they were. -/
def Untouched (store store' : AccessStore) (target : String) : Prop :=
  store'.contacts = store.contacts ∧ rulesOf store' target = rulesOf store target

theorem granted_untouched : Untouched store (granted e store x subject).store x.target ↔
    ¬((∃ c, Recorded e store x subject c) ∨ ∃ c, Found e store x c ∧ offerable c subject = true ∧
      Adds x.target store e.grant.replies (operations x)) := by
  by_cases hfound : ∃ c, Found e store x c
  · obtain ⟨c, hc⟩ := hfound
    rw [granted_found hc]
    have hstore : Extends x.target store (grantTo e store x subject c).store _ := grantTo_store
    rw [Untouched, rulesOf_extends hstore, and_iff_right hstore.contacts_eq, not_iff_not]
    constructor
    · exact fun h => .inr ⟨c, hc, h⟩
    · rintro (⟨c', hc'⟩ | ⟨c', hc', h⟩)
      · exact absurd hc' (found_not_recorded hc)
      · exact found_of_lookup hc' hc ▸ h
  · by_cases hrecorded : ∃ c, Recorded e store x subject c
    · obtain ⟨c, hc⟩ := hrecorded
      rw [granted_recorded hc]
      refine iff_of_false (fun h => ?_) fun h => h (.inl ⟨c, hc⟩)
      have hcontacts : (x.target, c) :: store.contacts = store.contacts := by
        have hkeep := h.1
        split at hkeep
        · exact hkeep
        · rwa [grantTo_store.contacts_eq] at hkeep
      exact List.cons_ne_self _ _ hcontacts
    · obtain ⟨f, heq⟩ := granted_refused (fun c hc => hfound ⟨c, hc⟩) fun c hc => hrecorded ⟨c, hc⟩
      rw [heq]
      refine iff_of_true ⟨rfl, rfl⟩ ?_
      rintro (h | ⟨c, hc, -⟩)
      · exact hrecorded h
      · exact hfound ⟨c, hc⟩

theorem granted_outcome : (granted e store x subject).outcome = .ok () ↔
    (∃ c, (Found e store x c ∨ Recorded e store x subject c ∧ e.grant.again = none) ∧
      offerable c subject = true) ∧ AllStored e.grant.replies (operations x) := by
  by_cases hfound : ∃ c, Found e store x c
  · obtain ⟨c, hc⟩ := hfound
    rw [granted_found hc, grantTo_outcome]
    refine and_congr_left fun _ => ⟨fun h => ⟨c, .inl hc, h⟩, ?_⟩
    rintro ⟨c', hc' | ⟨hc', -⟩, h⟩
    · exact found_of_lookup hc' hc ▸ h
    · exact absurd hc' (found_not_recorded hc)
  · by_cases hrecorded : ∃ c, Recorded e store x subject c
    · obtain ⟨c, hc⟩ := hrecorded
      rw [granted_recorded hc]
      cases hagain : e.grant.again with
      | some trouble =>
          refine iff_of_false (by simp) ?_
          rintro ⟨⟨c', hc' | ⟨-, hnone⟩, -⟩, -⟩
          · exact hfound ⟨c', hc'⟩
          · cases hnone
      | none =>
          rw [grantTo_outcome]
          refine and_congr_left fun _ => ⟨fun h => ⟨c, .inr ⟨hc, rfl⟩, h⟩, ?_⟩
          rintro ⟨c', hc' | ⟨hc', -⟩, h⟩
          · exact absurd ⟨c', hc'⟩ hfound
          · exact recorded_unique hc' hc ▸ h
    · obtain ⟨f, heq⟩ := granted_refused (fun c hc => hfound ⟨c, hc⟩) fun c hc => hrecorded ⟨c, hc⟩
      rw [heq]
      refine iff_of_false (by simp) ?_
      rintro ⟨⟨c, hc | ⟨hc, -⟩, -⟩, -⟩
      · exact hfound ⟨c, hc⟩
      · exact hrecorded ⟨c, hc⟩

theorem granted_contact (h : (granted e store x subject).outcome = .ok ()) :
    ∃ c, (granted e store x subject).store.contacts.lookup x.target = some c := by
  obtain ⟨⟨c, hc | ⟨hc, hagain⟩, -⟩, -⟩ := granted_outcome.mp h
  · rw [granted_found hc, grantTo_store.contacts_eq]
    exact ⟨c, hc.2⟩
  · rw [granted_recorded hc, hagain, grantTo_store.contacts_eq]
    exact ⟨c, by simp [withContact]⟩

theorem pin_ok (e : Environment) (store : AccessStore) (x : Accepted) (existing : Option Json) :
    (∃ pinned, (pin e store x existing).2 = .ok pinned) ↔ Passes e store x := by
  unfold pin Passes
  split
  · rename_i hempty
    exact iff_of_true ⟨existing, rfl⟩ (.inl hempty)
  · rename_i hne
    rw [or_iff_right hne]
    split
    · rename_i f hpeer
      simp [hpeer]
    · rename_i subject hpeer
      simp only [bind_eq_ok, contact_eq_ok]
      constructor
      · rintro ⟨_, _, houtcome, c, ⟨hpinned, -⟩, -⟩
        obtain ⟨hc, hall⟩ := granted_outcome.mp houtcome
        exact ⟨subject, hpeer, hc, hall, hpinned⟩
      · rintro ⟨_, hpeer', hc, hall, hpinned⟩
        cases hpeer.symm.trans hpeer'
        have houtcome := granted_outcome.mpr ⟨hc, hall⟩
        obtain ⟨c', hc'⟩ := granted_contact houtcome
        exact ⟨some c', (), houtcome, c', ⟨hpinned, hc'⟩, rfl⟩

theorem pin_untouched (e : Environment) (store : AccessStore) (x : Accepted)
    (existing : Option Json) :
    Untouched store (pin e store x existing).1 x.target ↔ ¬Writes e store x := by
  unfold pin Writes
  split
  · rename_i hempty
    exact iff_of_true ⟨rfl, rfl⟩ fun h => h.1 hempty
  · rename_i hne
    rw [and_iff_right hne]
    split
    · rename_i f hpeer
      rw [hpeer]
      refine iff_of_true ⟨rfl, rfl⟩ ?_
      rintro ⟨subject, h, -⟩
      cases h
    · rename_i subject hpeer
      rw [hpeer]
      simp only [Except.ok.injEq, exists_eq_left']
      exact granted_untouched

end

section

variable {e : Environment} {t u v : Table} {x : Accepted} {pinned : Option Json} {now : Int}

theorem live_expired (r : OutboundContactRequest) :
    ((if overdue now r then expire now r else r).status.live &&
      !overdue now (if overdue now r then expire now r else r)) = (r.status.live && !overdue now r) := by
  split
  · rename_i hover
    simp [Delivery.not_live_expire, hover]
  · rfl

theorem expire_live (h : expireRequests t now = .ok u) : liveRows u now = liveRows t now := by
  rw [liveRows, (stored_ok h).1, Rows.updateWhere, List.filter_map]
  have hfilter : ((fun r => r.status.live && !overdue now r) ∘
      fun r => if overdue now r then expire now r else r) = fun r => r.status.live && !overdue now r :=
    funext live_expired
  rw [hfilter]
  refine (List.map_congr_left fun r hr => ?_).trans (List.map_id _)
  have hlive := (List.mem_filter.mp hr).2
  rw [Bool.and_eq_true, Bool.not_eq_true'] at hlive
  rw [hlive.2]
  rfl

theorem mem_expired (h : expireRequests t now = .ok u) {r : OutboundContactRequest} :
    r ∈ u.rows ↔ ∃ q ∈ t.rows, (if overdue now q then expire now q else q) = r := by
  rw [(stored_ok h).1, Rows.mem_updateWhere]

theorem expired_free (h : expireRequests t now = .ok u) {target : String} :
    (∀ r ∈ u.rows, r.targetName = target → r.status.waiting = false) ↔
      ∀ r ∈ t.rows, r.targetName = target → r.status.waiting = true → overdue now r = true := by
  constructor
  · intro hfree r hr htarget hwaiting
    by_contra hover
    have hmem := (mem_expired h).mpr ⟨r, hr, if_neg hover⟩
    rw [hfree r hmem htarget] at hwaiting
    cases hwaiting
  · intro hover r hr htarget
    obtain ⟨q, hq, rfl⟩ := (mem_expired h).mp hr
    split
    · cases hwaiting : (expire now q).status.waiting with
      | false => rfl
      | true =>
          have hlive := Status.live_of_waiting hwaiting
          rw [Delivery.not_live_expire] at hlive
          cases hlive
    · rename_i hnot
      rw [if_neg hnot] at htarget
      cases hwaiting : q.status.waiting with
      | false => rfl
      | true => exact absurd (hover q hq htarget hwaiting) hnot

theorem expired_ids (h : expireRequests t now = .ok u) {id : String} :
    (∀ r ∈ u.rows, r.applicationId ≠ some id) ↔ ∀ r ∈ t.rows, r.applicationId ≠ some id := by
  have hsame (q : OutboundContactRequest) :
      (if overdue now q then expire now q else q).applicationId = q.applicationId := by
    split <;> rfl
  constructor
  · intro hnew r hr
    have hmem := (mem_expired h).mpr ⟨r, hr, rfl⟩
    rw [← hsame r]
    exact hnew _ hmem
  · intro hnew r hr
    obtain ⟨q, hq, rfl⟩ := (mem_expired h).mp hr
    rw [hsame]
    exact hnew q hq

/-- What the checks of the request promise to the `INSERT`. -/
structure Insertable (x : Accepted) : Prop where
  target : 0 < x.target.length
  description : x.description.length ≤ 80

theorem raise_eq_ok {f : Option Failure} {u : Unit} : raise f = .ok u ↔ f = none := by
  cases f <;> simp [raise]

theorem compatible_posted {r : OutboundContactRequest} {id : String} :
    Compatible r (Dispatch.posted (draft x pinned id) now) ↔
      (r.targetName = x.target → r.status.waiting = false) ∧ r.applicationId ≠ some id := by
  refine and_congr ?_ ?_
  · rw [← Bool.not_eq_true]
    exact ⟨fun h htarget hwaiting => h ⟨hwaiting, rfl, htarget⟩, fun h hclash => h hclash.2.2 hclash.1⟩
  · exact ⟨fun h heq => h ⟨by rw [heq]; rfl, heq⟩, fun h hboth => h hboth.2⟩

theorem insertion_ok (hx : Insertable x) : (∃ v, insertion e u x pinned = .ok v) ↔
    e.begun = none ∧ e.inserted = none ∧
      (∀ r ∈ u.rows, r.targetName = x.target → r.status.waiting = false) ∧
      ∃ id, e.applicationId = .ok id ∧ id.length = 64 ∧ ∀ r ∈ u.rows, r.applicationId ≠ some id := by
  have hposted (id : String) :
      (∃ v, u.insert (Dispatch.posted (draft x pinned id) e.time) = .ok v) ↔ id.length = 64 ∧
        ∀ r ∈ u.rows, (r.targetName = x.target → r.status.waiting = false) ∧ r.applicationId ≠ some id := by
    rw [Table.insert_isOk]
    refine and_congr ?_ (forall₂_congr fun _ _ => compatible_posted)
    exact ⟨fun h => h.2.2.1 id rfl, fun h => ⟨hx.target, hx.description, by rintro _ ⟨⟩; exact h, nofun⟩⟩
  have hfree : ¬(u.rows.any (fun r => r.targetName == x.target && r.status.waiting) = true) ↔
      ∀ r ∈ u.rows, r.targetName = x.target → r.status.waiting = false := by
    simp
  simp only [insertion, bind_eq_ok, raise_eq_ok, failIf_eq_ok, hfree]
  constructor
  · rintro ⟨v, -, hbegun, -, hnone, id, hid, -, hinserted, hinsert⟩
    obtain ⟨hlength, hrows⟩ := (hposted id).mp ⟨v, hinsert⟩
    exact ⟨hbegun, hinserted, hnone, id, hid, hlength, fun r hr => (hrows r hr).2⟩
  · rintro ⟨hbegun, hinserted, hnone, id, hid, hlength, hnew⟩
    obtain ⟨v, hinsert⟩ := (hposted id).mpr ⟨hlength, fun r hr => ⟨hnone r hr, hnew r hr⟩⟩
    exact ⟨v, (), hbegun, (), hnone, id, hid, (), hinserted, hinsert⟩

theorem insertion_rows (h : insertion e u x pinned = .ok v) :
    v.sequence = u.sequence + 1 ∧ ∃ id, v.rows = u.rows ++
      [{ Dispatch.posted (draft x pinned id) e.time with id := u.sequence + 1 }] := by
  obtain ⟨-, -, h⟩ := bind_eq_ok.mp h
  obtain ⟨-, -, h⟩ := bind_eq_ok.mp h
  obtain ⟨id, -, h⟩ := bind_eq_ok.mp h
  obtain ⟨-, -, h⟩ := bind_eq_ok.mp h
  exact ⟨(stored_ok h).2, id, (stored_ok h).1⟩

theorem insertion_live (h : insertion e u x pinned = .ok v) :
    liveRows v now = liveRows u now ↔ x.validBefore ≤ now := by
  obtain ⟨-, id, hrows⟩ := insertion_rows h
  rw [liveRows, hrows, List.filter_append, liveRows, List.append_right_eq_self, List.filter_eq_nil_iff]
  simp [Dispatch.posted, draft, overdue, Status.live, Status.waiting]

theorem answer_ok (h : insertion e u x pinned = .ok v) :
    (∃ value, answer e v pinned = .ok value) ↔ e.reread = none := by
  obtain ⟨hsequence, id, hrows⟩ := insertion_rows h
  have hrow : v.row v.sequence =
      some { Dispatch.posted (draft x pinned id) e.time with id := u.sequence + 1 } :=
    Table.row_eq_some.mpr ⟨hrows ▸ List.mem_append_right _ List.mem_cons_self, hsequence.symm⟩
  simp only [answer, bind_eq_ok, raise_eq_ok, hrow, orFail]
  constructor
  · rintro ⟨_, _, hreread, -⟩
    exact hreread
  · intro hreread
    exact ⟨_, (), hreread, _, rfl, rfl⟩

theorem inserts_iff (pinned : Option Json) (hx : Insertable x) (hdatabase : e.database = none)
    (h : expireRequests t e.expiredAt = .ok u) :
    (∃ v, insertion e u x pinned = .ok v) ↔ Inserts e t x := by
  rw [insertion_ok hx, expired_free h, Inserts]
  simp only [expired_ids h, hdatabase, true_and]

theorem enqueue_ok (hx : Insertable x) :
    (∃ value, (enqueue e t x pinned).2 = .ok value) ↔ Inserts e t x ∧ e.reread = none := by
  unfold enqueue
  split
  · rename_i f hdatabase
    refine iff_of_false (by simp) fun h => ?_
    cases hdatabase.symm.trans h.1.1
  · rename_i hdatabase
    obtain ⟨u, hu⟩ := expireRequests_ok t e.expiredAt
    rw [hu, ← inserts_iff pinned hx hdatabase hu]
    cases hinsertion : insertion e u x pinned with
    | error f => simp [hinsertion]
    | ok v => simpa [hinsertion] using answer_ok hinsertion

theorem enqueue_live (hx : Insertable x) :
    liveRows (enqueue e t x pinned).1 e.expiredAt = liveRows t e.expiredAt ↔
      (Inserts e t x → x.validBefore ≤ e.expiredAt) := by
  unfold enqueue
  split
  · rename_i f hdatabase
    refine iff_of_true rfl fun h => ?_
    cases hdatabase.symm.trans h.1
  · rename_i hdatabase
    obtain ⟨u, hu⟩ := expireRequests_ok t e.expiredAt
    rw [hu, ← inserts_iff pinned hx hdatabase hu, ← expire_live hu]
    cases hinsertion : insertion e u x pinned with
    | error f => simp [hinsertion]
    | ok v => simpa [hinsertion] using insertion_live hinsertion

end

theorem name_nonempty {raw target : String} (h : ContactQuery.name raw = .ok target) :
    0 < target.length := by
  obtain ⟨_, hpass, h⟩ := bind_eq_ok.mp h
  cases h
  have hvalid := failIf_eq_ok.mp hpass
  rw [String.length_ofList, List.length_pos_iff]
  intro hempty
  refine hvalid (.inr (.inl ?_))
  rw [hempty]
  rfl

section

variable {e : Environment} {s : Stores} {x : Accepted} {doc : Json} {target : String}

theorem recipient_nonempty (h : recipient e doc = .ok (some target)) : 0 < target.length := by
  obtain ⟨_, -, h⟩ := bind_eq_ok.mp h
  obtain ⟨sender, -, h⟩ := bind_eq_ok.mp h
  obtain ⟨_, -, h⟩ := bind_eq_ok.mp h
  obtain ⟨receiver, hreceiver, h⟩ := bind_eq_ok.mp h
  obtain ⟨_, -, h⟩ := bind_eq_ok.mp h
  split at h
  · obtain ⟨_, -, h⟩ := bind_eq_ok.mp h
    cases h
  · cases h
    exact name_nonempty hreceiver

theorem accepted_ok (h : accepted e doc target = .ok x) :
    x.target = target ∧ x.description.length ≤ 80 := by
  obtain ⟨_, -, h⟩ := bind_eq_ok.mp h
  obtain ⟨_, -, h⟩ := bind_eq_ok.mp h
  obtain ⟨_, -, h⟩ := bind_eq_ok.mp h
  obtain ⟨_, -, h⟩ := bind_eq_ok.mp h
  obtain ⟨description, -, h⟩ := bind_eq_ok.mp h
  obtain ⟨_, hvalid, h⟩ := bind_eq_ok.mp h
  obtain ⟨_, -, h⟩ := bind_eq_ok.mp h
  obtain ⟨_, -, h⟩ := bind_eq_ok.mp h
  obtain ⟨_, -, h⟩ := bind_eq_ok.mp h
  cases h
  refine ⟨rfl, ?_⟩
  by_contra hlong
  exact failIf_eq_ok.mp hvalid (.inl (Nat.lt_of_not_le hlong))

/-- A request that reaches the grant: when it succeeds, and what it leaves. -/
theorem submit_reached (h : Reaches e s x) :
    ((∃ value, (submit e s).2 = .ok value) ↔
      Passes e s.access x ∧ Inserts e s.table x ∧ e.reread = none) ∧
    (Untouched s.access (submit e s).1.access x.target ↔ ¬Writes e s.access x) ∧
    (liveRows (submit e s).1.table e.expiredAt = liveRows s.table e.expiredAt ↔
      (Passes e s.access x → Inserts e s.table x → x.validBefore ≤ e.expiredAt)) := by
  obtain ⟨doc, target, existing, hdoc, hrecipient, haccepted, hchecked⟩ := h
  obtain ⟨rfl, hdescription⟩ := accepted_ok haccepted
  have hx : Insertable x := ⟨recipient_nonempty hrecipient, hdescription⟩
  have hpasses := pin_ok e s.access x existing
  have huntouched := pin_untouched e s.access x existing
  rw [submit, hdoc]
  simp only [hrecipient, submitTo, haccepted, hchecked]
  generalize pin e s.access x existing = outcome at hpasses huntouched ⊢
  obtain ⟨store, result⟩ := outcome
  cases result with
  | error f =>
      have hfail : ¬Passes e s.access x := by simpa using hpasses
      exact ⟨by simp [hfail], huntouched, by simp [hfail]⟩
  | ok pinned =>
      have hpass : Passes e s.access x := hpasses.mp ⟨pinned, rfl⟩
      simp only [hpass, true_and, forall_const]
      exact ⟨enqueue_ok hx, huntouched, enqueue_live hx⟩

/-- A request of the owner that does not reach the grant leaves everything as it was. -/
theorem submit_unreached (hown : ∀ doc, document e = .ok doc → recipient e doc ≠ .ok none)
    (h : ∀ x, ¬Reaches e s x) : (submit e s).1 = s := by
  rw [submit]
  cases hdoc : document e with
  | error f => rfl
  | ok doc =>
      cases hrecipient : recipient e doc with
      | error f => simp only [hrecipient]
      | ok receiver =>
          cases receiver with
          | none => exact absurd hrecipient (hown doc hdoc)
          | some target =>
              simp only [hrecipient, submitTo]
              cases haccepted : accepted e doc target with
              | error f => rfl
              | ok x =>
                  cases hchecked : checked e s.access x with
                  | error f => simp only [hchecked]
                  | ok existing =>
                      exact absurd ⟨doc, target, existing, hdoc, hrecipient, haccepted, hchecked⟩ (h x)

theorem addresses_reached (h : Reaches e s x) : Addresses e target ↔ target = x.target := by
  obtain ⟨doc, target', existing, hdoc, hrecipient, haccepted, -⟩ := h
  rw [(accepted_ok haccepted).1]
  constructor
  · rintro ⟨doc', hdoc', hrecipient'⟩
    cases hdoc.symm.trans hdoc'
    cases hrecipient.symm.trans hrecipient'
    rfl
  · rintro rfl
    exact ⟨doc, hdoc, hrecipient⟩

theorem noTrace_reached (h : Reaches e s x) : NoTrace e s (submit e s).1 ↔
    ¬Writes e s.access x ∧
      (Passes e s.access x → Inserts e s.table x → x.validBefore ≤ e.expiredAt) := by
  obtain ⟨-, huntouched, hlive⟩ := submit_reached h
  rw [← huntouched, ← hlive]
  constructor
  · intro htrace
    exact ⟨⟨htrace.contacts, htrace.rules _ ((addresses_reached h).mpr rfl)⟩, htrace.live⟩
  · rintro ⟨⟨hcontacts, hrules⟩, hlive⟩
    exact ⟨hcontacts, fun target htarget => (addresses_reached h).mp htarget ▸ hrules, hlive⟩

/-- An owner's request that fails leaves no trace exactly if the grant writes nothing or nothing
fails after it, and a row that was inserted can be read again. -/
theorem traceless_iff (hown : ∀ doc, document e = .ok doc → recipient e doc ≠ .ok none) :
    Traceless e s ↔ ∀ x, Reaches e s x →
      (Writes e s.access x → Passes e s.access x ∧ Inserts e s.table x ∧ e.reread = none) ∧
      (Passes e s.access x → Inserts e s.table x → e.expiredAt < x.validBefore → e.reread = none) := by
  constructor
  · intro htraceless x hx
    obtain ⟨hok, -⟩ := submit_reached hx
    have hkept (hfail : ¬(Passes e s.access x ∧ Inserts e s.table x ∧ e.reread = none)) :
        ¬Writes e s.access x ∧
          (Passes e s.access x → Inserts e s.table x → x.validBefore ≤ e.expiredAt) := by
      rw [← noTrace_reached hx]
      cases hresult : (submit e s).2 with
      | error failure => exact htraceless failure hresult
      | ok value => exact absurd (hok.mp ⟨value, hresult⟩) hfail
    constructor
    · intro hwrites
      by_contra hfail
      exact (hkept hfail).1 hwrites
    · intro hpasses hinserts hbefore
      by_contra hreread
      have hafter := (hkept fun h => hreread h.2.2).2 hpasses hinserts
      omega
  · intro hcondition failure hfailure
    by_cases hreaches : ∃ x, Reaches e s x
    · obtain ⟨x, hx⟩ := hreaches
      have hfail : ¬(Passes e s.access x ∧ Inserts e s.table x ∧ e.reread = none) := by
        intro h
        obtain ⟨value, hvalue⟩ := (submit_reached hx).1.mpr h
        cases hfailure.symm.trans hvalue
      obtain ⟨hwrites, hinserted⟩ := hcondition x hx
      refine (noTrace_reached hx).mpr ⟨fun h => hfail (hwrites h), fun hpasses hinserts => ?_⟩
      by_contra hbefore
      exact hfail ⟨hpasses, hinserts, hinserted hpasses hinserts (by omega)⟩
    · rw [submit_unreached hown fun x hx => hreaches ⟨x, hx⟩]
      exact ⟨rfl, fun _ _ => rfl, rfl⟩

end

def alice : Identity := ⟨"alice.dhttp.net", "a"⟩

def mailCatalog : Json := .obj [("example/mail · Read", .obj [("/mail", .arr [.str "GET"])])]

def bob : Json := .obj [("id", .int 1), ("subject_id", .str "b"), ("status", .str "active")]

def offer : Json :=
  .obj [("from", .str "alice.dhttp.net"), ("to", .str "bob.dhttp.net"), ("description", .str "Hello"),
    ("requested_capabilities", .arr []), ("offered_capabilities", .arr [.str "example/mail · Read"])]

/-- Alice offers Bob to read her mail, and nothing fails outside the stores. -/
def offering : Environment where
  endpointName := "alice.dhttp.net"
  crossSite := false
  visitor := some alice
  body := some (some offer)
  listed := .ok true
  native store := (store, .ok .null)
  owner := .ok alice
  http := ⟨fun _ => true, fun method => ["GET", "POST", "PATCH", "DELETE"].contains method⟩
  remoteCatalog := .ok (.obj [])
  expiryReading := 1000
  localCatalog := .ok mailCatalog
  existing := none
  grantable := .ok true
  peer := .ok "b"
  grant := ⟨none, fun _ => .ok bob, none, fun _ => .stored, 1000, 1000⟩
  pinned := none
  database := none
  expiredAt := 1000
  begun := none
  time := 1000
  applicationId := .ok (String.ofList (List.replicate 64 'c'))
  inserted := none
  reread := none

def waitingDraft : Dispatch.Draft where
  targetName := "bob.dhttp.net"
  contactId := some 1
  contactSubject := some "b"
  description := "Hello"
  requestedCapabilities := []
  offeredCapabilities := []
  requestedAccess := []
  offers := []
  applicationId := String.ofList (List.replicate 64 'd')
  validBefore := 9000

/-- Bob is a contact without any permission, and a request to him is queued. -/
def queuedBefore : Stores where
  access := ⟨[("bob.dhttp.net", bob)], []⟩
  table := ⟨[{ Dispatch.posted waitingDraft 900 with id := 1 }], 1, by decide +kernel⟩

theorem offering_own (doc : Json) (h : document offering = .ok doc) : recipient offering doc ≠ .ok none := by
  have hdoc : document offering = .ok offer := by decide +kernel
  cases hdoc.symm.trans h
  decide +kernel

/-- The request is refused because another one is queued, and Bob may read the mail. -/
theorem refused_request_grants : ¬Traceless offering queuedBefore := by
  intro h
  have hrefused : (submit offering queuedBefore).2 =
      .error (fail 409 "contact request already pending") := by decide +kernel
  have haddresses : Addresses offering "bob.dhttp.net" := ⟨offer, by decide +kernel, by decide +kernel⟩
  have hrules := (h _ hrefused).rules "bob.dhttp.net" haddresses
  have hgranted : rulesOf (submit offering queuedBefore).1.access "bob.dhttp.net" =
      [⟨"bob.dhttp.net", "GET", "/mail"⟩] := by decide +kernel
  rw [hgranted] at hrules
  cases hrules

theorem traceless_offering : Traceless offering queuedBefore ↔ ∀ x, Reaches offering queuedBefore x →
    (Writes offering queuedBefore.access x →
      Passes offering queuedBefore.access x ∧ Inserts offering queuedBefore.table x ∧ offering.reread = none) ∧
    (Passes offering queuedBefore.access x → Inserts offering queuedBefore.table x →
      offering.expiredAt < x.validBefore → offering.reread = none) :=
  traceless_iff offering_own

end Pishoo.RejectedSubmission
