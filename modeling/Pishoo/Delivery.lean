import Pishoo.Outbound

namespace Pishoo.Delivery

open Outbound Result

structure PendingReview where
  id : Int
  subject : String
  method : String
  path : String

structure DeliveryJob where
  id : Nat
  target : String
  applicationId : String
  description : String
  requestedCaps : List Json
  offeredCaps : List Json
  status : Status
  contactId : Option Int
  contactSubject : Option String
  requestedAccess : Option (List (String × Json))
  offeredAccess : Option (List (String × Json))
  startedAt : Int
  review : Option PendingReview

/-- `row.get` of a column that is unexpectedly null. -/
def column {α : Type} : Option α → Except Failure α
  | some a => .ok a
  | none => .error (fail 500 "contact storage: invalid column type")

def review (r : OutboundContactRequest) : Except Failure (Option PendingReview) :=
  match r.reviewId with
  | none => .ok none
  | some id => do
      let subject ← column r.reviewSubject
      let method ← column r.reviewMethod
      let path ← column r.reviewPath
      .ok (some ⟨id, subject, method, path⟩)

def job (r : OutboundContactRequest) : Except Failure DeliveryJob := do
  let applicationId ← column r.applicationId
  let review ← review r
  .ok {
    id := r.id
    target := r.targetName
    applicationId
    description := r.description
    requestedCaps := r.requestedCapabilities
    offeredCaps := r.offeredCapabilities
    status := r.status
    contactId := r.contactId
    contactSubject := r.contactSubject
    requestedAccess := r.requestedAccess
    offeredAccess := r.offers
    startedAt := r.createdAt
    review }

/-- The `WHERE` clause of the claim. -/
def claimable (now : Int) (r : OutboundContactRequest) : Bool :=
  r.status.live && decide (r.nextAttemptAt ≤ now) &&
    (decide (r.status = .active) || decide (now < r.expiredAfter)) &&
    r.leaseUntil.all (fun lease => decide (lease ≤ now))

def before (a b : OutboundContactRequest) : Bool :=
  decide (a.nextAttemptAt < b.nextAttemptAt) ||
    (decide (a.nextAttemptAt = b.nextAttemptAt) && decide (a.id < b.id))

/-- `ORDER BY next_attempt_at,id LIMIT 1`. -/
def first : List OutboundContactRequest → Option OutboundContactRequest
  | [] => none
  | r :: rows => match first rows with
    | none => some r
    | some q => some (if before q r then q else r)

theorem first_mem {rows : List OutboundContactRequest} {r : OutboundContactRequest}
    (h : first rows = some r) : r ∈ rows := by
  induction rows generalizing r with
  | nil => cases h
  | cons q rows ih =>
      simp only [first] at h
      cases hf : first rows with
      | none => rw [hf] at h; cases h; exact List.mem_cons_self
      | some p =>
          rw [hf] at h
          cases h
          split
          · exact List.mem_cons_of_mem _ (ih hf)
          · exact List.mem_cons_self

def setLease (lease : Int) (r : OutboundContactRequest) : OutboundContactRequest :=
  { r with leaseUntil := some lease }

/-- The first transaction of `deliver`. The three readings of the clock are those of
`expire_requests`, of the query and of the lease. -/
def claim (t : Table) (t₁ t₂ t₃ : Int) : Except Failure (Table × Option (DeliveryJob × Int)) := do
  let t ← expireRequests t t₁
  match first (t.rows.filter (claimable t₂)) with
  | none => .ok (t, none)
  | some r => do
      let job ← job r
      let lease := t₃ + 120
      let t ← t.update (fun q => q.id == job.id) (setLease lease)
      .ok (t, some (job, lease))

/-- `id=? AND lease_until=?`, the fence of every later write of the round. -/
def holds (id : Nat) (lease : Int) (r : OutboundContactRequest) : Bool :=
  r.id == id && decide (r.leaseUntil = some lease)

def setContact (localId : Int) (localSubject : String) (r : OutboundContactRequest) :
    OutboundContactRequest :=
  { r with contactId := some localId, contactSubject := some localSubject }

def bind (t : Table) (id : Nat) (lease : Int) (localId : Int) (localSubject : String) :
    Except Failure Table :=
  t.update (fun r => holds id lease r && r.contactId.isNone) (setContact localId localSubject)

def string (value : Json) (key : String) : Except Failure String :=
  match (value.get key).asStr with
  | some s => .ok s
  | none => .error (fail 400 s!"invalid {key}")

def pendingReview (code : Nat) (body : Json) : Except Failure (Option Int) :=
  if code = 202 ∧ (body.get "status").asStr = some "pending_review" ∨
      code = 400 ∧ (body.get "error").asStr = some "need_review" then
    match (body.get "review_id").asI64 with
    | some id => if 0 < id then .ok (some id) else .error (fail 400 "review protocol upgrade required")
    | none => .error (fail 400 "review protocol upgrade required")
  else .ok none

def reviewProgress (code : Nat) (body : Json) : Except Failure Bool :=
  if code = 404 then .error (fail 410 "review_expired")
  else if code ≠ 200 then
    .error (fail (if code = 202 ∨ code = 400 then 409 else code) "review status unavailable")
  else match (body.get "status").asStr with
    | some "pending" => .ok false
    | some "allowed" | some "consumed" => .ok true
    | some "denied" => .error (fail 409 "review_denied")
    | some "expired" => .error (fail 410 "review_expired")
    | _ => .error (fail 502 "invalid review status")

def operationSnapshot (snapshot : Option (List (String × Json))) (capabilities : List Json) :
    Except Failure Json :=
  match snapshot with
  | some fields => .ok (.obj fields)
  | none =>
      if capabilities.any (fun c => c.asStr.isNone) then
        .error (fail 500 "invalid stored capabilities")
      else if capabilities = [] then .ok (.obj [])
      else .error (fail 400
        "legacy contact request has no operation snapshot; submit a new request")

/-- What one round reads outside the contact database: the three local contact lookups, the
peer's two answers, the owner's subject, the results of the two local access writes, and the
clock at the expiry check. -/
structure Answers where
  endpointName : String
  encodedName : String
  existing : Except Failure Json
  status : Except Failure (Nat × Json × String)
  business : Except Failure (Nat × Json × String)
  owner : Except Failure String
  recorded : Except Failure Unit
  current : Except Failure Json
  confirmed : Except Failure Json
  activated : Except Failure Unit
  expiryReading : Int

def existingContact : Except Failure Json → Except Failure (Option Json)
  | .ok c => .ok (some c)
  | .error (404, _) => .ok none
  | .error e => .error e

def blockedOrExpired (c : Json) : Bool :=
  (c.get "status").asStr == some "blocked" || (c.get "status").asStr == some "expired"

def boundTo (id : Int) (subject : Option String) (c : Json) : Bool :=
  (c.get "id").asI64 == some id && (c.get "subject_id").asStr == subject

structure Operation where
  method : String
  path : String
  deriving DecidableEq

def operation (a : Answers) (job : DeliveryJob) : Operation :=
  if job.status = .queued then ⟨"POST", "/std/contact"⟩
  else ⟨"GET", "/std/contact?name=" ++ a.encodedName⟩

/-- The checks before the business request, with the review gate. -/
def prepare (a : Answers) (job : DeliveryJob) : Except Failure (Option Json) := do
  doIf (job.status = .queued) do
    let _ ← operationSnapshot job.requestedAccess job.requestedCaps
    let _ ← operationSnapshot job.offeredAccess job.offeredCaps
  let existing ← existingContact a.existing
  failIf (∃ id ∈ job.contactId,
      existing.all (fun c => !boundTo id job.contactSubject c || blockedOrExpired c) = true)
    (fail 410 "local contact was removed, replaced or blocked")
  match job.review with
  | none => .ok existing
  | some review => do
      let expected := existing.bind (fun c => (c.get "subject_id").asStr)
      failIf (review.method ≠ (operation a job).method ∨ review.path ≠ (operation a job).path ∨
          expected.any (fun sid => sid != review.subject) = true)
        (fail 409 "review target or operation changed")
      let (code, result, _) ← a.status
      let allowed ← reviewProgress code result
      failIf (allowed = false) (fail 400 "need_review")
      .ok existing

structure Exchange where
  receipt : Json
  sid : String
  localId : Int
  localSubject : String

/-- The receipt that a status request stands for. -/
def asReceipt (job : DeliveryJob) (sid : String) (receipt : Json) : Json :=
  let receipt := ((receipt.set "application_id" (.str job.applicationId)).set "name"
    (.str job.target)).set "subject_id" (.str sid)
  let receipt := if (receipt.get "status").asStr = some "blocked" then
    receipt.set "status" (.str "revoked") else receipt
  if (receipt.get "status").asStr = some "transfered" then
    receipt.set "status" (.str "pending") else receipt

def answered (a : Answers) (job : DeliveryJob) (receipt : Json) (sid : String) :
    Except Failure Json :=
  if job.status = .queued then .ok receipt
  else do
    let subject ← a.owner
    failIf ((receipt.get "name").asStr ≠ some a.endpointName ∨
        (receipt.get "subject_id").asStr ≠ some subject)
      (fail 502 "remote contact state belongs to a different subject")
    .ok (asReceipt job sid receipt)

def identified (a : Answers) (job : DeliveryJob) (receipt : Json) (sid : String) :
    Except Failure Json := do
  let receipt ← answered a job receipt sid
  failIf ((receipt.get "application_id").asStr ≠ some job.applicationId ∨
      (receipt.get "name").asStr ≠ some job.target ∨ (receipt.get "subject_id").asStr ≠ some sid)
    (fail 502 "contact receipt identity does not match authenticated peer")
  .ok receipt

def settle (a : Answers) (job : DeliveryJob) (existing : Option Json) (receipt : Json)
    (sid : String) : Except Failure Exchange := do
  let receipt ← identified a job receipt sid
  let status := (receipt.get "status").asStr
  doIf (job.contactId = none ∧ existing.isNone = true ∧
      (status = some "pending" ∨ status = some "active")) a.recorded
  let current ← a.current
  failIf (∃ id ∈ job.contactId, boundTo id job.contactSubject current = false)
    (fail 410 "local contact changed during delivery")
  match (current.get "id").asI64 with
  | none => .error (fail 502 "missing contact ID")
  | some localId => do
      let localSubject ← string current "subject_id"
      .ok ⟨receipt, sid, localId, localSubject⟩

/-- The part of a round up to the binding write, with the review it stores afterwards. -/
def exchange (a : Answers) (job : DeliveryJob) : Option PendingReview × Except Failure Exchange :=
  match prepare a job with
  | .error e => (job.review, .error e)
  | .ok existing => match a.business with
    | .error e => (job.review, .error e)
    | .ok (code, receipt, sid) => match pendingReview code receipt with
      | .error e => (job.review, .error e)
      | .ok (some id) => (some ⟨id, sid, (operation a job).method, (operation a job).path⟩,
          .error (fail 400 "need_review"))
      | .ok none =>
          if code ≠ 200 ∧ code ≠ 201 then
            (job.review, .error (fail code "remote contact operation rejected"))
          else (none, settle a job existing receipt sid)

def confirm (a : Answers) (sid : String) : Except Failure Unit :=
  match a.confirmed with
  | .error (404, _) => .error (fail 410 "local contact was removed")
  | .error e => .error e
  | .ok c =>
      if (c.get "subject_id").asStr ≠ some sid ∨ blockedOrExpired c then
        .error (fail 409 "local contact blocks reconciliation")
      else if (c.get "status").asStr = some "pending" ∨ (c.get "status").asStr = some "transfered" then
        a.activated
      else .ok ()

def accepted (state : String) : Bool :=
  ["pending", "active", "denied", "expired", "revoked"].contains state

/-- The part of a round after the binding write. -/
def reconcile (a : Answers) (x : Exchange) : Except Failure Json := do
  let status := (x.receipt.get "status").asStr
  let expiry := (x.receipt.get "valid_before").asI64
  doIf (status = some "active") (confirm a x.sid)
  failIf (status = some "pending" ∧
      expiry.all (fun expires => decide (expires ≤ a.expiryReading)) = true)
    (fail 410 "remote contact request expired")
  let state ← string x.receipt "status"
  failIf (accepted state = false) (fail 502 "unknown contact status")
  failIf (expiry = none) (fail 502 "missing contact expiry")
  .ok x.receipt

def setReview (review : Option PendingReview) (r : OutboundContactRequest) : OutboundContactRequest :=
  { r with
    reviewId := review.map PendingReview.id
    reviewSubject := review.map PendingReview.subject
    reviewMethod := review.map PendingReview.method
    reviewPath := review.map PendingReview.path }

def accept (status : Status) (validBefore t₁ t₂ : Int) (r : OutboundContactRequest) :
    OutboundContactRequest :=
  { r with
    status
    remoteExpiredAfter := some validBefore
    expiredAfter := if status = .pending then min r.deliveryDeadline validBefore else r.expiredAfter
    lastCheckedAt := some t₁
    nextAttemptAt := t₂ + if status = .active then 30 else 3
    attemptCount := r.attemptCount + 1
    errorMessage := none
    leaseUntil := none
    updatedAt := t₁ }

def needReview (e : Failure) : Bool := e.2 == "need_review"

def final (e : Failure) : Bool := !needReview e && [400, 403, 404, 409, 410].contains e.1

def reject (e : Failure) (t₁ t₂ : Int) (r : OutboundContactRequest) : OutboundContactRequest :=
  { r with
    status := if final e then .failed else r.status
    attemptCount := r.attemptCount + if needReview e then 0 else 1
    errorMessage := some e.2
    nextAttemptAt := t₁ + if needReview e then 30 else 5
    leaseUntil := none
    lastCheckedAt := some t₂
    updatedAt := t₂ }

/-- The last transaction of `deliver`. A status text outside the `CHECK` list and a missing
expiry, which `reconcile` has excluded, count as a failed constraint. -/
def record (t : Table) (id : Nat) (lease : Int) (review : Option PendingReview)
    (outcome : Except Failure Json) (t₁ t₂ : Int) : Except Failure Table := do
  let t ← t.update (holds id lease) (setReview review)
  match outcome with
  | .ok receipt => do
      let text ← string receipt "status"
      match Status.parse text, (receipt.get "valid_before").asI64 with
      | some status, some validBefore =>
          t.update (holds id lease) (accept status validBefore t₁ t₂)
      | _, _ => .error constraintFailed
  | .error e => t.update (holds id lease) (reject e t₁ t₂)

/-- Everything a round has to say once its network part is over: the review and the outcome that
its last transaction stores. -/
def outcome (a : Answers) (job : DeliveryJob) : Option PendingReview × Except Failure Json :=
  let (review, x) := exchange a job
  (review, x.bind (reconcile a))

section

variable {t u : Table} {r : OutboundContactRequest} {j : DeliveryJob} {t₁ t₂ t₃ lease : Int}
  {id : Nat}

theorem live_of_claimable (h : claimable t₂ r = true) : r.status.live = true := by
  simp only [claimable, Bool.and_eq_true] at h
  exact h.1.1.1

theorem next_le_of_claimable (h : claimable t₂ r = true) : r.nextAttemptAt ≤ t₂ := by
  simp only [claimable, Bool.and_eq_true, decide_eq_true_eq] at h
  exact h.1.1.2

theorem lease_le_of_claimable (h : claimable t₂ r = true) (hl : r.leaseUntil = some lease) :
    lease ≤ t₂ := by
  simp only [claimable, Bool.and_eq_true, hl, Option.all_some, decide_eq_true_eq] at h
  exact h.2

theorem review_id {rev : Option PendingReview} (h : review r = .ok rev) :
    rev.map PendingReview.id = r.reviewId := by
  unfold review at h
  split at h
  · cases h; simp_all
  · rename_i id hid
    obtain ⟨subject, -, h⟩ := bind_eq_ok.mp h
    obtain ⟨method, -, h⟩ := bind_eq_ok.mp h
    obtain ⟨path, -, h⟩ := bind_eq_ok.mp h
    cases h
    rw [hid]
    rfl

theorem job_ok (h : job r = .ok j) :
    j.id = r.id ∧ j.status = r.status ∧ j.review.map PendingReview.id = r.reviewId := by
  obtain ⟨application, -, h⟩ := bind_eq_ok.mp h
  obtain ⟨rev, hr, h⟩ := bind_eq_ok.mp h
  cases h
  exact ⟨rfl, rfl, review_id hr⟩

/-- The two ways in which the claim commits: no row is due, or the first due row is leased. -/
theorem claim_ok {x : Option (DeliveryJob × Int)} (h : claim t t₁ t₂ t₃ = .ok (u, x)) :
    ∃ v, expireRequests t t₁ = .ok v ∧ (x = none ∧ u = v ∨ ∃ r k, r ∈ v.rows ∧
      claimable t₂ r = true ∧ job r = .ok k ∧ x = some (k, t₃ + 120) ∧
      v.update (fun q => q.id == k.id) (setLease (t₃ + 120)) = .ok u) := by
  obtain ⟨v, hv, h⟩ := bind_eq_ok.mp h
  refine ⟨v, hv, ?_⟩
  split at h
  · cases h
    exact .inl ⟨rfl, rfl⟩
  · rename_i r hfirst
    obtain ⟨k, hk, h⟩ := bind_eq_ok.mp h
    obtain ⟨w, hw, h⟩ := bind_eq_ok.mp h
    cases h
    obtain ⟨hmem, hcl⟩ := List.mem_filter.mp (first_mem hfirst)
    exact .inr ⟨r, k, hmem, hcl, hk, rfl, hw⟩

theorem claim_idle (h : claim t t₁ t₂ t₃ = .ok (u, none)) : expireRequests t t₁ = .ok u := by
  obtain ⟨v, hv, ⟨-, rfl⟩ | ⟨r, k, -, -, -, he, -⟩⟩ := claim_ok h
  · exact hv
  · cases he

theorem not_live_expire (now : Int) (r : OutboundContactRequest) :
    (expire now r).status.live = false := by
  simp only [expire]
  split <;> rfl

theorem claim_claims (h : claim t t₁ t₂ t₃ = .ok (u, some (j, lease))) :
    lease = t₃ + 120 ∧ ∃ r, t.row j.id = some r ∧ claimable t₂ r = true ∧ overdue t₁ r = false ∧
      job r = .ok j ∧ ∀ i, u.row i = (t.row i).map (fun q =>
        if overdue t₁ q then expire t₁ q else if q.id = j.id then setLease lease q else q) := by
  obtain ⟨v, hv, ⟨he, -⟩ | ⟨r, k, hmem, hcl, hj, he, hu⟩⟩ := claim_ok h
  · cases he
  · cases he
    have hk := (job_ok hj).1
    have hexp := expireRequests_row hv j.id
    rw [Table.row_eq_some.mpr ⟨hmem, hk.symm⟩] at hexp
    obtain ⟨q, hq, hqr⟩ := Option.map_eq_some_iff.mp hexp.symm
    have hq' : overdue t₁ q = false ∧ q = r := by
      split at hqr
      · have hl := live_of_claimable hcl
        rw [← hqr, not_live_expire] at hl
        cases hl
      · exact ⟨by simpa using ‹¬overdue t₁ q = true›, hqr⟩
    obtain ⟨ho, rfl⟩ := hq'
    refine ⟨rfl, q, hq, hcl, ho, hj, ?_⟩
    intro i
    rw [Table.update_row hu (fun _ => rfl), expireRequests_row hv, Option.map_map]
    cases hi : t.row i with
    | none => rfl
    | some p =>
        by_cases hp : overdue t₁ p = true
        · have hne : (expire t₁ p).id ≠ j.id := by
            intro he
            have hpi : i = j.id := (Table.row_id hi).symm.trans he
            rw [hpi, hq] at hi
            cases hi
            rw [ho] at hp
            cases hp
          simp [hp, hne]
        · simp [hp]

theorem claim_sequence {x : Option (DeliveryJob × Int)} (h : claim t t₁ t₂ t₃ = .ok (u, x)) :
    u.sequence = t.sequence := by
  obtain ⟨v, hv, ⟨-, rfl⟩ | ⟨r, k, -, -, -, -, hu⟩⟩ := claim_ok h
  · exact Table.update_sequence hv
  · rw [Table.update_sequence hu]
    exact Table.update_sequence hv

theorem bind_row {localId : Int} {localSubject : String}
    (h : bind t id lease localId localSubject = .ok u) (i : Nat) :
    u.row i = (t.row i).map (fun r => if holds id lease r && r.contactId.isNone
      then setContact localId localSubject r else r) :=
  Table.update_row h (fun _ => rfl) i

/-- What the last transaction of a round does to the row that still holds its lease. -/
inductive Settles : Except Failure Json → Int → Int →
    (OutboundContactRequest → OutboundContactRequest) → Prop
  | accepted {receipt text status validBefore t₁ t₂} : string receipt "status" = .ok text →
      Status.parse text = some status → (receipt.get "valid_before").asI64 = some validBefore →
      Settles (.ok receipt) t₁ t₂ (accept status validBefore t₁ t₂)
  | rejected {e t₁ t₂} : Settles (.error e) t₁ t₂ (reject e t₁ t₂)

theorem record_settles {rev : Option PendingReview} {o : Except Failure Json}
    (h : record t id lease rev o t₁ t₂ = .ok u) : ∃ f, Settles o t₁ t₂ f ∧
      ∃ v, t.update (holds id lease) (setReview rev) = .ok v ∧ v.update (holds id lease) f = .ok u := by
  obtain ⟨v, hv, h⟩ := bind_eq_ok.mp h
  cases o with
  | error e => exact ⟨_, .rejected, v, hv, h⟩
  | ok receipt =>
      obtain ⟨text, ht, h⟩ := bind_eq_ok.mp h
      split at h
      · rename_i status validBefore hs hb
        exact ⟨_, .accepted ht hs hb, v, hv, h⟩
      · cases h

section

variable {o : Except Failure Json} {f : OutboundContactRequest → OutboundContactRequest}

theorem Settles.id_eq (h : Settles o t₁ t₂ f) (r : OutboundContactRequest) : (f r).id = r.id := by
  cases h <;> rfl

theorem Settles.lease_eq (h : Settles o t₁ t₂ f) (r : OutboundContactRequest) :
    (f r).leaseUntil = none := by
  cases h <;> rfl

theorem Settles.target_eq (h : Settles o t₁ t₂ f) (r : OutboundContactRequest) :
    (f r).targetName = r.targetName := by
  cases h <;> rfl

theorem Settles.application_eq (h : Settles o t₁ t₂ f) (r : OutboundContactRequest) :
    (f r).applicationId = r.applicationId := by
  cases h <;> rfl

theorem Settles.next_gt (h : Settles o t₁ t₂ f) (r : OutboundContactRequest) :
    min t₁ t₂ < (f r).nextAttemptAt := by
  cases h with
  | accepted => simp only [accept]; split <;> omega
  | rejected => simp only [reject]; split <;> omega

theorem Settles.checks (h : Settles o t₁ t₂ f) {r : OutboundContactRequest} (hr : Checks r) :
    Checks (f r) := by
  cases h <;> exact hr

end

theorem record_row {rev : Option PendingReview} {o : Except Failure Json}
    (h : record t id lease rev o t₁ t₂ = .ok u) : ∃ f, Settles o t₁ t₂ f ∧
      ∀ i, u.row i = (t.row i).map (fun r => if holds id lease r then f (setReview rev r) else r) := by
  obtain ⟨f, hf, v, hv, hu⟩ := record_settles h
  refine ⟨f, hf, fun i => ?_⟩
  rw [Table.update_row hu hf.id_eq, Table.update_row hv (fun _ => rfl), Option.map_map]
  congr 1
  funext r
  by_cases hr : holds id lease r = true
  · have hr' : holds id lease (setReview rev r) = true := hr
    simp [hr, hr']
  · simp [hr]

theorem record_sequence {rev : Option PendingReview} {o : Except Failure Json}
    (h : record t id lease rev o t₁ t₂ = .ok u) : u.sequence = t.sequence := by
  obtain ⟨f, -, v, hv, hu⟩ := record_settles h
  rw [Table.update_sequence hu, Table.update_sequence hv]

end

end Pishoo.Delivery
