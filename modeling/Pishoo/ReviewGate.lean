import Pishoo.OutcomeRecord

namespace Pishoo.ReviewGate

open Outbound Delivery Dispatch Machine ContactSystem Result OutcomeRecord

/-- The arguments of one call of `remote_response`. -/
structure RemoteRequest where
  target : String
  method : String
  path : String
  body : Option Json
  expected : Option String

inductive Sent
  | status (request : RemoteRequest)
  | business (request : RemoteRequest)

def Sent.isBusiness : Sent → Bool
  | .business _ => true
  | .status _ => false

def statusQuery (job : DeliveryJob) (review : PendingReview) : RemoteRequest where
  target := job.target
  method := "GET"
  path := "/std/acl/status?id=" ++ toString review.id
  body := none
  expected := some review.subject

def contactBody (a : Answers) (job : DeliveryJob) (requests offers : Json) : Json :=
  .obj [("from", .str a.endpointName), ("to", .str job.target),
    ("application_id", .str job.applicationId), ("description", .str job.description),
    ("class", .str "Human"), ("requested_access", requests), ("offers", offers)]

def expected (existing : Option Json) : Option String :=
  existing.bind (fun c => (c.get "subject_id").asStr)

def businessRequest (a : Answers) (job : DeliveryJob) (requests offers : Json)
    (existing : Option Json) : RemoteRequest where
  target := job.target
  method := (operation a job).method
  path := (operation a job).path
  body := if job.status = .queued then some (contactBody a job requests offers) else none
  expected := (job.review.map PendingReview.subject).or (expected existing)

def snapshots (job : DeliveryJob) : Except Failure (Json × Json) :=
  if job.status = .queued then do
    let requests ← operationSnapshot job.requestedAccess job.requestedCaps
    let offers ← operationSnapshot job.offeredAccess job.offeredCaps
    .ok (requests, offers)
  else .ok (.obj [], .obj [])

def localContact (a : Answers) (job : DeliveryJob) : Except Failure (Option Json) := do
  let existing ← existingContact a.existing
  failIf (∃ id ∈ job.contactId,
      existing.all (fun c => !boundTo id job.contactSubject c || blockedOrExpired c) = true)
    (fail 410 "local contact was removed, replaced or blocked")
  .ok existing

/-- The review does not stand for the request that the round is about to send. -/
def Changed (a : Answers) (job : DeliveryJob) (existing : Option Json) (review : PendingReview) :
    Prop :=
  review.method ≠ (operation a job).method ∨ review.path ≠ (operation a job).path ∨
    (expected existing).any (fun sid => sid != review.subject) = true

instance (a : Answers) (job : DeliveryJob) (existing : Option Json) (review : PendingReview) :
    Decidable (Changed a job existing review) :=
  inferInstanceAs (Decidable (_ ∨ _ ∨ _))

/-- The remote requests of one round in their order, with the answer to the last one. -/
def sending (a : Answers) (job : DeliveryJob) : List Sent × Except Failure (Nat × Json × String) :=
  match snapshots job with
  | .error e => ([], .error e)
  | .ok (requests, offers) => match localContact a job with
    | .error e => ([], .error e)
    | .ok existing =>
        let send := .business (businessRequest a job requests offers existing)
        match job.review with
        | none => ([send], a.business)
        | some review =>
            if Changed a job existing review then
              ([], .error (fail 409 "review target or operation changed"))
            else
              let ask := .status (statusQuery job review)
              match a.status with
              | .error e => ([ask], .error e)
              | .ok (code, result, _) => match reviewProgress code result with
                | .error e => ([ask], .error e)
                | .ok false => ([ask], .error (fail 400 "need_review"))
                | .ok true => ([ask, send], a.business)

def requests (a : Answers) (job : DeliveryJob) : List Sent := (sending a job).1

section

variable {a : Answers} {j : DeliveryJob}

/-- What the stored review has let through. -/
structure Passed (a : Answers) (j : DeliveryJob) (existing : Option Json) (review : PendingReview) :
    Prop where
  granted : ∃ body sid, a.status = .ok (200, body, sid) ∧
    ((body.get "status").asStr = some "allowed" ∨ (body.get "status").asStr = some "consumed")
  method_eq : review.method = (operation a j).method
  path_eq : review.path = (operation a j).path
  subject_eq : ∀ sid ∈ expected existing, sid = review.subject

/-- The rest of a round after its business request. -/
def replied (a : Answers) (j : DeliveryJob) (existing : Option Json) :
    Option PendingReview × Except Failure Exchange :=
  match a.business with
  | .error e => (j.review, .error e)
  | .ok (code, receipt, sid) => match pendingReview code receipt with
    | .error e => (j.review, .error e)
    | .ok (some id) => (some ⟨id, sid, (operation a j).method, (operation a j).path⟩,
        .error (fail 400 "need_review"))
    | .ok none =>
        if code ≠ 200 ∧ code ≠ 201 then
          (j.review, .error (fail code "remote contact operation rejected"))
        else (none, settle a j existing receipt sid)

/-- The ways a round can take as far as the review is concerned. -/
inductive Course (a : Answers) (j : DeliveryJob) :
    List Sent → Option PendingReview × Except Failure Exchange → Prop
  | stopped (e) : Course a j [] (j.review, .error e)
  | unanswered (review e) : j.review = some review → a.status = .error e →
      Course a j [.status (statusQuery j review)] (j.review, .error e)
  | refused (review code body sid e) : j.review = some review → a.status = .ok (code, body, sid) →
      reviewProgress code body = .error e →
      Course a j [.status (statusQuery j review)] (j.review, .error e)
  | waiting (review code body sid) : j.review = some review → a.status = .ok (code, body, sid) →
      reviewProgress code body = .ok false →
      Course a j [.status (statusQuery j review)] (j.review, .error (fail 400 "need_review"))
  | direct (requests offers existing) : j.review = none →
      localContact a j = .ok existing → prepare a j = .ok existing →
      Course a j [.business (businessRequest a j requests offers existing)] (replied a j existing)
  | reviewed (review requests offers existing) : j.review = some review →
      localContact a j = .ok existing → prepare a j = .ok existing → Passed a j existing review →
      Course a j [.status (statusQuery j review),
        .business (businessRequest a j requests offers existing)] (replied a j existing)

theorem snapshots_doIf (j : DeliveryJob) : doIf (j.status = .queued) (do
    let _ ← operationSnapshot j.requestedAccess j.requestedCaps
    let _ ← operationSnapshot j.offeredAccess j.offeredCaps) = (snapshots j).map fun _ => () := by
  unfold doIf snapshots
  split
  · cases operationSnapshot j.requestedAccess j.requestedCaps with
    | error e => rfl
    | ok requests =>
        cases operationSnapshot j.offeredAccess j.offeredCaps with
        | error e => rfl
        | ok offers => rfl
  · rfl

theorem reviewProgress_allowed {code : Nat} {body : Json} (h : reviewProgress code body = .ok true) :
    code = 200 ∧
      ((body.get "status").asStr = some "allowed" ∨ (body.get "status").asStr = some "consumed") := by
  unfold reviewProgress at h
  repeat' split at h
  all_goals cases h
  · exact ⟨by omega, .inl ‹_›⟩
  · exact ⟨by omega, .inr ‹_›⟩

/-- The end of `prepare`. -/
def gate (a : Answers) (job : DeliveryJob) (existing : Option Json) : Except Failure (Option Json) :=
  match job.review with
  | none => .ok existing
  | some review => do
      failIf (Changed a job existing review) (fail 409 "review target or operation changed")
      let (code, result, _) ← a.status
      let allowed ← reviewProgress code result
      failIf (allowed = false) (fail 400 "need_review")
      .ok existing

theorem prepare_eq (a : Answers) (j : DeliveryJob) : prepare a j =
    ((snapshots j).map fun _ => ()) >>= fun _ => localContact a j >>= gate a j := by
  rw [← snapshots_doIf]
  unfold prepare localContact
  cases doIf (j.status = .queued) (do
    let _ ← operationSnapshot j.requestedAccess j.requestedCaps
    let _ ← operationSnapshot j.offeredAccess j.offeredCaps) with
  | error e => rfl
  | ok u =>
      cases existingContact a.existing with
      | error e => rfl
      | ok existing =>
          simp only [ok_bind]
          cases failIf (∃ id ∈ j.contactId, existing.all
              (fun c => !boundTo id j.contactSubject c || blockedOrExpired c) = true)
              (fail 410 "local contact was removed, replaced or blocked") with
          | error e => rfl
          | ok u => rfl

theorem exchange_eq (a : Answers) (j : DeliveryJob) : exchange a j = match prepare a j with
    | .error e => (j.review, .error e)
    | .ok existing => replied a j existing := by
  unfold exchange replied
  cases prepare a j with
  | error e => rfl
  | ok existing => rfl

theorem course (a : Answers) (j : DeliveryJob) : Course a j (requests a j) (exchange a j) := by
  have hp := prepare_eq a j
  rw [exchange_eq, requests, sending]
  cases hs : snapshots j with
  | error e =>
      rw [hs] at hp
      rw [show prepare a j = .error e from hp]
      exact .stopped e
  | ok s =>
      obtain ⟨requests, offers⟩ := s
      cases hl : localContact a j with
      | error e =>
          rw [hs, hl] at hp
          rw [show prepare a j = .error e from hp]
          exact .stopped e
      | ok existing =>
          rw [hs, hl] at hp
          have hgate : prepare a j = gate a j existing := hp
          unfold gate at hgate
          cases hr : j.review with
          | none =>
              rw [hr] at hgate
              have hok : prepare a j = .ok existing := hgate
              rw [hok]
              exact .direct requests offers existing hr hl hok
          | some review =>
              simp only [hr] at hgate ⊢
              by_cases hc : Changed a j existing review
              · rw [failIf, if_pos hc] at hgate
                rw [show prepare a j = .error _ from hgate, if_pos hc, ← hr]
                exact .stopped _
              · rw [failIf, if_neg hc, ok_bind] at hgate
                rw [if_neg hc]
                cases ha : a.status with
                | error e =>
                    rw [ha] at hgate
                    rw [show prepare a j = .error e from hgate, ← hr]
                    exact .unanswered review e hr ha
                | ok answer =>
                    obtain ⟨code, body, sid⟩ := answer
                    rw [ha, ok_bind] at hgate
                    cases hv : reviewProgress code body with
                    | error e =>
                        simp only [hv] at hgate ⊢
                        rw [show prepare a j = .error e from hgate, ← hr]
                        exact .refused review code body sid e hr ha hv
                    | ok allowed =>
                        simp only [hv] at hgate ⊢
                        cases allowed with
                        | false =>
                            rw [show prepare a j = .error (fail 400 "need_review") from hgate, ← hr]
                            exact .waiting review code body sid hr ha hv
                        | true =>
                            have hok : prepare a j = .ok existing := hgate
                            obtain ⟨hcode, hstatus⟩ := reviewProgress_allowed hv
                            rw [hok]
                            simp only [Changed, not_or, not_not] at hc
                            refine .reviewed review requests offers existing hr hl hok
                              ⟨⟨body, sid, hcode ▸ ha, hstatus⟩, hc.1, hc.2.1, ?_⟩
                            intro sid hsid
                            have hany := hc.2.2
                            rw [Option.mem_def.mp hsid] at hany
                            simpa using hany

/-- The peer has answered that it still waits for a review, and nothing else. -/
def LearnsPending (a : Answers) (j : DeliveryJob) : Prop :=
  (∃ q, .status q ∈ requests a j ∧ ∃ body sid, a.status = .ok (200, body, sid) ∧
    (body.get "status").asStr = some "pending") ∨
  ∃ q, .business q ∈ requests a j ∧ ∃ code body sid id, a.business = .ok (code, body, sid) ∧
    pendingReview code body = .ok (some id)

/-- The review is denied, expired or missing. -/
def Ended (a : Answers) (j : DeliveryJob) : Prop :=
  ∃ q, .status q ∈ requests a j ∧ ∃ code body sid, a.status = .ok (code, body, sid) ∧
    (code = 404 ∨ code = 200 ∧
      ((body.get "status").asStr = some "denied" ∨ (body.get "status").asStr = some "expired"))

/-- The answer to the business request, if the round has got as far. -/
def Answered (a : Answers) (j : DeliveryJob) (q : RemoteRequest) (code : Nat) (body : Json)
    (sid : String) : Prop :=
  .business q ∈ requests a j ∧ a.business = .ok (code, body, sid)

theorem outcome_snd (a : Answers) (j : DeliveryJob) :
    (outcome a j).2 = (exchange a j).2.bind (reconcile a) := rfl

theorem status_course {q : RemoteRequest} {code : Nat} {body : Json} {sid : String}
    (h : .status q ∈ requests a j) (ha : a.status = .ok (code, body, sid)) :
    (∀ e, reviewProgress code body = .error e → (exchange a j).2 = .error e) ∧
      (reviewProgress code body = .ok false → (exchange a j).2 = .error (fail 400 "need_review")) := by
  have hc := course a j
  generalize requests a j = sent at hc h
  generalize exchange a j = x at hc
  cases hc with
  | stopped => cases h
  | unanswered _ _ _ ha' => rw [ha] at ha'; cases ha'
  | refused _ _ _ _ _ _ ha' hr =>
      rw [ha] at ha'
      cases ha'
      rw [hr]
      exact ⟨fun e he => by cases he; rfl, nofun⟩
  | waiting _ _ _ _ _ ha' hr =>
      rw [ha] at ha'
      cases ha'
      rw [hr]
      exact ⟨nofun, fun _ => rfl⟩
  | direct => simp at h
  | reviewed _ _ _ _ _ _ _ hpassed =>
      obtain ⟨body', sid', ha', hs⟩ := hpassed.granted
      rw [ha] at ha'
      cases ha'
      have hr : reviewProgress 200 body = .ok true := by
        obtain hs | hs := hs <;> simp [reviewProgress, hs]
      rw [hr]
      exact ⟨nofun, nofun⟩

theorem business_course {q : RemoteRequest} (h : .business q ∈ requests a j) : ∃ existing,
    exchange a j = replied a j existing ∧ prepare a j = .ok existing ∧
      q.method = (operation a j).method ∧ q.path = (operation a j).path := by
  have hc := course a j
  generalize requests a j = sent at hc h
  generalize exchange a j = x at hc
  cases hc with
  | direct _ _ existing _ _ hok =>
      cases List.mem_singleton.mp h
      exact ⟨existing, rfl, hok, rfl, rfl⟩
  | reviewed _ _ _ existing _ _ hok =>
      obtain h | h := List.mem_cons.mp h
      · cases h
      · cases List.mem_singleton.mp h
        exact ⟨existing, rfl, hok, rfl, rfl⟩
  | _ => simp at h

theorem silent_course (h : ∀ q, .business q ∉ requests a j) :
    ∃ e, exchange a j = (j.review, .error e) := by
  have hc := course a j
  generalize requests a j = sent at hc h
  generalize exchange a j = x at hc
  cases hc with
  | direct _ _ _ _ _ _ => exact absurd List.mem_cons_self (h _)
  | reviewed => exact absurd (List.mem_cons_of_mem _ List.mem_cons_self) (h _)
  | _ => exact ⟨_, rfl⟩

theorem pendingReview_code {code : Nat} {body : Json} {id : Int}
    (h : pendingReview code body = .ok (some id)) : code ≠ 200 ∧ code ≠ 201 := by
  unfold pendingReview at h
  split at h
  · rename_i hcode
    omega
  · cases h

theorem pendingReview_accepted {code : Nat} (body : Json) (h : code = 200 ∨ code = 201) :
    pendingReview code body = .ok none := by
  unfold pendingReview
  rw [if_neg (by omega)]

theorem exchange_asked {q : RemoteRequest} {code : Nat} {body : Json} {sid : String} {id : Int}
    (h : Answered a j q code body sid) (hp : pendingReview code body = .ok (some id)) :
    exchange a j = (some ⟨id, sid, q.method, q.path⟩, .error (fail 400 "need_review")) := by
  obtain ⟨existing, hx, -, hmethod, hpath⟩ := business_course h.1
  rw [hx, hmethod, hpath]
  simp only [replied, h.2, hp]

theorem exchange_accepted {q : RemoteRequest} {code : Nat} {body : Json} {sid : String}
    (h : Answered a j q code body sid) (hcode : code = 200 ∨ code = 201) : ∃ existing,
    prepare a j = .ok existing ∧ exchange a j = (none, settle a j existing body sid) := by
  obtain ⟨existing, hx, hok, -⟩ := business_course h.1
  refine ⟨existing, hok, ?_⟩
  rw [hx]
  simp only [replied, h.2, pendingReview_accepted body hcode]
  rw [if_neg (by omega)]

theorem exchange_kept (h : ∀ q code body sid, Answered a j q code body sid →
    (∀ id, pendingReview code body ≠ .ok (some id)) ∧ code ≠ 200 ∧ code ≠ 201) :
    ∃ e, exchange a j = (j.review, .error e) := by
  by_cases hsent : ∃ q, .business q ∈ requests a j
  · obtain ⟨q, hq⟩ := hsent
    obtain ⟨existing, hx, -⟩ := business_course hq
    rw [hx, replied]
    cases ha : a.business with
    | error e => exact ⟨e, rfl⟩
    | ok answer =>
        obtain ⟨code, body, sid⟩ := answer
        obtain ⟨hnone, hcode⟩ := h q code body sid ⟨hq, ha⟩
        dsimp only
        cases hp : pendingReview code body with
        | error e => exact ⟨e, rfl⟩
        | ok found =>
            cases found with
            | none => exact ⟨_, if_pos hcode⟩
            | some id => exact absurd hp (hnone id)
  · exact silent_course fun q hq => hsent ⟨q, hq⟩

theorem learns_pending (h : LearnsPending a j) :
    (outcome a j).2 = .error (fail 400 "need_review") := by
  rw [outcome_snd]
  obtain ⟨q, hq, body, sid, ha, hs⟩ | ⟨q, hq, code, body, sid, id, ha, hp⟩ := h
  · rw [(status_course hq ha).2 (by simp [reviewProgress, hs])]
    rfl
  · rw [exchange_asked ⟨hq, ha⟩ hp]
    rfl

theorem ended_final (h : Ended a j) : ∃ e, (outcome a j).2 = .error e ∧ final e = true := by
  obtain ⟨q, hq, code, body, sid, ha, hs⟩ := h
  have hprogress : ∃ e, reviewProgress code body = .error e ∧ final e = true := by
    obtain rfl | ⟨rfl, hd | he⟩ := hs
    · exact ⟨fail 410 "review_expired", rfl, by decide⟩
    · exact ⟨fail 409 "review_denied", by simp [reviewProgress, hd], by decide⟩
    · exact ⟨fail 410 "review_expired", by simp [reviewProgress, he], by decide⟩
  obtain ⟨e, he, hfinal⟩ := hprogress
  refine ⟨e, ?_, hfinal⟩
  rw [outcome_snd, (status_course hq ha).1 e he]
  rfl

/-- The peer's accepted answer puts the request back to pending: every check of the round lets
it through. -/
def Recalls (a : Answers) (j : DeliveryJob) : Prop :=
  ∃ existing code body sid, prepare a j = .ok existing ∧ a.business = .ok (code, body, sid) ∧
    (code = 200 ∨ code = 201) ∧ (∃ x, settle a j existing body sid = .ok x) ∧
    ((body.get "status").asStr = some "pending" ∨
      j.status ≠ .queued ∧ (body.get "status").asStr = some "transfered") ∧
    ∃ expires, (body.get "valid_before").asI64 = some expires ∧ a.expiryReading < expires

theorem settle_receipt {existing : Option Json} {body : Json} {sid : String} {x : Exchange}
    (h : settle a j existing body sid = .ok x) : answered a j body sid = .ok x.receipt := by
  obtain ⟨receipt, hr, h⟩ := bind_eq_ok.mp h
  obtain ⟨receipt', hr', h'⟩ := bind_eq_ok.mp hr
  obtain ⟨_, -, h'⟩ := bind_eq_ok.mp h'
  cases h'
  obtain ⟨_, -, h⟩ := bind_eq_ok.mp h
  obtain ⟨_, -, h⟩ := bind_eq_ok.mp h
  obtain ⟨_, -, h⟩ := bind_eq_ok.mp h
  split at h
  · cases h
  · obtain ⟨_, -, h⟩ := bind_eq_ok.mp h
    cases h
    exact hr'

theorem set_obj (fields : List (String × Json)) (key : String) (x : Json) : ∃ fields',
    (Json.obj fields).set key x = .obj fields' ∧ (Json.obj fields').get key = x ∧
      ∀ other ≠ key, (Json.obj fields').get other = (Json.obj fields).get other :=
  ⟨_, rfl, Json.get_set_self fields key x, fun _ h => Json.get_set_ne fields x h⟩

theorem asReceipt_obj (j : DeliveryJob) (sid : String) (fields : List (String × Json)) :
    (((asReceipt j sid (.obj fields)).get "status").asStr = some "pending" ↔
      ((Json.obj fields).get "status").asStr = some "pending" ∨
        ((Json.obj fields).get "status").asStr = some "transfered") ∧
    (asReceipt j sid (.obj fields)).get "valid_before" = (Json.obj fields).get "valid_before" := by
  unfold asReceipt
  obtain ⟨f₁, h₁, -, hg₁⟩ := set_obj fields "application_id" (.str j.applicationId)
  obtain ⟨f₂, h₂, -, hg₂⟩ := set_obj f₁ "name" (.str j.target)
  obtain ⟨f₃, h₃, -, hg₃⟩ := set_obj f₂ "subject_id" (.str sid)
  obtain ⟨f₄, h₄, hs₄, hg₄⟩ := set_obj f₃ "status" (.str "revoked")
  obtain ⟨f₅, h₅, hs₅, hg₅⟩ := set_obj f₃ "status" (.str "pending")
  have hstatus : (Json.obj f₃).get "status" = (Json.obj fields).get "status" := by
    rw [hg₃ _ (by decide), hg₂ _ (by decide), hg₁ _ (by decide)]
  have hvalid : (Json.obj f₃).get "valid_before" = (Json.obj fields).get "valid_before" := by
    rw [hg₃ _ (by decide), hg₂ _ (by decide), hg₁ _ (by decide)]
  simp only [h₁, h₂, h₃, h₄, ← hstatus, ← hvalid]
  by_cases hb : ((Json.obj f₃).get "status").asStr = some "blocked"
  · have hrevoked : ((Json.obj f₄).get "status").asStr = some "revoked" := by rw [hs₄]; rfl
    simp [hb, hrevoked, hg₄]
  · simp only [if_neg hb]
    by_cases ht : ((Json.obj f₃).get "status").asStr = some "transfered"
    · have hpending : ((Json.obj f₅).get "status").asStr = some "pending" := by rw [hs₅]; rfl
      simp [h₅, hpending, hg₅, ht]
    · simp [ht]

theorem answered_ok {body receipt : Json} {sid : String} (h : answered a j body sid = .ok receipt) :
    ((receipt.get "status").asStr = some "pending" ↔ (body.get "status").asStr = some "pending" ∨
      j.status ≠ .queued ∧ (body.get "status").asStr = some "transfered") ∧
    receipt.get "valid_before" = body.get "valid_before" := by
  unfold answered at h
  split at h
  · rename_i hq
    cases h
    simp [hq]
  · rename_i hq
    obtain ⟨subject, -, h⟩ := bind_eq_ok.mp h
    obtain ⟨_, hname, h⟩ := bind_eq_ok.mp h
    cases h
    cases body with
    | obj fields => simpa [hq] using asReceipt_obj j sid fields
    | _ => simp [Json.get, Json.asStr] at hname

theorem reconcile_pending {x : Exchange} {receipt : Json} :
    (reconcile a x = .ok receipt ∧ (receipt.get "status").asStr = some "pending") ↔
      receipt = x.receipt ∧ (x.receipt.get "status").asStr = some "pending" ∧
        ∃ expires, (x.receipt.get "valid_before").asI64 = some expires ∧
          a.expiryReading < expires := by
  constructor
  · rintro ⟨h, hp⟩
    obtain ⟨_, -, h⟩ := bind_eq_ok.mp h
    obtain ⟨_, hexpiry, h⟩ := bind_eq_ok.mp h
    obtain ⟨_, -, h⟩ := bind_eq_ok.mp h
    obtain ⟨_, -, h⟩ := bind_eq_ok.mp h
    obtain ⟨_, hsome, h⟩ := bind_eq_ok.mp h
    cases h
    obtain ⟨expires, he⟩ := Option.ne_none_iff_exists'.mp (failIf_eq_ok.mp hsome)
    refine ⟨rfl, hp, expires, he, ?_⟩
    have hlate := failIf_eq_ok.mp hexpiry
    simpa [hp, he] using hlate
  · rintro ⟨rfl, hp, expires, he, hlt⟩
    refine ⟨?_, hp⟩
    simp [reconcile, string, accepted, hp, he, doIf, failIf, Int.not_le.mpr hlt]

theorem exchange_ok {x : Exchange} (h : (exchange a j).2 = .ok x) : ∃ existing code body sid,
    prepare a j = .ok existing ∧ a.business = .ok (code, body, sid) ∧ (code = 200 ∨ code = 201) ∧
      settle a j existing body sid = .ok x := by
  rw [exchange_eq] at h
  cases hok : prepare a j with
  | error e =>
      rw [hok] at h
      cases h
  | ok existing =>
      simp only [hok, replied] at h
      split at h
      · cases h
      · rename_i code body sid ha
        split at h
        · cases h
        · cases h
        · split at h
          · cases h
          · exact ⟨existing, code, body, sid, rfl, ha, by omega, h⟩

theorem recalls_iff : (∃ receipt, (outcome a j).2 = .ok receipt ∧
    (receipt.get "status").asStr = some "pending") ↔ Recalls a j := by
  constructor
  · rintro ⟨receipt, ho, hp⟩
    rw [outcome_snd] at ho
    obtain ⟨x, hx, hreconcile⟩ := bind_eq_ok.mp ho
    obtain ⟨existing, code, body, sid, hok, ha, hcode, hsettle⟩ := exchange_ok hx
    obtain ⟨hstatus, hvalid⟩ := answered_ok (settle_receipt hsettle)
    obtain ⟨-, hpending, expires, he, hlt⟩ := reconcile_pending.mp ⟨hreconcile, hp⟩
    exact ⟨existing, code, body, sid, hok, ha, hcode, ⟨x, hsettle⟩, hstatus.mp hpending, expires,
      hvalid ▸ he, hlt⟩
  · rintro ⟨existing, code, body, sid, hok, ha, hcode, ⟨x, hx⟩, hs, expires, he, hlt⟩
    obtain ⟨hstatus, hvalid⟩ := answered_ok (settle_receipt hx)
    have hexchange : exchange a j = (none, .ok x) := by
      rw [exchange_eq, hok]
      simp only [replied, ha, pendingReview_accepted body hcode, hx]
      rw [if_neg (by omega)]
    obtain ⟨hr, hp⟩ := reconcile_pending.mpr ⟨rfl, hstatus.mpr hs, expires, hvalid ▸ he, hlt⟩
    refine ⟨x.receipt, ?_, hp⟩
    rw [outcome_snd, hexchange]
    exact hr

theorem answered_of_ok {x : Exchange} (h : (exchange a j).2 = .ok x) : ∃ q code body sid,
    Answered a j q code body sid ∧ (code = 200 ∨ code = 201) := by
  obtain ⟨existing, code, body, sid, -, ha, hcode, -⟩ := exchange_ok h
  by_contra hnone
  obtain ⟨e, he⟩ := silent_course (a := a) (j := j)
    fun q hq => hnone ⟨q, code, body, sid, ⟨hq, ha⟩, hcode⟩
  rw [he] at h
  cases h

theorem review_setReview (x : Option PendingReview) (r : OutboundContactRequest) :
    review (setReview x r) = .ok x := by
  cases x with
  | none => rfl
  | some review => rfl

theorem review_settles {o : Except Failure Json} {t₁ t₂ : Int}
    {f : OutboundContactRequest → OutboundContactRequest} (h : Settles o t₁ t₂ f)
    (r : OutboundContactRequest) : review (f r) = review r := by
  cases h <;> rfl

theorem review_of_job {r : OutboundContactRequest} (h : job r = .ok j) : review r = .ok j.review := by
  obtain ⟨application, -, h⟩ := bind_eq_ok.mp h
  obtain ⟨rev, hr, h⟩ := bind_eq_ok.mp h
  cases h
  exact hr

theorem review_ne_none {r : OutboundContactRequest} (h : r.reviewId ≠ none) :
    review r ≠ .ok none := by
  intro hn
  have hid := review_id hn
  exact h hid.symm

/-- What holds of one round that has claimed the row `r₀` and whose last transaction turns the
row `r` into `r'`. -/
structure RoundGated (a : Answers) (j : DeliveryJob) (r₀ r r' : OutboundContactRequest) : Prop where
  gated : ∀ p, review r₀ = .ok (some p) → ∀ q, .business q ∈ requests a j →
    requests a j = [.status (statusQuery j p), .business q] ∧
      (∃ body sid, a.status = .ok (200, body, sid) ∧
        ((body.get "status").asStr = some "allowed" ∨
          (body.get "status").asStr = some "consumed")) ∧
      p.method = q.method ∧ p.path = q.path ∧
      ∀ c, existingContact a.existing = .ok (some c) →
        ∀ sid, (c.get "subject_id").asStr = some sid → sid = p.subject
  single : (requests a j).countP Sent.isBusiness ≤ 1
  pending : LearnsPending a j → r'.attemptCount = r.attemptCount ∧ r'.status = r.status
  ended : Ended a j → r'.status = .failed
  asked : ∀ q code body sid id, Answered a j q code body sid →
    pendingReview code body = .ok (some id) → review r' = .ok (some ⟨id, sid, q.method, q.path⟩)
  accepted : ∀ q code body sid, Answered a j q code body sid → code = 200 ∨ code = 201 →
    review r' = .ok none
  kept : (∀ q code body sid, Answered a j q code body sid →
    (∀ id, pendingReview code body ≠ .ok (some id)) ∧ code ≠ 200 ∧ code ≠ 201) →
      review r' = review r₀

theorem localContact_ok {existing : Option Json} (h : localContact a j = .ok existing) :
    existingContact a.existing = .ok existing := by
  obtain ⟨existing', he, h⟩ := bind_eq_ok.mp h
  obtain ⟨_, -, h⟩ := bind_eq_ok.mp h
  cases h
  exact he

theorem sent_gated {p : PendingReview} (hp : j.review = some p) {q : RemoteRequest}
    (hq : .business q ∈ requests a j) :
    requests a j = [.status (statusQuery j p), .business q] ∧
      (∃ body sid, a.status = .ok (200, body, sid) ∧
        ((body.get "status").asStr = some "allowed" ∨
          (body.get "status").asStr = some "consumed")) ∧
      p.method = q.method ∧ p.path = q.path ∧
      ∀ c, existingContact a.existing = .ok (some c) →
        ∀ sid, (c.get "subject_id").asStr = some sid → sid = p.subject := by
  obtain ⟨-, -, -, hmethod, hpath⟩ := business_course hq
  have hc := course a j
  generalize requests a j = sent at hc hq ⊢
  generalize exchange a j = x at hc
  cases hc with
  | direct _ _ _ hnone =>
      rw [hp] at hnone
      cases hnone
  | reviewed p' _ _ existing hp' hlocal _ hpassed =>
      rw [hp] at hp'
      cases hp'
      obtain hq | hq := List.mem_cons.mp hq
      · cases hq
      · cases List.mem_singleton.mp hq
        refine ⟨rfl, hpassed.granted, hpassed.method_eq, hpassed.path_eq, ?_⟩
        intro c hc sid hsid
        rw [localContact_ok hlocal] at hc
        cases hc
        exact hpassed.subject_eq sid hsid
  | _ => simp at hq

theorem countP_requests (a : Answers) (j : DeliveryJob) :
    (requests a j).countP Sent.isBusiness ≤ 1 := by
  have hc := course a j
  generalize requests a j = sent at hc ⊢
  generalize exchange a j = x at hc
  cases hc <;> simp [Sent.isBusiness]

end

section

variable {a : Answers} {j : DeliveryJob} {s s' : System} {r₀ r r' : OutboundContactRequest}
  {lease t₁ t₂ : Int} {k : Nat}

/-- Another request waits for the target of an active row that keeps a review. -/
def Blocked (s : System) (r : OutboundContactRequest) : Prop :=
  r.status = .active ∧ r.reviewId ≠ none ∧
    ∃ q ∈ s.table.rows, q.status.waiting = true ∧ q.targetName = r.targetName

theorem settled_gated {f : OutboundContactRequest → OutboundContactRequest}
    (hj : job r₀ = .ok j) (hf : Settles (outcome a j).2 t₁ t₂ f) :
    RoundGated a j r₀ r (f (setReview (outcome a j).1 r)) := by
  have hreview : review (f (setReview (outcome a j).1 r)) = .ok (exchange a j).1 := by
    rw [review_settles hf, review_setReview]
    rfl
  refine ⟨?_, countP_requests a j, ?_, ?_, ?_, ?_, ?_⟩
  · intro p hp q hq
    rw [review_of_job hj] at hp
    exact sent_gated (Except.ok.inj hp) hq
  · intro h
    rw [learns_pending h] at hf
    cases hf
    simp [reject, setReview, final, needReview, fail]
  · intro h
    obtain ⟨e, he, hfinal⟩ := ended_final h
    rw [he] at hf
    cases hf
    simp [reject, hfinal]
  · intro q code body sid id h hp
    rw [hreview, exchange_asked h hp]
  · intro q code body sid h hcode
    obtain ⟨existing, -, hx⟩ := exchange_accepted h hcode
    rw [hreview, hx]
  · intro h
    obtain ⟨e, he⟩ := exchange_kept h
    rw [hreview, he, review_of_job hj]

theorem unwritten_gated (hj : job r₀ = .ok j) (hrecalls : Recalls a j) (hr : review r = .ok none) :
    RoundGated a j r₀ r r := by
  obtain ⟨receipt, ho, -⟩ := recalls_iff.mpr hrecalls
  obtain ⟨x, hx, -⟩ := bind_eq_ok.mp (outcome_snd a j ▸ ho)
  obtain ⟨q, code, body, sid, hanswered, hcode⟩ := answered_of_ok hx
  refine ⟨?_, countP_requests a j, ?_, ?_, ?_, ?_, ?_⟩
  · intro p hp q hq
    rw [review_of_job hj] at hp
    exact sent_gated (Except.ok.inj hp) hq
  · exact fun _ => ⟨rfl, rfl⟩
  · intro h
    obtain ⟨e, he, -⟩ := ended_final h
    rw [ho] at he
    cases he
  · intro q code body sid id h hp
    rw [exchange_asked h hp] at hx
    cases hx
  · exact fun _ _ _ _ _ _ => hr
  · intro h
    obtain ⟨-, hne⟩ := h q code body sid hanswered
    omega

theorem blocked_violates (hrecalls : Recalls a j) (hr : r.reviewId ≠ none) :
    ¬RoundGated a j r₀ r r := by
  intro h
  obtain ⟨receipt, ho, -⟩ := recalls_iff.mpr hrecalls
  obtain ⟨x, hx, -⟩ := bind_eq_ok.mp (outcome_snd a j ▸ ho)
  obtain ⟨q, code, body, sid, hanswered, hcode⟩ := answered_of_ok hx
  exact review_ne_none hr (h.accepted q code body sid hanswered hcode)

/-- The last transaction of a round writes the row that holds its lease, or fails as a whole. -/
theorem finish_row {clock : Int} {es : List Event} (h : Trace step Free (init clock) es s)
    (hk : s.rounds[k]? = some ⟨j, lease, .exchanged a⟩) (hr : s.table.row j.id = some r)
    (hl : r.leaseUntil = some lease) (hfinish : step s (.finish k t₁ t₂) = some s')
    (hr' : s'.table.row j.id = some r') :
    (¬Reenters s j lease (outcome a j).2 ∧ ∃ f, Settles (outcome a j).2 t₁ t₂ f ∧
      r' = f (setReview (outcome a j).1 r)) ∨ Reenters s j lease (outcome a j).2 ∧ r' = r := by
  have hcommits := record_commits_iff h hk t₁ t₂
  rw [step, hk] at hfinish
  cases hfinish
  cases hrecord : record s.table j.id lease (outcome a j).1 (outcome a j).2 t₁ t₂ with
  | error e =>
      simp only [hrecord, committed, hr, Option.some.injEq] at hr'
      refine .inr ⟨?_, hr'.symm⟩
      by_contra hnot
      obtain ⟨u, hu, -⟩ := hcommits.mpr hnot
      rw [hrecord] at hu
      cases hu
  | ok u =>
      simp only [hrecord, committed] at hr'
      obtain ⟨f, hf, hrow⟩ := record_row hrecord
      have hholds : holds j.id lease r = true := by simp [holds, Table.row_id hr, hl]
      rw [hrow, hr, Option.map_some, if_pos hholds] at hr'
      cases hr'
      refine .inl ⟨hcommits.mp ⟨u, hrecord, ?_⟩, f, hf, rfl⟩
      intro q hq
      rw [hrow, hr, Option.map_some, if_pos hholds] at hq
      cases hq
      rw [hf.lease_eq]
      exact (Option.some_ne_none _).symm

theorem reenters_iff (hr : s.table.row j.id = some r) (hl : r.leaseUntil = some lease) :
    Reenters s j lease (outcome a j).2 ∧ r.reviewId ≠ none ↔ Recalls a j ∧ Blocked s r := by
  rw [Reenters, recalls_iff]
  constructor
  · rintro ⟨⟨hrecalls, r₁, q, hr₁, -, hactive, hq, hw, ht⟩, hreview⟩
    rw [hr] at hr₁
    cases hr₁
    exact ⟨hrecalls, hactive, hreview, q, hq, hw, ht⟩
  · rintro ⟨hrecalls, hactive, hreview, q, hq, hw, ht⟩
    exact ⟨⟨hrecalls, r, q, hr, hl, hactive, hq, hw, ht⟩, hreview⟩

theorem round_gated {clock : Int} {es : List Event} (h : Trace step Free (init clock) es s)
    (hj : job r₀ = .ok j) (hk : s.rounds[k]? = some ⟨j, lease, .exchanged a⟩)
    (hr : s.table.row j.id = some r) (hl : r.leaseUntil = some lease)
    (hfinish : step s (.finish k t₁ t₂) = some s') (hr' : s'.table.row j.id = some r') :
    RoundGated a j r₀ r r' ↔ ¬(Recalls a j ∧ Blocked s r) := by
  have hiff := reenters_iff (a := a) hr hl
  obtain ⟨hnot, f, hf, rfl⟩ | ⟨hreenters, rfl⟩ := finish_row h hk hr hl hfinish hr'
  · exact iff_of_true (settled_gated hj hf) fun hb => hnot (hiff.mpr hb).1
  · constructor
    · rintro hgated ⟨hrecalls, hblocked⟩
      exact blocked_violates hrecalls hblocked.2.1 hgated
    · intro hb
      refine unwritten_gated hj (recalls_iff.mp hreenters.1) ?_
      have hnone : r'.reviewId = none := by
        by_contra hne
        exact hb (hiff.mp ⟨hreenters, hne⟩)
      simp [review, hnone]

end

/-- A round of any run, from the claim of its row to its last transaction. -/
theorem deliver_gated_iff {clock : Int} {es es' : List Event} {s s₁ s₂ s₃ : System}
    {t₁ t₂ t₃ t₄ t₅ lease : Int} {round : Round} {a : Answers} {j : DeliveryJob}
    {r₀ r r' : OutboundContactRequest} (h : Trace step Free (init clock) es s)
    (hclaim : step s (.claim t₁ t₂ t₃) = some s₁) (hround : s₁.rounds = s.rounds ++ [round])
    (hr₀ : s.table.row round.job.id = some r₀) (h' : Trace step Free s₁ es' s₂)
    (hk : s₂.rounds[s.rounds.length]? = some ⟨j, lease, .exchanged a⟩)
    (hr : s₂.table.row j.id = some r) (hl : r.leaseUntil = some lease)
    (hfinish : step s₂ (.finish s.rounds.length t₄ t₅) = some s₃)
    (hr' : s₃.table.row j.id = some r') :
    RoundGated a j r₀ r r' ↔ ¬(Recalls a j ∧ Blocked s₂ r) := by
  obtain ⟨-, -, q, hq, -, hj, -⟩ := step_claim hclaim hround
  rw [hr₀] at hq
  cases hq
  have hkept : s₁.rounds[s.rounds.length]? = some round := by simp [hround]
  obtain ⟨stage, hstage⟩ := round_kept_run h' hkept
  rw [hk] at hstage
  cases hstage
  exact round_gated ((h.snoc trivial hclaim).append h') hj hk hr hl hfinish hr'

def asks : Answers := { accepts with
  business := .ok (400, .obj [("error", .str "need_review"), ("review_id", .int 7)], "sb") }

def grants : Answers := { transfers with
  status := .ok (200, .obj [("status", .str "allowed")], "sb") }

/-- The contact becomes active, and the next status request is answered with a review. -/
def reviewRun : List Event :=
  [.post (request "b" 'x' 1000) 0, .claim 0 0 0, .bind 0 accepts, .finish 0 1 1, .claim 31 31 31,
    .bind 1 asks, .finish 1 32 32]

/-- A second request for the contact may have been posted when the reviewed status request is
answered with `transfered`. -/
def grantRun (second : Bool) : List Event :=
  if second then reviewRun ++ [.post (request "b" 'y' 2000) 63] else reviewRun

theorem last_round (second : Bool) : ∃ s s₁ s₂ s₃ round j lease r₀ r r',
    run step Free (init 0) (grantRun second) = some s ∧ step s (.claim 63 63 63) = some s₁ ∧
      s₁.rounds = s.rounds ++ [round] ∧ s.table.row round.job.id = some r₀ ∧
      run step Free s₁ [.bind 2 grants] = some s₂ ∧
      s₂.rounds[s.rounds.length]? = some ⟨j, lease, .exchanged grants⟩ ∧
      s₂.table.row j.id = some r ∧ r.leaseUntil = some lease ∧
      (∃ x, (exchange grants j).2 = .ok x) ∧
      step s₂ (.finish s.rounds.length 64 64) = some s₃ ∧ s₃.table.row j.id = some r' ∧
      if second then r'.reviewId = some 7
      else s₂.table.rows.all (fun q => !q.status.waiting) = true := by
  cases second with
  | false => exact ⟨_, _, _, _, _, _, _, _, _, _, rfl, rfl, rfl, rfl, rfl, rfl, rfl, rfl, ⟨_, rfl⟩,
      rfl, rfl, by decide⟩
  | true => exact ⟨_, _, _, _, _, _, _, _, _, _, rfl, rfl, rfl, rfl, rfl, rfl, rfl, rfl, ⟨_, rfl⟩,
      rfl, rfl, by decide⟩

theorem review_outlives_answer : ¬∀ (clock : Int) (es es' : List Event) (s s₁ s₂ s₃ : System)
    (t₁ t₂ t₃ t₄ t₅ lease : Int) (round : Round) (a : Answers) (j : DeliveryJob)
    (r₀ r r' : OutboundContactRequest), Trace step Free (init clock) es s →
      step s (.claim t₁ t₂ t₃) = some s₁ → s₁.rounds = s.rounds ++ [round] →
      s.table.row round.job.id = some r₀ → Trace step Free s₁ es' s₂ →
      s₂.rounds[s.rounds.length]? = some ⟨j, lease, .exchanged a⟩ →
      s₂.table.row j.id = some r → r.leaseUntil = some lease →
      step s₂ (.finish s.rounds.length t₄ t₅) = some s₃ → s₃.table.row j.id = some r' →
        RoundGated a j r₀ r r' := by
  intro h
  obtain ⟨s, s₁, s₂, s₃, round, j, lease, r₀, r, r', hs, hclaim, hround, hr₀, hbind, hk, hr, hl,
    ⟨x, hx⟩, hfinish, hr', hkept⟩ := last_round true
  have hgated := h 0 _ _ s s₁ s₂ s₃ 63 63 63 64 64 lease round grants j r₀ r r' (trace_of_run hs)
    hclaim hround hr₀ (trace_of_run hbind) hk hr hl hfinish hr'
  obtain ⟨q, code, body, sid, hanswered, hcode⟩ := answered_of_ok hx
  refine review_ne_none ?_ (hgated.accepted q code body sid hanswered hcode)
  rw [hkept]
  nofun

theorem deliver_gated_once : ∃ s s₁ s₂ s₃ round j lease r₀ r r',
    run step Free (init 0) (grantRun false) = some s ∧ step s (.claim 63 63 63) = some s₁ ∧
      s₁.rounds = s.rounds ++ [round] ∧ s.table.row round.job.id = some r₀ ∧
      run step Free s₁ [.bind 2 grants] = some s₂ ∧
      s₂.rounds[s.rounds.length]? = some ⟨j, lease, .exchanged grants⟩ ∧
      s₂.table.row j.id = some r ∧ step s₂ (.finish s.rounds.length 64 64) = some s₃ ∧
      s₃.table.row j.id = some r' ∧ RoundGated grants j r₀ r r' := by
  obtain ⟨s, s₁, s₂, s₃, round, j, lease, r₀, r, r', hs, hclaim, hround, hr₀, hbind, hk, hr, hl, -,
    hfinish, hr', hidle⟩ := last_round false
  refine ⟨s, s₁, s₂, s₃, round, j, lease, r₀, r, r', hs, hclaim, hround, hr₀, hbind, hk, hr, hfinish,
    hr', ?_⟩
  refine (deliver_gated_iff (trace_of_run hs) hclaim hround hr₀ (trace_of_run hbind) hk hr hl hfinish
    hr').mpr ?_
  rintro ⟨-, -, -, q, hq, hwaiting, -⟩
  have hnot := List.all_eq_true.mp hidle q hq
  rw [hwaiting] at hnot
  cases hnot

end Pishoo.ReviewGate
