import Pishoo.ContactSystem

namespace Pishoo.OutboundRows

open Outbound Delivery Dispatch ContactSystem Machine

/-- What the owner has asked for stays as it was inserted. -/
structure Fixed (r r' : OutboundContactRequest) : Prop where
  applicationId : r'.applicationId = r.applicationId
  targetName : r'.targetName = r.targetName
  requestedAccess : r'.requestedAccess = r.requestedAccess
  offers : r'.offers = r.offers
  createdAt : r'.createdAt = r.createdAt
  deliveryDeadline : r'.deliveryDeadline = r.deliveryDeadline

/-- The binding is only written while there is none. -/
def BoundOnce (r r' : OutboundContactRequest) : Prop :=
  (r'.contactId = r.contactId ∧ r'.contactSubject = r.contactSubject) ∨
    r.contactId = none ∧ r'.contactId ≠ none

section

variable {s s' : System} {e : Event} {i : Nat} {r r' r'' : OutboundContactRequest}
  {o : Except Failure Json} {t₁ t₂ : Int} {f : OutboundContactRequest → OutboundContactRequest}

theorem Fixed.refl : Fixed r r := ⟨rfl, rfl, rfl, rfl, rfl, rfl⟩

theorem Fixed.trans (h : Fixed r r') (h' : Fixed r' r'') : Fixed r r'' :=
  ⟨h'.applicationId.trans h.applicationId, h'.targetName.trans h.targetName,
    h'.requestedAccess.trans h.requestedAccess, h'.offers.trans h.offers,
    h'.createdAt.trans h.createdAt, h'.deliveryDeadline.trans h.deliveryDeadline⟩

theorem BoundOnce.refl : BoundOnce r r := .inl ⟨rfl, rfl⟩

theorem BoundOnce.trans (h : BoundOnce r r') (h' : BoundOnce r' r'') : BoundOnce r r'' := by
  obtain ⟨hid, hsubject⟩ | ⟨hnone, hsome⟩ := h
  · obtain ⟨hid', hsubject'⟩ | ⟨hnone', hsome'⟩ := h'
    · exact .inl ⟨hid'.trans hid, hsubject'.trans hsubject⟩
    · exact .inr ⟨hid ▸ hnone', hsome'⟩
  · obtain ⟨hid', -⟩ | ⟨hnone', -⟩ := h'
    · exact .inr ⟨hnone, hid' ▸ hsome⟩
    · exact absurd hnone' hsome

theorem settles_fixed (h : Settles o t₁ t₂ f) (r : OutboundContactRequest) : Fixed r (f r) := by
  cases h <;> exact ⟨rfl, rfl, rfl, rfl, rfl, rfl⟩

theorem settles_bound (h : Settles o t₁ t₂ f) (r : OutboundContactRequest) :
    (f r).contactId = r.contactId ∧ (f r).contactSubject = r.contactSubject := by
  cases h <;> exact ⟨rfl, rfl⟩

theorem review_fixed (review : Option PendingReview) : Fixed r (setReview review r) :=
  ⟨rfl, rfl, rfl, rfl, rfl, rfl⟩

theorem change_fixed (h : Change s e r r') : Fixed r r' := by
  cases h with
  | settled _ _ hf => exact (review_fixed _).trans (settles_fixed hf _)
  | _ => exact ⟨rfl, rfl, rfl, rfl, rfl, rfl⟩

theorem step_bind {k : Nat} {a : Answers} (h : step s (.bind k a) = some s')
    (hr : s.table.row i = some r) (hr' : s'.table.row i = some r') : BoundOnce r r' := by
  have hkept (hrow : s.table.row i = some r') : BoundOnce r r' := by
    rw [hr] at hrow
    cases hrow
    exact .refl
  simp only [step] at h
  split at h
  · rename_i job lease hk
    cases h
    cases hx : (exchange a job).2 with
    | error e =>
        rw [hx] at hr'
        exact hkept hr'
    | ok x =>
        rw [hx] at hr'
        revert hr'
        refine row_committed (P := fun o => o = some r' → BoundOnce r r') hkept fun u hu hr' => ?_
        rw [bind_row hu, hr, Option.map_some] at hr'
        cases hr'
        split
        · rename_i hp
          rw [Bool.and_eq_true, Option.isNone_iff_eq_none] at hp
          have hnone : r.contactId = none := hp.2
          exact .inr ⟨hnone, by simp [setContact]⟩
        · exact .refl
  · cases h

theorem step_bound (h : step s e = some s') (hr : s.table.row i = some r)
    (hr' : s'.table.row i = some r') : BoundOnce r r' := by
  obtain ⟨q, hq, hchange⟩ := step_row h hr
  rw [hr'] at hq
  cases hq
  cases hchange with
  | bound => exact step_bind h hr hr'
  | settled _ _ hf => exact .inl (settles_bound hf _)
  | _ => exact .inl ⟨rfl, rfl⟩

theorem settles_deadline (h : Settles o t₁ t₂ f) (hr : r.expiredAfter ≤ r.deliveryDeadline) :
    (f r).expiredAfter ≤ (f r).deliveryDeadline := by
  cases h with
  | rejected => exact hr
  | accepted =>
      simp only [accept]
      split
      · exact Int.min_le_left _ _
      · exact hr

theorem change_deadline (h : Change s e r r') (hr : r.expiredAfter ≤ r.deliveryDeadline) :
    r'.expiredAfter ≤ r'.deliveryDeadline := by
  cases h with
  | settled _ _ hf => exact settles_deadline hf hr
  | _ => exact hr

/-- No row outlives the deadline of its owner. -/
def Limited (s : System) : Prop :=
  ∀ i r, s.table.row i = some r → r.expiredAfter ≤ r.deliveryDeadline

theorem Limited.step (hl : Limited s) (h : ContactSystem.step s e = some s') : Limited s' := by
  intro i r' hr'
  obtain ⟨r, hr, hchange⟩ | ⟨-, d, t, -, rfl⟩ := step_row_inv h hr'
  · exact change_deadline hchange (hl i r hr)
  · exact Int.le_refl d.validBefore

theorem limited_of_trace {clock : Int} {es : List Event} (h : Trace step Free (init clock) es s) :
    Limited s :=
  h.invariant (fun _ _ hr => nomatch hr) fun _ _ _ hl _ hs => hl.step hs

theorem kept_of_trace {es : List Event} (h : Trace step Free s es s')
    (hr : s.table.row i = some r) :
    ∃ r', s'.table.row i = some r' ∧ Fixed r r' ∧ BoundOnce r r' := by
  refine h.invariant (I := fun t => ∃ r', t.table.row i = some r' ∧ Fixed r r' ∧ BoundOnce r r')
    ⟨r, hr, .refl, .refl⟩ ?_
  rintro t e u ⟨q, hq, hfixed, hbound⟩ - hstep
  obtain ⟨q', hq', hchange⟩ := step_row hstep hq
  exact ⟨q', hq', hfixed.trans (change_fixed hchange), hbound.trans (step_bound hstep hq hq')⟩

theorem overdue_of_waiting (hl : r.expiredAfter ≤ r.deliveryDeadline) {t : Int}
    (ht : r.deliveryDeadline ≤ t) (hw : r.status.waiting = true) : overdue t r = true := by
  rw [overdue, hw, Bool.true_and, decide_eq_true_eq]
  exact Int.le_trans hl ht

theorem claimable_deadline (hl : r.expiredAfter ≤ r.deliveryDeadline) {t : Int}
    (hc : claimable t r = true) (hw : r.status.waiting = true) : t < r.deliveryDeadline := by
  simp only [claimable, Bool.and_eq_true, Bool.or_eq_true, decide_eq_true_eq] at hc
  obtain ⟨⟨-, hactive | hlimit⟩, -⟩ := hc
  · rw [hactive] at hw
    cases hw
  · exact Int.lt_of_lt_of_le hlimit hl

/-- After an expiry at or after the deadline the row does not wait any more. -/
theorem expired_at_deadline (hl : Limited s) {t : Int} (h : step s (.expire t) = some s')
    (hr : s.table.row i = some r) (ht : r.deliveryDeadline ≤ t) (hr' : s'.table.row i = some r') :
    r'.status.waiting = false := by
  obtain ⟨u, hu⟩ := expireRequests_ok s.table t
  cases h
  rw [hu] at hr'
  have hrow := expireRequests_row hu i
  rw [show u.row i = some r' from hr', hr, Option.map_some] at hrow
  cases hrow
  split
  · simp only [expire]
    split <;> rfl
  · rename_i hover
    by_contra hw
    exact hover (overdue_of_waiting (hl i r hr) ht (by simpa using hw))

end

/-- The rows of the outbound requests in every reachable state, whatever the peers answer. -/
theorem outbound_rows {clock : Int} {es : List Event} {s : System}
    (h : Trace step Free (init clock) es s) :
    (∀ i r, s.table.row i = some r → r.expiredAfter ≤ r.deliveryDeadline) ∧
    (∀ t₁ t₂ t₃ s' round r, step s (.claim t₁ t₂ t₃) = some s' →
      s'.rounds = s.rounds ++ [round] → s.table.row round.job.id = some r →
        r.status.waiting = true → t₂ < r.deliveryDeadline) ∧
    (∀ es' s' i r, Trace step Free s es' s' → s.table.row i = some r →
      ∃ r', s'.table.row i = some r' ∧ Fixed r r' ∧ BoundOnce r r') ∧
    (∀ i j a b, s.table.row i = some a → s.table.row j = some b → a.status.waiting = true →
      b.status.waiting = true → a.targetName = b.targetName → i = j) ∧
    (∀ k t₁ t₂ s' i r r', step s (.finish k t₁ t₂) = some s' → s.table.row i = some r →
      s'.table.row i = some r' → r'.expiredAfter ≤ r.deliveryDeadline) ∧
    ∀ t s' i r r', step s (.expire t) = some s' → s.table.row i = some r →
      r.deliveryDeadline ≤ t → s'.table.row i = some r' → r'.status.waiting = false := by
  have hl := limited_of_trace h
  refine ⟨hl, ?_, ?_, ?_, ?_, ?_⟩
  · intro t₁ t₂ t₃ s' round r hstep hround hr hw
    obtain ⟨-, -, q, hq, hc, -⟩ := step_claim hstep hround
    rw [hr] at hq
    cases hq
    exact claimable_deadline (hl _ r hr) hc hw
  · exact fun es' s' i r htrace hr => kept_of_trace htrace hr
  · intro i j a b ha hb hwa hwb heq
    by_contra hne
    exact Table.waiting_target_ne ha hb hwa hwb hne heq
  · intro k t₁ t₂ s' i r r' hstep hr hr'
    obtain ⟨q, hq, hchange⟩ := step_row hstep hr
    rw [hr'] at hq
    cases hq
    rw [← (change_fixed hchange).deliveryDeadline]
    exact change_deadline hchange (hl i r hr)
  · exact fun t s' i r r' hstep hr ht hr' => expired_at_deadline hl hstep hr ht hr'

def contactOfPeer : Json :=
  .obj [("id", .int 1), ("subject_id", .str "sb"), ("status", .str "pending")]

/-- The peer accepts the request and gives it more time than the owner. -/
def generous : Answers := { unreachable with
  existing := .ok contactOfPeer
  current := .ok contactOfPeer
  business := .ok (200, .obj [("application_id", .str (application 'x')), ("name", .str "b"),
    ("subject_id", .str "sb"), ("status", .str "pending"), ("valid_before", .int 5000)], "sb") }

theorem outbound_rows_generous : ∃ s s' r r',
    run step Free (init 0) [.post (request "b" 'x' 1000) 0, .claim 0 0 0, .bind 0 generous] = some s ∧
      step s (.finish 0 1 1) = some s' ∧ s.table.row 1 = some r ∧ s'.table.row 1 = some r' ∧
      r'.status = .pending ∧ r'.remoteExpiredAfter = some 5000 ∧ r.deliveryDeadline = 1000 ∧
      r'.expiredAfter ≤ r.deliveryDeadline := by
  obtain ⟨s, hs⟩ : ∃ s, run step Free (init 0)
      [.post (request "b" 'x' 1000) 0, .claim 0 0 0, .bind 0 generous] = some s :=
    Option.isSome_iff_exists.mp (by decide)
  obtain ⟨s', hs'⟩ : ∃ s', step s (.finish 0 1 1) = some s' := by
    cases hs
    exact ⟨_, rfl⟩
  obtain ⟨r, hr⟩ : ∃ r, s.table.row 1 = some r := by
    cases hs
    exact ⟨_, rfl⟩
  obtain ⟨r', hr'⟩ : ∃ r', s'.table.row 1 = some r' := by
    cases hs
    cases hs'
    exact ⟨_, rfl⟩
  obtain ⟨-, -, -, -, hlimit, -⟩ := outbound_rows (trace_of_run hs)
  refine ⟨s, s', r, r', hs, hs', hr, hr', ?_, ?_, ?_, hlimit 0 1 1 s' 1 r r' hs' hr hr'⟩
  all_goals
    cases hs
    cases hs'
    cases hr
    cases hr'
    rfl

end Pishoo.OutboundRows
