import Pishoo.Delivery

namespace Pishoo.Dispatch

open Outbound Result

/-- The values that `POST /std/contact` binds to its `INSERT`. -/
structure Draft where
  targetName : String
  contactId : Option Int
  contactSubject : Option String
  description : String
  requestedCapabilities : List Json
  offeredCapabilities : List Json
  requestedAccess : List (String × Json)
  offers : List (String × Json)
  applicationId : String
  validBefore : Int

def posted (d : Draft) (time : Int) : OutboundContactRequest where
  id := 0
  targetName := d.targetName
  contactId := d.contactId
  contactSubject := d.contactSubject
  description := d.description
  requestedCapabilities := d.requestedCapabilities
  offeredCapabilities := d.offeredCapabilities
  requestedAccess := some d.requestedAccess
  offers := some d.offers
  applicationId := some d.applicationId
  status := .queued
  expiredAfter := d.validBefore
  deliveryDeadline := d.validBefore
  remoteExpiredAfter := none
  nextAttemptAt := time
  attemptCount := 0
  leaseUntil := none
  reviewId := none
  reviewSubject := none
  reviewMethod := none
  reviewPath := none
  lastCheckedAt := none
  errorMessage := none
  createdAt := time
  updatedAt := time

/-- The transaction of `POST`. Its `expire_requests` is a statement of its own before it. -/
def post (t : Table) (d : Draft) (time : Int) : Except Failure Table :=
  if t.rows.any (fun r => r.targetName == d.targetName && r.status.waiting) then
    .error (fail 409 "contact request already pending")
  else t.insert (posted d time)

/-- What `DELETE` remembers of a row it revokes. -/
structure Cancelled where
  id : Nat
  status : Status
  updated : Int

def cancelled (r : OutboundContactRequest) : Cancelled := ⟨r.id, r.status, r.updatedAt⟩

def revoke (stamp : Int) (r : OutboundContactRequest) : OutboundContactRequest :=
  { r with status := .revoked, leaseUntil := none, updatedAt := stamp }

/-- The rows that the `SELECT` of the revoke transaction returns for one name. -/
def outbound (t : Table) (name : String) : List OutboundContactRequest :=
  t.rows.filter (fun r => r.targetName == name && r.status != .revoked)

/-- The revoke transaction. `checked` is the clock at the lease check of each row, `stamped`
the clock at the `UPDATE` of each name. -/
def revokeNames (t : Table) (checked : Nat → Int) : (Nat → Int) → List String →
    Except Failure (Table × List Cancelled)
  | _, [] => .ok (t, [])
  | stamped, name :: names =>
      if (outbound t name).any (fun r => r.leaseUntil.any (fun lease => decide (checked r.id < lease)))
      then .error (fail 409 "contact delivery is in progress; retry deletion")
      else do
        let u ← t.update (fun r => r.targetName == name) (revoke (stamped 0))
        let (u, previous) ← revokeNames u checked (fun i => stamped (i + 1)) names
        .ok (u, (outbound t name).map cancelled ++ previous)

def restore (c : Cancelled) (r : OutboundContactRequest) : OutboundContactRequest :=
  { r with status := c.status, updatedAt := c.updated }

/-- The restore transaction. -/
def restoreAll : Table → List Cancelled → Except Failure Table
  | t, [] => .ok t
  | t, c :: cs => do
      let u ← t.update (fun r => r.id == c.id && r.status == .revoked) (restore c)
      restoreAll u cs

theorem revoke_revoke (a b : Int) (r : OutboundContactRequest) :
    revoke b (revoke a r) = revoke b r := rfl

theorem restore_restore (a b : Cancelled) (r : OutboundContactRequest) :
    restore b (restore a r) = restore b r := rfl

section

variable {t u : Table} {checked stamped : Nat → Int} {name : String} {names : List String}
  {previous : List Cancelled} {cs : List Cancelled} {id : Nat} {r : OutboundContactRequest}

theorem revokeNames_cons (h : revokeNames t checked stamped (name :: names) = .ok (u, previous)) :
    ∃ v later, t.update (fun r => r.targetName == name) (revoke (stamped 0)) = .ok v ∧
      revokeNames v checked (fun i => stamped (i + 1)) names = .ok (u, later) ∧
      previous = (outbound t name).map cancelled ++ later ∧
      ∀ r ∈ outbound t name, ∀ lease ∈ r.leaseUntil, lease ≤ checked r.id := by
  simp only [revokeNames] at h
  split at h
  · cases h
  · rename_i hn
    obtain ⟨v, hv, h⟩ := bind_eq_ok.mp h
    obtain ⟨⟨w, later⟩, hw, h⟩ := bind_eq_ok.mp h
    cases h
    refine ⟨v, later, hv, hw, rfl, ?_⟩
    intro r hr lease hl
    by_contra hlt
    refine hn (List.any_eq_true.mpr ⟨r, hr, ?_⟩)
    rw [Option.mem_def.mp hl]
    simpa using hlt

theorem revokeNames_row (h : revokeNames t checked stamped names = .ok (u, previous)) (id : Nat) :
    ∃ stamp, u.row id = (t.row id).map (fun r => if r.targetName ∈ names then revoke stamp r else r) := by
  induction names generalizing t stamped previous with
  | nil =>
      cases h
      exact ⟨0, by simp⟩
  | cons name names ih =>
      obtain ⟨v, later, hv, hu, -, -⟩ := revokeNames_cons h
      have hrow := Table.update_row hv (fun _ => rfl) id
      obtain ⟨stamp, hs⟩ := ih hu
      rw [hrow] at hs
      cases hr : t.row id with
      | none => exact ⟨stamp, by simp [hs, hr]⟩
      | some r =>
          by_cases hn : r.targetName ∈ names
          · refine ⟨stamp, ?_⟩
            rw [hs, hr]
            by_cases he : r.targetName = name
            · simp [he, revoke, he ▸ hn]
            · simp [he, hn]
          · refine ⟨stamped 0, ?_⟩
            rw [hs, hr]
            by_cases he : r.targetName = name
            · have hn' : (revoke (stamped 0) r).targetName ∉ names := hn
              simp [he, hn']
            · simp [he, hn]

theorem revokeNames_sequence (h : revokeNames t checked stamped names = .ok (u, previous)) :
    u.sequence = t.sequence := by
  induction names generalizing t stamped previous with
  | nil => cases h; rfl
  | cons name names ih =>
      obtain ⟨v, later, hv, hu, -, -⟩ := revokeNames_cons h
      rw [ih hu, Table.update_sequence hv]

theorem mem_outbound : r ∈ outbound t name ↔
    t.row r.id = some r ∧ r.targetName = name ∧ r.status ≠ .revoked := by
  simp [outbound, Table.row_eq_some]

/-- A row that is not revoked before the second pass over it is listed by exactly one pass. -/
theorem revokeNames_cancelled (h : revokeNames t checked stamped names = .ok (u, previous))
    (c : Cancelled) : c ∈ previous ↔
      ∃ r, t.row c.id = some r ∧ r.targetName ∈ names ∧ r.status ≠ .revoked ∧ cancelled r = c := by
  induction names generalizing t stamped previous with
  | nil =>
      cases h
      simp
  | cons name names ih =>
      obtain ⟨v, later, hv, hu, rfl, -⟩ := revokeNames_cons h
      have hrow := Table.update_row hv (fun _ => rfl) c.id
      simp only [List.mem_append, List.mem_map, ih hu, hrow, mem_outbound]
      constructor
      · rintro (⟨r, ⟨hr, rfl, hs⟩, rfl⟩ | ⟨r, hr, hn, hs, hc⟩)
        · exact ⟨r, hr, List.mem_cons_self, hs, rfl⟩
        · obtain ⟨q, hq, rfl⟩ := Option.map_eq_some_iff.mp hr
          by_cases he : q.targetName = name
          · simp [he, revoke] at hs
          · simp only [he, beq_iff_eq, if_false] at hn hs hc
            exact ⟨q, hq, List.mem_cons_of_mem _ hn, hs, hc⟩
      · rintro ⟨r, hr, hn, hs, rfl⟩
        by_cases he : r.targetName = name
        · exact .inl ⟨r, ⟨hr, he, hs⟩, rfl⟩
        · have hn' : r.targetName ∈ names := (List.mem_cons.mp hn).resolve_left he
          exact .inr ⟨r, by simp only [hr, Option.map_some, he, beq_iff_eq, if_false], hn', hs, rfl⟩

theorem revokeNames_unleased (h : revokeNames t checked stamped names = .ok (u, previous))
    (hr : t.row id = some r) (hn : r.targetName ∈ names) (hs : r.status ≠ .revoked) :
    ∀ lease ∈ r.leaseUntil, lease ≤ checked id := by
  induction names generalizing t stamped previous with
  | nil => cases hn
  | cons name names ih =>
      obtain ⟨v, later, hv, hu, -, hl⟩ := revokeNames_cons h
      by_cases he : r.targetName = name
      · have hid := Table.row_id hr
        subst hid
        exact hl r (mem_outbound.mpr ⟨hr, he, hs⟩)
      · refine ih hu ?_ ((List.mem_cons.mp hn).resolve_left he)
        rw [Table.update_row hv (fun _ => rfl) id, hr]
        simp [he]

theorem revokeNames_nodup (h : revokeNames t checked stamped names = .ok (u, previous)) :
    (previous.map Cancelled.id).Nodup := by
  induction names generalizing t stamped previous with
  | nil => cases h; simp
  | cons name names ih =>
      obtain ⟨v, later, hv, hu, rfl, -⟩ := revokeNames_cons h
      rw [List.map_append, List.map_map]
      refine List.nodup_append'.mpr ⟨?_, ih hu, ?_⟩
      · exact t.valid.ids.sublist ((List.filter_sublist).map _)
      · rintro i hi hj
        obtain ⟨r, hr, rfl⟩ := List.mem_map.mp hi
        obtain ⟨c, hc, he⟩ := List.mem_map.mp hj
        obtain ⟨hr, hn, hs⟩ := mem_outbound.mp hr
        obtain ⟨q, hq, -, hs', -⟩ := (revokeNames_cancelled hu c).mp hc
        have hid : c.id = r.id := he
        rw [hid, Table.update_row hv (fun _ => rfl), hr] at hq
        simp only [Option.map_some, hn, beq_self_eq_true, if_true, Option.some.injEq] at hq
        subst hq
        exact hs' rfl

theorem restoreAll_cons {c : Cancelled} (h : restoreAll t (c :: cs) = .ok u) :
    ∃ v, t.update (fun r => r.id == c.id && r.status == .revoked) (restore c) = .ok v ∧
      restoreAll v cs = .ok u := by
  exact bind_eq_ok.mp h

theorem restoreAll_sequence (h : restoreAll t cs = .ok u) : u.sequence = t.sequence := by
  induction cs generalizing t with
  | nil => cases h; rfl
  | cons c cs ih =>
      obtain ⟨v, hv, hu⟩ := restoreAll_cons h
      rw [ih hu, Table.update_sequence hv]

theorem restoreAll_row_none (h : restoreAll t cs = .ok u) (hr : t.row id = none) :
    u.row id = none := by
  induction cs generalizing t with
  | nil => cases h; exact hr
  | cons c cs ih =>
      obtain ⟨v, hv, hu⟩ := restoreAll_cons h
      exact ih hu (by rw [Table.update_row hv (fun _ => rfl), hr]; rfl)

theorem restoreAll_row (h : restoreAll t cs = .ok u) (hr : t.row id = some r) :
    u.row id = some r ∨
      ∃ c ∈ cs, c.id = id ∧ r.status = .revoked ∧ u.row id = some (restore c r) := by
  induction cs generalizing t r with
  | nil => cases h; exact .inl hr
  | cons c cs ih =>
      obtain ⟨v, hv, hu⟩ := restoreAll_cons h
      have hid := Table.row_id hr
      have hrow := Table.update_row hv (fun _ => rfl) id
      rw [hr, Option.map_some] at hrow
      split at hrow
      · rename_i hp
        obtain ⟨hc, hs⟩ : r.id = c.id ∧ r.status = .revoked := by simpa using hp
        refine .inr ?_
        obtain hk | ⟨d, hd, hdi, -, hrd⟩ := ih hu hrow
        · exact ⟨c, List.mem_cons_self, hc.symm.trans hid, hs, hk⟩
        · exact ⟨d, List.mem_cons_of_mem _ hd, hdi, hs, hrd⟩
      · obtain hk | ⟨d, hd, hdi, hs, hrd⟩ := ih hu hrow
        · exact .inl hk
        · exact .inr ⟨d, List.mem_cons_of_mem _ hd, hdi, hs, hrd⟩

theorem restoreAll_restores (h : restoreAll t cs = .ok u) (hn : (cs.map Cancelled.id).Nodup)
    {c : Cancelled} (hc : c ∈ cs) (hr : t.row c.id = some r) (hs : r.status = .revoked) :
    u.row c.id = some (restore c r) := by
  induction cs generalizing t r with
  | nil => cases hc
  | cons d cs ih =>
      obtain ⟨v, hv, hu⟩ := restoreAll_cons h
      obtain ⟨hd, hn⟩ := List.nodup_cons.mp hn
      have hid := Table.row_id hr
      have hrow := Table.update_row hv (fun _ => rfl) c.id
      rw [hr, Option.map_some] at hrow
      obtain rfl | hc := List.mem_cons.mp hc
      · rw [if_pos (by simp [hid, hs])] at hrow
        obtain hk | ⟨b, hb, hbi, -, -⟩ := restoreAll_row hu hrow
        · exact hk
        · exact absurd (List.mem_map.mpr ⟨b, hb, hbi⟩) hd
      · have hne : r.id ≠ d.id := fun he => hd (List.mem_map.mpr ⟨c, hc, hid.symm.trans he⟩)
        rw [if_neg (by simp [hne])] at hrow
        exact ih hu hn hc hrow hs

/-- What the partial unique index asks of a restore: a row put back to waiting has no waiting
neighbour, neither in the table nor among the rows put back with it. -/
structure Unopposed (t : Table) (cs : List Cancelled) : Prop where
  against : ∀ c ∈ cs, c.status.waiting = true → ∀ r, t.row c.id = some r →
    ∀ q ∈ t.rows, q.id ≠ c.id → q.targetName = r.targetName → q.status.waiting = false
  among : ∀ c ∈ cs, ∀ d ∈ cs, c.status.waiting = true → d.status.waiting = true → c.id ≠ d.id →
    ∀ r q, t.row c.id = some r → t.row d.id = some q → r.targetName ≠ q.targetName

theorem restore_update_ok {c : Cancelled} (h : Unopposed t (c :: cs)) :
    ∃ u, t.update (fun r => r.id == c.id && r.status == .revoked) (restore c) = .ok u := by
  by_cases hrow : ∃ r, t.row c.id = some r ∧ r.status = .revoked
  · obtain ⟨r, hr, hs⟩ := hrow
    refine (Table.update_one ?_ ?_ ?_ hr ?_).mpr ?_
    · exact fun _ => rfl
    · exact fun _ _ _ hc => hc
    · exact fun _ => rfl
    · intro q hq
      rw [Bool.and_eq_true, beq_iff_eq, beq_iff_eq]
      refine ⟨And.left, fun hi => ⟨hi, ?_⟩⟩
      have hqr : q = r := Option.some.inj ((Table.row_eq_some.mpr ⟨hq, hi⟩).symm.trans hr)
      rw [hqr, hs]
    · rintro q hq hne ⟨hw, hwq, ht⟩
      rw [h.against c List.mem_cons_self hw r hr q hq hne ht.symm] at hwq
      cases hwq
  · refine ⟨t, Table.update_none fun q hq => ?_⟩
    rw [Bool.and_eq_false_iff, beq_eq_false_iff_ne, beq_eq_false_iff_ne]
    by_contra hcon
    obtain ⟨hi, hs⟩ := not_or.mp hcon
    exact hrow ⟨q, Table.row_eq_some.mpr ⟨hq, not_not.mp hi⟩, not_not.mp hs⟩

theorem restoreAll_ok (h : Unopposed t cs) : ∃ u, restoreAll t cs = .ok u := by
  induction cs generalizing t with
  | nil => exact ⟨t, rfl⟩
  | cons c cs ih =>
      obtain ⟨v, hv⟩ := restore_update_ok h
      have hsome {i : Nat} {r : OutboundContactRequest} (hr : v.row i = some r) :
          ∃ q, t.row i = some q ∧ q.targetName = r.targetName ∧
            (r = q ∨ i = c.id ∧ r = restore c q) := by
        rw [Table.update_row hv (fun _ => rfl) i] at hr
        obtain ⟨q, hq, rfl⟩ := Option.map_eq_some_iff.mp hr
        refine ⟨q, hq, ?_, ?_⟩
        · split <;> rfl
        · split
          · rename_i hp
            obtain ⟨hqc, -⟩ : q.id = c.id ∧ q.status = .revoked := by simpa using hp
            exact .inr ⟨(Table.row_id hq).symm.trans hqc, rfl⟩
          · exact .inl rfl
      have hv' : Unopposed v cs := by
        constructor
        · intro d hd hw r hr q hq hne ht
          obtain ⟨r₀, hr₀, hrt, -⟩ := hsome hr
          obtain ⟨q₀, hq₀, hqt, hqe⟩ := hsome (Table.row_eq_some.mpr ⟨hq, rfl⟩)
          obtain rfl | ⟨hqc, rfl⟩ := hqe
          · exact h.against d (List.mem_cons_of_mem _ hd) hw r₀ hr₀ q (Table.row_eq_some.mp hq₀).1
              hne (ht.trans hrt.symm)
          · by_contra hwq
            have hwc : c.status.waiting = true := by simpa [restore] using hwq
            rw [hqc] at hq₀ hne
            exact h.among c List.mem_cons_self d (List.mem_cons_of_mem _ hd) hwc hw hne q₀ r₀ hq₀
              hr₀ (ht.trans hrt.symm)
        · intro a ha b hb hwa hwb hne r q hr hq
          obtain ⟨r₀, hr₀, hrt, -⟩ := hsome hr
          obtain ⟨q₀, hq₀, hqt, -⟩ := hsome hq
          rw [← hrt, ← hqt]
          exact h.among a (List.mem_cons_of_mem _ ha) b (List.mem_cons_of_mem _ hb) hwa hwb hne
            r₀ q₀ hr₀ hq₀
      obtain ⟨u, hu⟩ := ih hv'
      exact ⟨u, bind_eq_ok.mpr ⟨v, hv, hu⟩⟩

theorem post_ok {d : Draft} {time : Int} (h : post t d time = .ok u) :
    t.insert (posted d time) = .ok u := by
  unfold post at h
  split at h
  · cases h
  · exact h

end

end Pishoo.Dispatch
