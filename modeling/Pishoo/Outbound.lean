import Pishoo.Result
import Pishoo.Json
import Pishoo.Rows

namespace Pishoo.Outbound

abbrev Failure := Nat × String

def fail (status : Nat) (message : String) : Failure := (status, message)

inductive Status
  | queued | pending | active | denied | expired | failed | revoked
  deriving DecidableEq, Repr

def Status.text : Status → String
  | queued => "queued"
  | pending => "pending"
  | active => "active"
  | denied => "denied"
  | expired => "expired"
  | failed => "failed"
  | revoked => "revoked"

def Status.parse (text : String) : Option Status :=
  [queued, pending, active, denied, expired, failed, revoked].find? (fun s => s.text == text)

/-- `status IN ('queued','pending')`, the rows of the partial unique index. -/
def Status.waiting : Status → Bool
  | queued | pending => true
  | _ => false

/-- `status IN ('queued','pending','active')`, the rows that `deliver` may claim. -/
def Status.live : Status → Bool
  | queued | pending | active => true
  | _ => false

theorem Status.live_of_waiting {s : Status} (h : s.waiting = true) : s.live = true := by
  cases s <;> simp_all [waiting, live]

/-- A row of `outbound_contact_request`. The columns that `json_valid` and `json_type` restrict
to arrays and objects have the corresponding types. -/
structure OutboundContactRequest where
  id : Nat
  targetName : String
  contactId : Option Int
  contactSubject : Option String
  description : String
  requestedCapabilities : List Json
  offeredCapabilities : List Json
  requestedAccess : Option (List (String × Json))
  offers : Option (List (String × Json))
  applicationId : Option String
  status : Status
  expiredAfter : Int
  deliveryDeadline : Int
  remoteExpiredAfter : Option Int
  nextAttemptAt : Int
  attemptCount : Int
  leaseUntil : Option Int
  reviewId : Option Int
  reviewSubject : Option String
  reviewMethod : Option String
  reviewPath : Option String
  lastCheckedAt : Option Int
  errorMessage : Option String
  createdAt : Int
  updatedAt : Int

/-- The remaining `CHECK` constraints of one row. -/
def Checks (r : OutboundContactRequest) : Prop :=
  0 < r.targetName.length ∧ r.description.length ≤ 80 ∧
    (∀ a ∈ r.applicationId, a.length = 64) ∧ ∀ i ∈ r.reviewId, 0 < i

instance (r : OutboundContactRequest) : Decidable (Checks r) :=
  inferInstanceAs (Decidable (_ ∧ _ ∧ _ ∧ _))

/-- Both rows fall under `outbound_contact_request_pending_target` with the same target. -/
def Clash (a b : OutboundContactRequest) : Prop :=
  a.status.waiting = true ∧ b.status.waiting = true ∧ a.targetName = b.targetName

instance (a b : OutboundContactRequest) : Decidable (Clash a b) :=
  inferInstanceAs (Decidable (_ ∧ _ ∧ _))

theorem Clash.symm {a b : OutboundContactRequest} (h : Clash a b) : Clash b a :=
  ⟨h.2.1, h.1, h.2.2.symm⟩

def Compatible (a b : OutboundContactRequest) : Prop :=
  ¬Clash a b ∧ ¬(a.applicationId.isSome = true ∧ a.applicationId = b.applicationId)

instance (a b : OutboundContactRequest) : Decidable (Compatible a b) :=
  inferInstanceAs (Decidable (_ ∧ _))

instance : Std.Symm Compatible where
  symm _ _ h := ⟨fun hc => h.1 hc.symm, fun hc => h.2 ⟨hc.2 ▸ hc.1, hc.2.symm⟩⟩

structure Valid (rows : List OutboundContactRequest) (sequence : Nat) : Prop where
  checks : ∀ r ∈ rows, Checks r
  issued : ∀ r ∈ rows, r.id ≤ sequence
  ids : (rows.map OutboundContactRequest.id).Nodup
  unique : rows.Pairwise Compatible

instance (rows : List OutboundContactRequest) (sequence : Nat) : Decidable (Valid rows sequence) :=
  decidable_of_iff ((∀ r ∈ rows, Checks r) ∧ (∀ r ∈ rows, r.id ≤ sequence) ∧
      (rows.map OutboundContactRequest.id).Nodup ∧ rows.Pairwise Compatible)
    ⟨fun ⟨a, b, c, d⟩ => ⟨a, b, c, d⟩, fun ⟨a, b, c, d⟩ => ⟨a, b, c, d⟩⟩

/-- The table as SQLite keeps it. `sequence` is the largest id `AUTOINCREMENT` has given out. -/
structure Table where
  rows : List OutboundContactRequest
  sequence : Nat
  valid : Valid rows sequence

def Table.empty : Table := ⟨[], 0, ⟨by simp, by simp, by simp, by simp⟩⟩

/-- A violated constraint is a `SqliteFailure` other than busy or locked; `storage` answers 500. -/
def constraintFailed : Failure := fail 500 "contact storage: constraint failed"

def stored (rows : List OutboundContactRequest) (sequence : Nat) : Except Failure Table :=
  if h : Valid rows sequence then .ok ⟨rows, sequence, h⟩ else .error constraintFailed

/-- `UPDATE outbound_contact_request SET f WHERE p`. -/
def Table.update (t : Table) (p : OutboundContactRequest → Bool)
    (f : OutboundContactRequest → OutboundContactRequest) : Except Failure Table :=
  stored (Rows.updateWhere p f t.rows) t.sequence

def Table.insert (t : Table) (r : OutboundContactRequest) : Except Failure Table :=
  stored (t.rows ++ [{ r with id := t.sequence + 1 }]) (t.sequence + 1)

def Table.row (t : Table) (id : Nat) : Option OutboundContactRequest :=
  Rows.select OutboundContactRequest.id t.rows id

theorem Table.row_eq_some {t : Table} {id : Nat} {r : OutboundContactRequest} :
    t.row id = some r ↔ r ∈ t.rows ∧ r.id = id :=
  Rows.select_eq_some t.valid.ids

theorem Table.row_eq_none {t : Table} {id : Nat} (h : t.sequence < id) : t.row id = none := by
  rw [Table.row, Rows.select_eq_none]
  intro r hr he
  have := t.valid.issued r hr
  omega

theorem Table.row_id {t : Table} {id : Nat} {r : OutboundContactRequest} (h : t.row id = some r) :
    r.id = id :=
  Rows.key_of_select h

/-- The partial unique index: two rows that wait have different targets. -/
theorem Table.waiting_target_ne {t : Table} {i j : Nat} {a b : OutboundContactRequest}
    (ha : t.row i = some a) (hb : t.row j = some b) (hwa : a.status.waiting = true)
    (hwb : b.status.waiting = true) (hne : i ≠ j) : a.targetName ≠ b.targetName := by
  obtain ⟨hma, hia⟩ := Table.row_eq_some.mp ha
  obtain ⟨hmb, hib⟩ := Table.row_eq_some.mp hb
  have hab : a ≠ b := fun h => hne (by rw [← hia, ← hib, h])
  have hcl := t.valid.unique.forall hma hmb hab
  exact fun ht => hcl.1 ⟨hwa, hwb, ht⟩

theorem stored_ok {rows : List OutboundContactRequest} {sequence : Nat} {t : Table}
    (h : stored rows sequence = .ok t) : t.rows = rows ∧ t.sequence = sequence := by
  unfold stored at h
  split at h
  · cases h; exact ⟨rfl, rfl⟩
  · cases h

theorem stored_isOk {rows : List OutboundContactRequest} {sequence : Nat} :
    (∃ t, stored rows sequence = .ok t) ↔ Valid rows sequence := by
  unfold stored
  split <;> simp_all

section

variable {t u : Table} {p : OutboundContactRequest → Bool}
  {f : OutboundContactRequest → OutboundContactRequest}

theorem Table.update_row (h : t.update p f = .ok u) (hf : ∀ r, (f r).id = r.id) (id : Nat) :
    u.row id = (t.row id).map (fun r => if p r then f r else r) := by
  rw [Table.row, (stored_ok h).1]
  exact Rows.select_updateWhere p f hf id

theorem Table.update_sequence (h : t.update p f = .ok u) : u.sequence = t.sequence :=
  (stored_ok h).2

/-- An `UPDATE` that keeps the key columns and the checks of the rows it touches can only fail
on the partial unique index. -/
theorem Table.update_isOk (hf : ∀ r, (f r).id = r.id)
    (hc : ∀ r ∈ t.rows, p r = true → Checks r → Checks (f r))
    (ha : ∀ r, (f r).applicationId = r.applicationId) :
    (∃ u, t.update p f = .ok u) ↔
      (Rows.updateWhere p f t.rows).Pairwise (fun a b => ¬Clash a b) := by
  have hid (r : OutboundContactRequest) : (if p r then f r else r).id = r.id := by
    split <;> simp [hf]
  have happ (r : OutboundContactRequest) :
      (if p r then f r else r).applicationId = r.applicationId := by
    split <;> simp [ha]
  rw [Table.update, stored_isOk]
  refine ⟨fun h => h.unique.imp And.left, fun hu => ⟨?_, ?_, ?_, ?_⟩⟩
  · intro r hr
    obtain ⟨q, hq, rfl⟩ := Rows.mem_updateWhere.mp hr
    split
    · exact hc q hq ‹_› (t.valid.checks q hq)
    · exact t.valid.checks q hq
  · intro r hr
    obtain ⟨q, hq, rfl⟩ := Rows.mem_updateWhere.mp hr
    rw [hid]
    exact t.valid.issued q hq
  · rw [Rows.map_key_updateWhere p hf]
    exact t.valid.ids
  · have happs : (Rows.updateWhere p f t.rows).Pairwise
        (fun a b => ¬(a.applicationId.isSome = true ∧ a.applicationId = b.applicationId)) := by
      rw [Rows.updateWhere, List.pairwise_map]
      exact t.valid.unique.imp (fun h => by rw [happ, happ]; exact h.2)
    exact hu.and happs

theorem Table.update_none (h : ∀ r ∈ t.rows, p r = false) : t.update p f = .ok t := by
  have hrows : Rows.updateWhere p f t.rows = t.rows := by
    rw [Rows.updateWhere]
    exact (List.map_congr_left fun r hr => by rw [h r hr]; rfl).trans (List.map_id _)
  unfold Table.update
  rw [hrows, stored, dif_pos t.valid]

/-- An `UPDATE` of one row fails exactly if the new row clashes with another one. -/
theorem Table.update_one (hf : ∀ r, (f r).id = r.id)
    (hc : ∀ r ∈ t.rows, p r = true → Checks r → Checks (f r))
    (ha : ∀ r, (f r).applicationId = r.applicationId) {i : Nat} {r : OutboundContactRequest}
    (hr : t.row i = some r) (hp : ∀ q ∈ t.rows, p q = true ↔ q.id = i) :
    (∃ u, t.update p f = .ok u) ↔ ∀ q ∈ t.rows, q.id ≠ i → ¬Clash (f r) q := by
  obtain ⟨hmem, hid⟩ := Table.row_eq_some.mp hr
  have hrow {q : OutboundContactRequest} (hq : q ∈ t.rows) (hi : q.id = i) : q = r :=
    Option.some.inj ((Table.row_eq_some.mpr ⟨hq, hi⟩).symm.trans hr)
  rw [Table.update_isOk hf hc ha]
  constructor
  · intro h q hq hne hcl
    have hfr : f r ∈ Rows.updateWhere p f t.rows :=
      Rows.mem_updateWhere.mpr ⟨r, hmem, by rw [if_pos ((hp r hmem).mpr hid)]⟩
    have hqm : q ∈ Rows.updateWhere p f t.rows :=
      Rows.mem_updateWhere.mpr ⟨q, hq, by rw [if_neg (fun h => hne ((hp q hq).mp h))]⟩
    have hsym : Std.Symm fun a b : OutboundContactRequest => ¬Clash a b :=
      ⟨fun _ _ hn hcl => hn hcl.symm⟩
    refine h.forall hfr hqm (fun he => hne ?_) hcl
    rw [← he, hf, hid]
  · intro h
    rw [Rows.updateWhere, List.pairwise_map]
    refine (t.valid.unique.and (List.pairwise_map.mp t.valid.ids)).imp_of_mem ?_
    rintro a b hma hmb ⟨hab, hne⟩
    by_cases hai : a.id = i
    · have hbi : b.id ≠ i := fun hbi => hne (hai.trans hbi.symm)
      rw [if_pos ((hp a hma).mpr hai), if_neg (fun hb => hbi ((hp b hmb).mp hb)), hrow hma hai]
      exact h b hmb hbi
    · rw [if_neg (fun ha => hai ((hp a hma).mp ha))]
      by_cases hbi : b.id = i
      · rw [if_pos ((hp b hmb).mpr hbi), hrow hmb hbi]
        exact fun hcl => h a hma hai hcl.symm
      · rw [if_neg (fun hb => hbi ((hp b hmb).mp hb))]
        exact hab.1

/-- Leaving the index, or staying in it, never clashes. -/
theorem Table.update_leaves (ht : ∀ r, (f r).targetName = r.targetName)
    (hw : ∀ r ∈ t.rows, p r = true → (f r).status.waiting = true → r.status.waiting = true) :
    (Rows.updateWhere p f t.rows).Pairwise (fun a b => ¬Clash a b) := by
  have htarget (r : OutboundContactRequest) :
      (if p r then f r else r).targetName = r.targetName := by
    split <;> simp [ht]
  have hwait : ∀ r ∈ t.rows,
      (if p r then f r else r).status.waiting = true → r.status.waiting = true := by
    intro r hr h
    split at h
    · exact hw r hr ‹_› h
    · exact h
  rw [Rows.updateWhere, List.pairwise_map]
  refine t.valid.unique.imp_of_mem ?_
  intro a b hma hmb h hcl
  exact h.1 ⟨hwait a hma hcl.1, hwait b hmb hcl.2.1, by simpa only [htarget] using hcl.2.2⟩

theorem Table.insert_row {r : OutboundContactRequest} (h : t.insert r = .ok u) (id : Nat) :
    u.row id = if id = t.sequence + 1 then some { r with id := t.sequence + 1 } else t.row id := by
  rw [Table.row, (stored_ok h).1, Rows.select_append]
  by_cases hid : id = t.sequence + 1
  · have hn : t.row id = none := Table.row_eq_none (by omega)
    rw [Table.row] at hn
    rw [hn, hid]
    simp [Rows.select]
  · have hn : Rows.select OutboundContactRequest.id [{ r with id := t.sequence + 1 }] id = none := by
      rw [Rows.select_eq_none]
      simpa using fun h => hid h.symm
    rw [hn, Option.or_none, if_neg hid]
    rfl

end

/-- `UPDATE … WHERE status IN ('queued','pending') AND expired_after<=?1`. -/
def overdue (now : Int) (r : OutboundContactRequest) : Bool :=
  r.status.waiting && decide (r.expiredAfter ≤ now)

def expire (now : Int) (r : OutboundContactRequest) : OutboundContactRequest :=
  { r with
    status := if r.status = .queued then .failed else .expired
    leaseUntil := none
    updatedAt := now
    errorMessage := some "contact request expired" }

def expireRequests (t : Table) (now : Int) : Except Failure Table :=
  t.update (overdue now) (expire now)

theorem expireRequests_ok (t : Table) (now : Int) : ∃ u, expireRequests t now = .ok u := by
  refine (Table.update_isOk ?_ ?_ ?_).mpr (Table.update_leaves ?_ ?_)
  · exact fun _ => rfl
  · exact fun _ _ _ h => h
  · exact fun _ => rfl
  · exact fun _ => rfl
  · intro r _ _ hw
    simp only [expire] at hw
    split at hw <;> simp [Status.waiting] at hw

theorem Table.insert_isOk {t : Table} {r : OutboundContactRequest} :
    (∃ u, t.insert r = .ok u) ↔ Checks r ∧ ∀ q ∈ t.rows, Compatible q r := by
  rw [Table.insert, stored_isOk]
  constructor
  · intro h
    have hcross := (List.pairwise_append.mp h.unique).2.2
    exact ⟨h.checks { r with id := t.sequence + 1 } (List.mem_append_right _ List.mem_cons_self),
      fun q hq => hcross q hq { r with id := t.sequence + 1 } List.mem_cons_self⟩
  · rintro ⟨hchecks, hcompatible⟩
    refine ⟨fun q hq => ?_, fun q hq => ?_, ?_, ?_⟩
    · obtain hq | hq := List.mem_append.mp hq
      · exact t.valid.checks q hq
      · cases List.mem_singleton.mp hq
        exact hchecks
    · obtain hq | hq := List.mem_append.mp hq
      · exact Nat.le_succ_of_le (t.valid.issued q hq)
      · cases List.mem_singleton.mp hq
        exact le_rfl
    · rw [List.map_append]
      refine t.valid.ids.append (List.nodup_singleton _) ?_
      rw [List.map_singleton, List.disjoint_singleton]
      intro hmem
      obtain ⟨q, hq, hid⟩ := List.mem_map.mp hmem
      have hissued := t.valid.issued q hq
      have hnew : q.id = t.sequence + 1 := hid
      omega
    · refine List.pairwise_append.mpr ⟨t.valid.unique, List.pairwise_singleton _ _, ?_⟩
      intro q hq r' hr'
      cases List.mem_singleton.mp hr'
      exact hcompatible q hq

theorem expireRequests_row {t u : Table} {now : Int} (h : expireRequests t now = .ok u) (id : Nat) :
    u.row id = (t.row id).map (fun r => if overdue now r then expire now r else r) :=
  Table.update_row h (fun _ => rfl) id

end Pishoo.Outbound
