import Pishoo.ContactSystem

namespace Pishoo.OutcomeRecord

open Outbound Delivery Dispatch Machine ContactSystem Result

theorem parse_accepted {text : String} (h : accepted text = true) : ∃ status,
    Status.parse text = some status ∧ (status.waiting = true ↔ text = "pending") := by
  have hm : text ∈ ["pending", "active", "denied", "expired", "revoked"] := by
    simpa [accepted] using h
  simp only [List.mem_cons, List.not_mem_nil, or_false] at hm
  obtain rfl | rfl | rfl | rfl | rfl := hm
  · exact ⟨.pending, by decide, by decide⟩
  · exact ⟨.active, by decide, by decide⟩
  · exact ⟨.denied, by decide, by decide⟩
  · exact ⟨.expired, by decide, by decide⟩
  · exact ⟨.revoked, by decide, by decide⟩

theorem string_ok {value : Json} {key text : String} (h : string value key = .ok text) :
    (value.get key).asStr = some text := by
  unfold string at h
  split at h <;> cases h
  assumption

theorem reconcile_ok {a : Answers} {x : Exchange} {receipt : Json}
    (h : reconcile a x = .ok receipt) : ∃ (text : String) (validBefore : Int),
      string receipt "status" = .ok text ∧ accepted text = true ∧
        (receipt.get "valid_before").asI64 = some validBefore := by
  obtain ⟨_, -, h⟩ := bind_eq_ok.mp h
  obtain ⟨_, -, h⟩ := bind_eq_ok.mp h
  obtain ⟨text, htext, h⟩ := bind_eq_ok.mp h
  obtain ⟨_, hacc, h⟩ := bind_eq_ok.mp h
  obtain ⟨_, hexp, h⟩ := bind_eq_ok.mp h
  cases h
  obtain ⟨validBefore, hv⟩ := Option.ne_none_iff_exists'.mp (failIf_eq_ok.mp hexp)
  exact ⟨text, validBefore, htext, by simpa using hacc, hv⟩

theorem outcome_ok {a : Answers} {j : DeliveryJob} {receipt : Json}
    (h : (outcome a j).2 = .ok receipt) : ∃ (text : String) (validBefore : Int),
      string receipt "status" = .ok text ∧ accepted text = true ∧
        (receipt.get "valid_before").asI64 = some validBefore := by
  obtain ⟨x, -, hx⟩ := bind_eq_ok.mp h
  exact reconcile_ok hx

theorem pendingReview_pos {code : Nat} {body : Json} {id : Int}
    (h : pendingReview code body = .ok (some id)) : 0 < id := by
  unfold pendingReview at h
  repeat' split at h
  all_goals cases h
  assumption

/-- The review a round stores is the one it has read or a new one. -/
theorem outcome_review {a : Answers} {j : DeliveryJob} (hj : ∀ p ∈ j.review, 0 < p.id) :
    ∀ p ∈ (outcome a j).1, 0 < p.id := by
  have hx : (outcome a j).1 = (exchange a j).1 := rfl
  rw [hx]
  unfold exchange
  split
  · exact hj
  · split
    · exact hj
    · split
      · exact hj
      · rename_i hp
        intro p hpm
        cases hpm
        exact pendingReview_pos hp
      · split
        · exact hj
        · nofun

/-- The statement that settles the row exists for every outcome of a round. -/
theorem exists_settles {a : Answers} {j : DeliveryJob} (t : Table) (lease t₁ t₂ : Int) :
    ∃ f, Settles (outcome a j).2 t₁ t₂ f ∧
      (∀ r : OutboundContactRequest, (f r).status.waiting = true → r.status.waiting = true ∨
        ∃ receipt, (outcome a j).2 = .ok receipt ∧ (receipt.get "status").asStr = some "pending") ∧
      (∀ receipt, (outcome a j).2 = .ok receipt → (receipt.get "status").asStr = some "pending" →
        ∀ r, (f r).status.waiting = true) ∧
      record t j.id lease (outcome a j).1 (outcome a j).2 t₁ t₂ =
        (t.update (holds j.id lease) (setReview (outcome a j).1)).bind
          (fun v => v.update (holds j.id lease) f) := by
  cases ho : (outcome a j).2 with
  | error e =>
      refine ⟨reject e t₁ t₂, .rejected, ?_, nofun, rfl⟩
      intro r hw
      simp only [reject] at hw
      split at hw
      · cases hw
      · exact .inl hw
  | ok receipt =>
      obtain ⟨text, validBefore, htext, hacc, hv⟩ := outcome_ok ho
      obtain ⟨status, hs, hw⟩ := parse_accepted hacc
      refine ⟨accept status validBefore t₁ t₂, .accepted htext hs hv, ?_, ?_, ?_⟩
      · intro r hr
        exact .inr ⟨receipt, rfl, by rw [string_ok htext, hw.mp hr]⟩
      · intro receipt' he hp r
        cases he
        rw [string_ok htext] at hp
        exact hw.mpr (Option.some.inj hp)
      · simp only [record, htext, hs, hv, ok_bind]
        rfl

section

variable {s s' : System} {e : Event} {i : Nat} {r : OutboundContactRequest} {lease : Int}

def Reviewed (s : System) : Prop :=
  ∀ (k : Nat) (round : Round), s.rounds[k]? = some round → ∀ p ∈ round.job.review, 0 < p.id

theorem reviewed_step (hr : Reviewed s) (h : step s e = some s') : Reviewed s' := by
  intro k round hk p hp
  by_cases hlt : k < s.rounds.length
  · obtain ⟨stage, hkept⟩ := round_kept h (List.getElem?_eq_getElem hlt)
    rw [hk] at hkept
    cases hkept
    exact hr k _ (List.getElem?_eq_getElem hlt) p hp
  · have hsame {t : System} (he : t.rounds.length = s.rounds.length)
        (hk : t.rounds[k]? = some round) : 0 < p.id := by
      have := (List.getElem?_eq_some_iff.mp hk).1
      omega
    obtain he | ⟨t₁, t₂, t₃, new, rfl, he⟩ | ⟨_, _, _, _, -, -, he⟩ | ⟨_, _, _, _, _, _, -, -, he⟩ :=
      step_rounds_eq h
    · exact hsame (by rw [he]) hk
    · obtain ⟨-, -, q, hq, -, hj, -⟩ := step_claim h he
      have hnew : round = new := by
        rw [he, List.getElem?_append_right (by omega)] at hk
        cases hn : k - s.rounds.length with
        | zero => rw [hn] at hk; exact (Option.some.inj hk).symm
        | succ n => rw [hn] at hk; cases hk
      subst hnew
      obtain ⟨-, -, hrev⟩ := job_ok hj
      have hid : q.reviewId = some p.id := by rw [← hrev, Option.mem_def.mp hp]; rfl
      exact (s.table.valid.checks q (Table.row_eq_some.mp hq).1).2.2.2 p.id hid
    · exact hsame (by simp [he]) hk
    · exact hsame (by simp [he]) hk

theorem reviewed_of_trace {guard : System → Event → Prop} {clock : Int} {es : List Event}
    (h : Trace step guard (init clock) es s) : Reviewed s :=
  h.invariant (fun _ _ hk => nomatch hk) fun _ _ _ hr _ hs => reviewed_step hr hs

/-- The receipt moves an active row back into the partial unique index, where another request
for the same target waits already. -/
def Reenters (s : System) (j : DeliveryJob) (lease : Int) (o : Except Failure Json) : Prop :=
  (∃ receipt, o = .ok receipt ∧ (receipt.get "status").asStr = some "pending") ∧
    ∃ r q, s.table.row j.id = some r ∧ r.leaseUntil = some lease ∧ r.status = .active ∧
      q ∈ s.table.rows ∧ q.status.waiting = true ∧ q.targetName = r.targetName

theorem settle_waiting {a : Answers} {j : DeliveryJob} {t : Table} {rev : Option PendingReview}
    {lease : Int} {r : OutboundContactRequest} {f : OutboundContactRequest → OutboundContactRequest}
    {t₁ t₂ : Int} (hrev : ∀ p ∈ rev, 0 < p.id) (hr : t.row j.id = some r)
    (hl : r.leaseUntil = some lease) (hf : Settles (outcome a j).2 t₁ t₂ f) :
    (∃ u, (t.update (holds j.id lease) (setReview rev)).bind
        (fun v => v.update (holds j.id lease) f) = .ok u) ↔
      ∀ q ∈ t.rows, q.id ≠ j.id → ¬Clash (f (setReview rev r)) q := by
  have hholds {t' : Table} {r' : OutboundContactRequest} (hr' : t'.row j.id = some r')
      (hl' : r'.leaseUntil = some lease) : ∀ q ∈ t'.rows, holds j.id lease q = true ↔ q.id = j.id := by
    intro q hq
    rw [holds, Bool.and_eq_true, beq_iff_eq, decide_eq_true_eq]
    refine ⟨And.left, fun hi => ⟨hi, ?_⟩⟩
    rw [Table.row_eq_some.mpr ⟨hq, hi⟩] at hr'
    cases hr'
    exact hl'
  have hclash {q : OutboundContactRequest} (hq : q ∈ t.rows) (hne : q.id ≠ j.id) :
      ¬Clash (setReview rev r) q := fun ⟨hw, hwq, ht⟩ =>
    Table.waiting_target_ne hr (Table.row_eq_some.mpr ⟨hq, rfl⟩) hw hwq hne.symm ht
  obtain ⟨v, hv⟩ : ∃ v, t.update (holds j.id lease) (setReview rev) = .ok v := by
    refine (Table.update_one ?_ ?_ ?_ hr (hholds hr hl)).mpr fun q hq hne => hclash hq hne
    · exact fun _ => rfl
    · intro q hq hp hc
      refine ⟨hc.1, hc.2.1, hc.2.2.1, ?_⟩
      intro id hid
      obtain ⟨p, hp, rfl⟩ := Option.map_eq_some_iff.mp (Option.mem_def.mp hid)
      exact hrev p hp
    · exact fun _ => rfl
  have hvr : v.row j.id = some (setReview rev r) := by
    have hh : holds j.id lease r = true := (hholds hr hl r (Table.row_eq_some.mp hr).1).mpr
      (Table.row_id hr)
    rw [Table.update_row hv (fun _ => rfl), hr, Option.map_some, if_pos hh]
  have hrows {q : OutboundContactRequest} (hne : q.id ≠ j.id) : q ∈ v.rows ↔ q ∈ t.rows := by
    have hrow := Table.update_row hv (fun _ => rfl) q.id
    have hsame : v.row q.id = t.row q.id := by
      rw [hrow]
      cases hq : t.row q.id with
      | none => rfl
      | some p =>
          have hp : holds j.id lease p = false := by simp [holds, Table.row_id hq, hne]
          simp [hp]
    constructor
    · exact fun hq => (Table.row_eq_some.mp (hsame ▸ Table.row_eq_some.mpr ⟨hq, rfl⟩)).1
    · exact fun hq => (Table.row_eq_some.mp (hsame ▸ Table.row_eq_some.mpr ⟨hq, rfl⟩)).1
  rw [hv]
  have hone := Table.update_one hf.id_eq (fun q _ _ => hf.checks) hf.application_eq hvr
    (hholds hvr hl)
  refine hone.trans ⟨fun h q hq hne => h q ((hrows hne).mpr hq) hne, fun h q hq hne =>
    h q ((hrows hne).mp hq) hne⟩

theorem settle_reenters {a : Answers} {j : DeliveryJob} {lease : Int} {r : OutboundContactRequest}
    {f : OutboundContactRequest → OutboundContactRequest} {t₁ t₂ : Int} (rev : Option PendingReview)
    (hc : Coherent s) (hr : s.table.row j.id = some r) (hl : r.leaseUntil = some lease)
    (hf : Settles (outcome a j).2 t₁ t₂ f)
    (hstay : ∀ r, (f r).status.waiting = true → r.status.waiting = true ∨
      ∃ receipt, (outcome a j).2 = .ok receipt ∧ (receipt.get "status").asStr = some "pending")
    (henter : ∀ receipt, (outcome a j).2 = .ok receipt →
      (receipt.get "status").asStr = some "pending" → ∀ r, (f r).status.waiting = true) :
    (∀ q ∈ s.table.rows, q.id ≠ j.id → ¬Clash (f (setReview rev r)) q) ↔
      ¬Reenters s j lease (outcome a j).2 := by
  have htarget : (f (setReview rev r)).targetName = r.targetName := hf.target_eq _
  constructor
  · rintro h ⟨⟨receipt, ho, hp⟩, r', q, hr', -, hact, hq, hwq, ht⟩
    rw [hr] at hr'
    cases hr'
    refine h q hq (fun hid => ?_) ⟨henter receipt ho hp _, hwq, htarget.trans ht.symm⟩
    have hqr : q = r := Option.some.inj ((Table.row_eq_some.mpr ⟨hq, hid⟩).symm.trans hr)
    rw [hqr, hact] at hwq
    cases hwq
  · rintro h q hq hne ⟨hw, hwq, ht⟩
    have hnot : ¬r.status.waiting = true := fun hwr => Table.waiting_target_ne hr
      (Table.row_eq_some.mpr ⟨hq, rfl⟩) hwr hwq hne.symm (htarget.symm.trans ht)
    obtain hwr | hp := hstay _ hw
    · exact hnot hwr
    · have hact : r.status = .active := by
        have hlive := hc.leased j.id r hr (by simp [hl])
        revert hnot hlive
        cases r.status <;> simp [Status.waiting, Status.live]
      exact h ⟨hp, r, q, hr, hl, hact, hq, hwq, ht.symm.trans htarget⟩

/-- The last transaction of a round commits and releases the lease unless its receipt moves an
active row back among the waiting ones of a target that has one. -/
theorem record_commits_iff {clock : Int} {es : List Event} {k : Nat} {j : DeliveryJob} {lease : Int}
    {a : Answers} (h : Trace step Free (init clock) es s)
    (hk : s.rounds[k]? = some ⟨j, lease, .exchanged a⟩) (t₁ t₂ : Int) :
    (∃ u, record s.table j.id lease (outcome a j).1 (outcome a j).2 t₁ t₂ = .ok u ∧
      ∀ r, u.row j.id = some r → r.leaseUntil ≠ some lease) ↔
        ¬Reenters s j lease (outcome a j).2 := by
  obtain ⟨f, hf, hstay, henter, hrec⟩ := exists_settles (a := a) (j := j) s.table lease t₁ t₂
  by_cases hheld : ∃ r, s.table.row j.id = some r ∧ r.leaseUntil = some lease
  · obtain ⟨r, hr, hl⟩ := hheld
    have hrev := outcome_review (a := a) (reviewed_of_trace h k _ hk)
    have hreenters := settle_reenters (outcome a j).1 (coherent_of_trace h) hr hl hf hstay henter
    rw [← hreenters, ← settle_waiting hrev hr hl hf, ← hrec]
    refine ⟨fun ⟨u, hu, _⟩ => ⟨u, hu⟩, fun ⟨u, hu⟩ => ⟨u, hu, fun q hq => ?_⟩⟩
    obtain ⟨g, hg, hrow⟩ := record_row hu
    have hh : holds j.id lease r = true := by simp [holds, Table.row_id hr, hl]
    rw [hrow, hr, Option.map_some, if_pos hh] at hq
    cases hq
    rw [hg.lease_eq]
    nofun
  · have hnone : ∀ r ∈ s.table.rows, holds j.id lease r = false := by
      intro r hr
      rw [Bool.eq_false_iff]
      intro hh
      obtain ⟨hid, hl⟩ := Bool.and_eq_true _ _ ▸ hh
      exact hheld ⟨r, Table.row_eq_some.mpr ⟨hr, eq_of_beq hid⟩, of_decide_eq_true hl⟩
    refine iff_of_true ⟨s.table, ?_, fun r hr hl => hheld ⟨r, hr, hl⟩⟩ ?_
    · rw [hrec, Table.update_none hnone]
      exact Table.update_none hnone
    · rintro ⟨-, r, -, hr, hl, -⟩
      exact hheld ⟨r, hr, hl⟩

end

def peer : Json := .obj [("id", .int 1), ("subject_id", .str "sb"), ("status", .str "active")]

def accepts : Answers := { unreachable with
  existing := .ok peer
  owner := .ok "sa"
  current := .ok peer
  confirmed := .ok peer
  business := .ok (200, .obj [("application_id", .str (application 'x')), ("name", .str "b"),
    ("subject_id", .str "sb"), ("status", .str "active"), ("valid_before", .int 1000)], "sb") }

def transfers : Answers := { accepts with
  business := .ok (200, .obj [("name", .str "a"), ("subject_id", .str "sa"),
    ("status", .str "transfered"), ("valid_before", .int 1000)], "sb") }

/-- The contact becomes active, a second request for it is posted, and the peer then reports the
first one as transfered. -/
def transferRun : List Event :=
  [.post (request "b" 'x' 1000) 0, .claim 0 0 0, .bind 0 accepts, .finish 0 1 1, .claim 31 31 31,
    .post (request "b" 'y' 2000) 32, .bind 1 transfers]

theorem record_fails_on_transfer : ¬∀ (clock : Int) (es : List Event) (s : System) (k : Nat)
    (j : DeliveryJob) (lease : Int) (a : Answers) (t₁ t₂ : Int), Trace step Free (init clock) es s →
      s.rounds[k]? = some ⟨j, lease, .exchanged a⟩ →
        ∃ u, record s.table j.id lease (outcome a j).1 (outcome a j).2 t₁ t₂ = .ok u ∧
          ∀ r, u.row j.id = some r → r.leaseUntil ≠ some lease := by
  intro h
  obtain ⟨s, hs⟩ : ∃ s, run step Free (init 0) transferRun = some s :=
    Option.isSome_iff_exists.mp (by decide)
  obtain ⟨j, lease, hk⟩ : ∃ j lease, s.rounds[1]? = some ⟨j, lease, .exchanged transfers⟩ := by
    cases hs
    exact ⟨_, _, rfl⟩
  obtain ⟨u, hu, -⟩ := h 0 transferRun s 1 j lease transfers 33 33 (trace_of_run hs) hk
  have hnone : (record s.table j.id lease (outcome transfers j).1 (outcome transfers j).2
      33 33).toOption.isNone = true := by
    cases hs
    cases hk
    decide
  rw [hu] at hnone
  cases hnone

theorem record_commits_iff_run : ∃ s j lease,
    run step Free (init 0) [.post (request "b" 'x' 1000) 0, .claim 0 0 0, .bind 0 accepts] = some s ∧
      s.rounds[0]? = some ⟨j, lease, .exchanged accepts⟩ ∧
      ∃ u, record s.table j.id lease (outcome accepts j).1 (outcome accepts j).2 1 1 = .ok u := by
  obtain ⟨s, hs⟩ : ∃ s, run step Free (init 0)
      [.post (request "b" 'x' 1000) 0, .claim 0 0 0, .bind 0 accepts] = some s :=
    Option.isSome_iff_exists.mp (by decide)
  obtain ⟨j, lease, hk⟩ : ∃ j lease, s.rounds[0]? = some ⟨j, lease, .exchanged accepts⟩ := by
    cases hs
    exact ⟨_, _, rfl⟩
  have hnot : ¬Reenters s j lease (outcome accepts j).2 := by
    rintro ⟨-, r, q, hr, -, hact, -⟩
    have hq : (s.table.row j.id).map OutboundContactRequest.status = some .queued := by
      cases hs
      cases hk
      decide
    rw [hr, Option.map_some, hact] at hq
    cases hq
  obtain ⟨u, hu, -⟩ := (record_commits_iff (trace_of_run hs) hk 1 1).mpr hnot
  exact ⟨s, j, lease, hs, hk, u, hu⟩

end Pishoo.OutcomeRecord
