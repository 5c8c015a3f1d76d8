import Mathlib.Data.Int.Order.Basic
import Pishoo.ContactSystem

namespace Pishoo.LeaseFencing

open Outbound Delivery Dispatch Machine ContactSystem

/-- The clock does not run backwards, neither between steps nor within one. -/
def Ticks (s : System) : Event → Prop
  | .post _ t | .expire t => s.clock ≤ t
  | .claim t₁ t₂ t₃ => s.clock ≤ t₁ ∧ t₁ ≤ t₂ ∧ t₂ ≤ t₃
  | .finish _ t₁ t₂ => s.clock ≤ t₁ ∧ t₁ ≤ t₂
  | .revoke _ checked _ done =>
      s.clock ≤ done ∧ ∀ r ∈ s.table.rows, s.clock ≤ checked r.id ∧ checked r.id ≤ done
  | .bind .. | .delete _ | .look .. | .native .. | .restore _ => True

instance (s : System) : (e : Event) → Decidable (Ticks s e)
  | .post _ t | .expire t => inferInstanceAs (Decidable (s.clock ≤ t))
  | .claim .. | .finish .. | .revoke .. => inferInstanceAs (Decidable (_ ∧ _))
  | .bind .. | .delete _ | .look .. | .native .. | .restore _ => inferInstanceAs (Decidable True)

/-- The event claims the row, expires it, revokes it or applies an outcome to it. -/
inductive Ends (s : System) (e : Event) (s' : System) (i : Nat) : Prop
  | claimed {t₁ t₂ t₃ round} : e = .claim t₁ t₂ t₃ → s'.rounds = s.rounds ++ [round] →
      round.job.id = i → Ends s e s' i
  | expired {t r} : (e = .expire t ∨ ∃ t₂ t₃, e = .claim t t₂ t₃) → s.table.row i = some r →
      overdue t r = true → s'.table.row i = some (expire t r) → Ends s e s' i
  | revoked {d del checked stamped done} : e = .revoke d checked stamped done →
      s'.deletions[d]? = some del → del.stage = .revoked → i ∈ del.covered → Ends s e s' i
  | recorded {k t₁ t₂ round} : e = .finish k t₁ t₂ → s.rounds[k]? = some round →
      round.job.id = i → s'.table.row i ≠ s.table.row i → Ends s e s' i

def Quiet (i : Nat) (s : System) (e : Event) : Prop := ∀ s', step s e = some s' → ¬Ends s e s' i

def Held (s : System) (i : Nat) (lease : Int) : Prop :=
  ∃ r, s.table.row i = some r ∧ r.leaseUntil = some lease

/-- A row without the lease that no later claim can give it back to. Either the lease lies below
every later one, or the row has to wait until that is so, or it can never be claimed again. -/
def Spent (s : System) (i : Nat) (lease : Int) : Prop :=
  ∃ r, s.table.row i = some r ∧ r.leaseUntil ≠ some lease ∧ (lease < s.clock + 120 ∨
    (r.leaseUntil = none ∧ lease < r.nextAttemptAt + 120) ∨
    (r.status.live = false ∧ ∀ (d : Nat) (del : Deletion), s.deletions[d]? = some del →
      del.holding = true → ∀ c ∈ del.cancelled, c.id = i → c.status.live = false))

def Bounded (s : System) : Prop :=
  ∀ i r lease, s.table.row i = some r → r.leaseUntil = some lease → lease ≤ s.clock + 120

section

variable {s s' : System} {e : Event} {i : Nat} {r : OutboundContactRequest} {lease : Int}

theorem clock_claim {t₁ t₂ t₃ : Int} (h : step s (.claim t₁ t₂ t₃) = some s') : s'.clock = t₃ := by
  simp only [step] at h
  split at h <;> cases h <;> rfl

theorem clock_finish {k : Nat} {t₁ t₂ : Int} (h : step s (.finish k t₁ t₂) = some s') :
    s'.clock = t₂ := by
  simp only [step] at h
  split at h <;> cases h
  rfl

theorem clock_revoke {d : Nat} {checked stamped : Nat → Int} {done : Int}
    (h : step s (.revoke d checked stamped done) = some s') : s'.clock = done := by
  simp only [step] at h
  repeat' split at h
  all_goals cases h
  all_goals rfl

theorem clock_le (ht : Ticks s e) (h : step s e = some s') : s.clock ≤ s'.clock := by
  cases e with
  | post d t | expire t =>
      cases h
      exact ht
  | claim t₁ t₂ t₃ =>
      obtain ⟨h₁, h₂, h₃⟩ := ht
      rw [clock_claim h]
      omega
  | finish k t₁ t₂ =>
      obtain ⟨h₁, h₂⟩ := ht
      rw [clock_finish h]
      omega
  | revoke d checked stamped done =>
      rw [clock_revoke h]
      exact ht.1
  | bind | look | delete | native | restore =>
      simp only [step] at h
      repeat' split at h
      all_goals cases h
      all_goals exact Int.le_refl _

theorem checked_le {d : Nat} {checked stamped : Nat → Int} {done : Int}
    (ht : Ticks s (.revoke d checked stamped done)) (hr : s.table.row i = some r) :
    checked r.id ≤ done :=
  (ht.2 r (Table.row_eq_some.mp hr).1).2

theorem bounded_step (hb : Bounded s) (ht : Ticks s e) (h : step s e = some s') : Bounded s' := by
  intro i r' lease hr' hl
  have hclock := clock_le ht h
  obtain ⟨r, hr, hch⟩ | ⟨-, d, t, -, rfl⟩ := step_row_inv h hr'
  · cases hch with
    | kept | bound | restored =>
        have := hb i _ lease hr hl
        omega
    | expired | revoked => cases hl
    | @claimed t₁ t₂ t₃ _ hcl =>
        have hl' : t₃ + 120 = lease := by simpa [setLease] using hl
        rw [clock_claim h]
        omega
    | settled _ _ hf =>
        rw [hf.lease_eq] at hl
        cases hl
  · cases hl

/-- The records of the requests that still hold a dead row stay dead. -/
theorem records_dead (h : step s e = some s') (hr : s.table.row i = some r)
    (hd : r.status.live = false) (hall : ∀ (d : Nat) (del : Deletion), s.deletions[d]? = some del →
      del.holding = true → ∀ c ∈ del.cancelled, c.id = i → c.status.live = false) :
    ∀ (d : Nat) (del : Deletion), s'.deletions[d]? = some del → del.holding = true →
      ∀ c ∈ del.cancelled, c.id = i → c.status.live = false := by
  intro d del hdel hh c hc hi
  obtain ⟨old, hk, hh', -, -, hcc, -⟩ | ⟨checked, stamped, done, -, hrv, -⟩ := step_holding h hdel hh
  · exact hall d old hk hh' c (hcc ▸ hc) hi
  · obtain ⟨q, hq, -, -, rfl⟩ := (revokeNames_cancelled hrv c).mp hc
    rw [hi, hr] at hq
    cases hq
    exact hd

/-- No request holds a row that is leased, for what it holds is revoked. -/
theorem records_leased (hc : Coherent s) (hr : s.table.row i = some r)
    (hl : r.leaseUntil ≠ none) (d : Nat) (del : Deletion) (hd : s.deletions[d]? = some del)
    (hh : del.holding = true) : ∀ c ∈ del.cancelled, c.id ≠ i := by
  rintro c hcd rfl
  obtain ⟨q, hq, hst⟩ := hc.revoked d del hd hh c hcd
  rw [hr] at hq
  cases hq
  have := hc.leased c.id r hr hl
  rw [hst] at this
  cases this

theorem spent_step (hc : Coherent s) (ht : Ticks s e) (h : step s e = some s')
    (hs : Spent s i lease) : Spent s' i lease := by
  obtain ⟨r, hr, hne, hcase⟩ := hs
  obtain ⟨r', hr', hch⟩ := step_row h hr
  have hclock := clock_le ht h
  refine ⟨r', hr', ?_⟩
  cases hch with
  | kept | bound =>
      refine ⟨hne, ?_⟩
      obtain hlt | hlt | ⟨hd, hall⟩ := hcase
      · exact .inl (by omega)
      · exact .inr (.inl hlt)
      · exact .inr (.inr ⟨hd, records_dead h hr hd hall⟩)
  | expired _ ho =>
      refine ⟨nofun, ?_⟩
      obtain hlt | ⟨-, hlt⟩ | ⟨hd, -⟩ := hcase
      · exact .inl (by omega)
      · exact .inr (.inl ⟨rfl, hlt⟩)
      · rw [Status.live_of_waiting (Bool.and_eq_true _ _ ▸ ho).1] at hd
        cases hd
  | @claimed t₁ t₂ t₃ _ hcl =>
      obtain ⟨h₁, h₂, h₃⟩ := ht
      have hlt : lease < t₃ + 120 := by
        obtain hlt | ⟨-, hlt⟩ | ⟨hd, -⟩ := hcase
        · omega
        · have := next_le_of_claimable hcl
          omega
        · rw [live_of_claimable hcl] at hd
          cases hd
      rw [clock_claim h]
      refine ⟨fun he => ?_, .inl hlt⟩
      have : t₃ + 120 = lease := by simpa [setLease] using he
      omega
  | settled hk hh hf =>
      refine ⟨by rw [hf.lease_eq]; nofun, ?_⟩
      have hl : r.leaseUntil = some _ := of_decide_eq_true (Bool.and_eq_true _ _ ▸ hh).2
      obtain hlt | ⟨hn, -⟩ | ⟨hd, -⟩ := hcase
      · exact .inl (by omega)
      · rw [hn] at hl
        cases hl
      · rw [hc.leased i r hr (by simp [hl])] at hd
        cases hd
  | revoked =>
      refine ⟨nofun, ?_⟩
      obtain hlt | ⟨-, hlt⟩ | ⟨hd, hall⟩ := hcase
      · exact .inl (by omega)
      · exact .inr (.inl ⟨rfl, hlt⟩)
      · exact .inr (.inr ⟨rfl, records_dead h hr hd hall⟩)
  | restored hdel hold hmem hid =>
      refine ⟨hne, ?_⟩
      obtain hlt | hlt | ⟨hd, hall⟩ := hcase
      · exact .inl (by omega)
      · exact .inr (.inl hlt)
      · exact .inr (.inr ⟨hall _ _ hdel hold _ hmem (hid.trans (Table.row_id hr)),
          records_dead h hr hd hall⟩)

/-- An event that ends the claim leaves the row without the lease. -/
theorem ends_lease (ht : Ticks s e) (h : step s e = some s') (he : Ends s e s' i)
    (hr : s.table.row i = some r) (hl : r.leaseUntil = some lease) :
    s'.table.row i ≠ some r := by
  intro hr'
  cases he with
  | claimed hev hround hi =>
      subst hev hi
      obtain ⟨-, -, q, hq, hcl, -, hrow⟩ := step_claim h hround
      rw [hr] at hq
      cases hq
      rw [hr'] at hrow
      have hlease : r.leaseUntil = some (_ + 120) := congrArg OutboundContactRequest.leaseUntil
        (Option.some.inj hrow)
      have := lease_le_of_claimable hcl hlease
      obtain ⟨h₁, h₂, h₃⟩ := ht
      omega
  | expired _ hq _ hrow =>
      rw [hr] at hq
      cases hq
      rw [hr'] at hrow
      have : r.leaseUntil = none := congrArg OutboundContactRequest.leaseUntil (Option.some.inj hrow)
      rw [hl] at this
      cases this
  | revoked hev hdel hst hmem =>
      subst hev
      obtain ⟨hrv, hcov⟩ := step_revoke h hdel hst
      obtain ⟨q, hq, hn⟩ := mem_existing.mp (hcov ▸ hmem)
      rw [hr] at hq
      cases hq
      obtain ⟨stamp, hrow⟩ := revokeNames_row hrv i
      rw [hr', hr, Option.map_some, if_pos hn] at hrow
      have : r.leaseUntil = none := congrArg OutboundContactRequest.leaseUntil (Option.some.inj hrow)
      rw [hl] at this
      cases this
  | recorded _ _ _ hne => exact hne (hr'.trans hr.symm)

theorem held_step (hc : Coherent s) (hb : Bounded s) (ht : Ticks s e) (h : step s e = some s')
    (hh : Held s i lease) : (Held s' i lease ∧ ¬Ends s e s' i) ∨ Spent s' i lease := by
  obtain ⟨r, hr, hl⟩ := hh
  obtain ⟨r', hr', hch⟩ := step_row h hr
  have hlive := hc.leased i r hr (by simp [hl])
  have hbound := hb i r lease hr hl
  cases hch with
  | kept => exact .inl ⟨⟨r, hr', hl⟩, fun he => ends_lease ht h he hr hl hr'⟩
  | bound =>
      refine .inl ⟨⟨_, hr', hl⟩, fun he => ?_⟩
      cases he with
      | expired hev => obtain hev | ⟨_, _, hev⟩ := hev <;> cases hev
      | claimed hev | revoked hev | recorded hev => cases hev
  | expired ho hov =>
      refine .inr ⟨_, hr', nofun, .inr (.inr ⟨not_live_expire _ _, ?_⟩)⟩
      intro d del hdel hold c hcd hi
      obtain ⟨old, hk, hh', -, -, hcc, -⟩ | ⟨checked, stamped, done, he, -, -⟩ :=
        step_holding h hdel hold
      · exact absurd hi (records_leased hc hr (by simp [hl]) d old hk hh' c (hcc ▸ hcd))
      · obtain ho | ⟨_, _, ho⟩ := ho <;> rw [ho] at he <;> cases he
  | @claimed t₁ t₂ t₃ _ hcl =>
      obtain ⟨h₁, h₂, h₃⟩ := ht
      have hle := lease_le_of_claimable hcl hl
      refine .inr ⟨_, hr', fun he => ?_, .inl (by rw [clock_claim h]; omega)⟩
      have : t₃ + 120 = lease := by simpa [setLease] using he
      omega
  | @settled k a j _ t₁ t₂ f _ hk hhold hf =>
      refine .inr ⟨_, hr', by rw [hf.lease_eq]; nofun, .inr (.inl ⟨hf.lease_eq _, ?_⟩)⟩
      obtain ⟨h₁, h₂⟩ := ht
      have := hf.next_gt (setReview (outcome a j).1 r)
      omega
  | revoked hdel hn hchecked =>
      refine .inr ⟨_, hr', nofun, .inl ?_⟩
      have h₁ := hchecked (fun hst => by rw [hst] at hlive; cases hlive) lease hl
      have h₂ := checked_le ht hr
      rw [clock_revoke h]
      omega
  | restored _ _ _ _ hst =>
      rw [hst] at hlive
      cases hlive

theorem bounded_of_trace {clock : Int} {es : List Event}
    (h : Trace step Ticks (init clock) es s) : Bounded s :=
  h.invariant (fun _ _ _ hr => nomatch hr) fun _ _ _ hb ht hs => bounded_step hb ht hs

/-- Along a run after the claim, the row keeps the lease in quiet or can never have it again. -/
theorem held_run {es : List Event} {u : System} (hc : Coherent s) (hb : Bounded s)
    (hh : Held s i lease) (h : Trace step Ticks s es u) : Coherent u ∧ Bounded u ∧
      ((Held u i lease ∧ Trace step (Quiet i) s es u) ∨ Spent u i lease) := by
  induction h with
  | nil => exact ⟨hc, hb, .inl ⟨hh, .nil⟩⟩
  | snoc _ hg hs ih =>
      obtain ⟨hct, hbt, ⟨hheld, hquiet⟩ | hsp⟩ := ih
      · refine ⟨hct.step hs, bounded_step hbt hg hs, ?_⟩
        obtain ⟨hheld', hne⟩ | hsp := held_step hct hbt hg hs hheld
        · refine .inl ⟨hheld', .snoc hquiet (fun v hv => ?_) hs⟩
          cases hs.symm.trans hv
          exact hne
        · exact .inr hsp
      · exact ⟨hct.step hs, bounded_step hbt hg hs, .inr (spent_step hct hg hs hsp)⟩

theorem Spent.not_held (h : Spent s i lease) : ¬Held s i lease := by
  obtain ⟨r, hr, hne, -⟩ := h
  rintro ⟨q, hq, hl⟩
  rw [hr] at hq
  cases hq
  exact hne hl

/-- The two writes of round `k` after its claim. -/
def writes (k : Nat) : Event → Prop
  | .bind k' _ | .finish k' _ _ => k' = k
  | _ => False

def finishes (k : Nat) : Event → Bool
  | .finish k' _ _ => k' == k
  | _ => false

def Done (s : System) (k : Nat) : Prop := ∃ round, s.rounds[k]? = some round ∧ round.stage = .done

theorem finish_done {k : Nat} (h : step s e = some s') (hf : finishes k e = true) :
    Done s' k ∧ ¬Done s k := by
  cases e with
  | finish k' t₁ t₂ =>
      obtain rfl : k' = k := by simpa [finishes] using hf
      simp only [step] at h
      split at h <;> cases h
      rename_i job lease a hk
      refine ⟨⟨⟨job, lease, .done⟩, ?_, rfl⟩, ?_⟩
      · have hlt := (List.getElem?_eq_some_iff.mp hk).1
        simp [hlt]
      · rintro ⟨round, hr, hd⟩
        rw [hk] at hr
        cases hr
        cases hd
  | _ => cases hf

theorem done_step {k : Nat} (h : step s e = some s') (hd : Done s k) : Done s' k := by
  obtain ⟨round, hk, hst⟩ := hd
  have hset {k' : Nat} {old new : Round} (ho : s.rounds[k']? = some old) (hs : old.stage ≠ .done)
      (he : s'.rounds = s.rounds.set k' new) : Done s' k := by
    have hne : k' ≠ k := by
      rintro rfl
      rw [hk] at ho
      cases ho
      exact hs hst
    exact ⟨round, by rw [he, List.getElem?_set_ne hne, hk], hst⟩
  obtain he | ⟨_, _, _, new, -, he⟩ | ⟨k', a, job, lease, -, ho, he⟩ | ⟨k', a, job, lease, _, _, -, ho, he⟩ :=
    step_rounds_eq h
  · exact ⟨round, by rw [he, hk], hst⟩
  · exact ⟨round, by rw [he, List.getElem?_append_left (List.getElem?_eq_some_iff.mp hk).1, hk], hst⟩
  · exact hset ho nofun he
  · exact hset ho nofun he

theorem one_outcome {guard : System → Event → Prop} {k : Nat} {es : List Event}
    (h : Trace step guard s es s') : es.countP (finishes k) ≤ 1 := by
  have hcount : es.countP (finishes k) = 0 ∨ es.countP (finishes k) = 1 ∧ Done s' k := by
    refine h.history (I := fun es s' => es.countP (finishes k) = 0 ∨
      es.countP (finishes k) = 1 ∧ Done s' k) (.inl rfl) ?_
    intro es t e u hi _ hs
    rw [List.countP_append, List.countP_singleton]
    by_cases hf : finishes k e = true
    · obtain ⟨hdone, hnot⟩ := finish_done hs hf
      obtain h0 | ⟨-, hd⟩ := hi
      · exact .inr ⟨by rw [h0, if_pos hf], hdone⟩
      · exact absurd hd hnot
    · rw [if_neg hf, Nat.add_zero]
      exact hi.imp_right fun ⟨h1, hd⟩ => ⟨h1, done_step hs hd⟩
  omega

theorem write_holds {k : Nat} {round : Round} (h : step s e = some s') (hw : writes k e)
    (hk : s.rounds[k]? = some round) (hne : s'.table.row i ≠ s.table.row i) :
    i = round.job.id ∧ Held s i round.lease := by
  cases hr : s.table.row i with
  | none =>
      cases hr' : s'.table.row i with
      | none => exact absurd (hr'.trans hr.symm) hne
      | some r' =>
          obtain ⟨d, t, rfl, -⟩ := step_new h hr hr'
          cases hw
  | some r =>
      obtain ⟨r', hr', hch⟩ := step_row h hr
      cases hch with
      | kept => exact absurd (hr'.trans hr.symm) hne
      | expired he => obtain rfl | ⟨_, _, rfl⟩ := he <;> cases hw
      | claimed | revoked | restored => cases hw
      | bound hk' hh | settled hk' hh _ =>
          cases hw
          rw [hk] at hk'
          cases hk'
          obtain ⟨hid, hl⟩ := Bool.and_eq_true _ _ ▸ hh
          exact ⟨(Table.row_id hr).symm.trans (eq_of_beq hid), r, hr, of_decide_eq_true hl⟩

def delivers : Event → Prop
  | .claim .. | .bind .. | .finish .. => True
  | _ => False

theorem delivery_keeps_dead {r' : OutboundContactRequest} (hc : Coherent s)
    (h : step s e = some s') (hw : delivers e) (hr : s.table.row i = some r)
    (hd : r.status.live = false) (hr' : s'.table.row i = some r') : r'.status = r.status := by
  obtain ⟨q, hq, hch⟩ := step_row h hr
  rw [hr'] at hq
  cases hq
  cases hch with
  | kept | bound => rfl
  | expired _ ho =>
      rw [Status.live_of_waiting (Bool.and_eq_true _ _ ▸ ho).1] at hd
      cases hd
  | claimed hcl =>
      rw [live_of_claimable hcl] at hd
      cases hd
  | settled _ hh _ =>
      have hl : r.leaseUntil = some _ := of_decide_eq_true (Bool.and_eq_true _ _ ▸ hh).2
      rw [hc.leased i r hr (by simp [hl])] at hd
      cases hd
  | revoked | restored => cases hw

/-- The lease is a fence. A later write of a round changes only the row the round has claimed, and
only if nothing has claimed, expired, revoked or settled that row since; a round writes at most
one outcome; and delivery leaves the status of a row alone once it is no longer live. -/
theorem delivery_fenced {clock : Int} {es : List Event} (h : Trace step Ticks (init clock) es s) :
    (∀ t₁ t₂ t₃ s₁ round es' s₂, Ticks s (.claim t₁ t₂ t₃) → step s (.claim t₁ t₂ t₃) = some s₁ →
      s₁.rounds = s.rounds ++ [round] → Trace step Ticks s₁ es' s₂ →
        es'.countP (finishes s.rounds.length) ≤ 1 ∧
        ∀ e s₃ i, writes s.rounds.length e → step s₂ e = some s₃ →
          s₃.table.row i ≠ s₂.table.row i →
            i = round.job.id ∧ Trace step (Quiet round.job.id) s₁ es' s₂) ∧
    ∀ e s' i r r', delivers e → step s e = some s' → s.table.row i = some r →
      r.status.live = false → s'.table.row i = some r' → r'.status = r.status := by
  have hc := coherent_of_trace h
  refine ⟨?_, fun e s' i r r' hw hs hr hd hr' => delivery_keeps_dead hc hs hw hr hd hr'⟩
  intro t₁ t₂ t₃ s₁ round es' s₂ htick hs hround h'
  refine ⟨one_outcome h', fun e s₃ i hw hs₃ hne => ?_⟩
  obtain ⟨hlease, -, r, -, -, -, hrow⟩ := step_claim hs hround
  have hheld : Held s₁ round.job.id round.lease := ⟨_, hrow, by rw [hlease]; rfl⟩
  have hk : s₁.rounds[s.rounds.length]? = some round := by simp [hround]
  obtain ⟨stage, hk₂⟩ := round_kept_run h' hk
  obtain ⟨hi, hnow⟩ := write_holds hs₃ hw hk₂ hne
  have hi' : i = round.job.id := hi
  subst hi'
  obtain ⟨-, -, ⟨-, hquiet⟩ | hsp⟩ :=
    held_run (hc.step hs) (bounded_step (bounded_of_trace h) htick hs) hheld h'
  · exact ⟨rfl, hquiet⟩
  · exact absurd hnow hsp.not_held

end

theorem delivery_fenced_run : ∃ s s₁ s₂ s₃ round,
    run step Ticks (init 0) [.post (request "b" 'x' 1000) 0] = some s ∧
      step s (.claim 0 0 0) = some s₁ ∧ s₁.rounds = s.rounds ++ [round] ∧
      step s₁ (.bind 0 unreachable) = some s₂ ∧ step s₂ (.finish 0 1 1) = some s₃ ∧
      Trace step (Quiet 1) s₁ [.bind 0 unreachable] s₂ := by
  obtain ⟨s, hs⟩ : ∃ s, run step Ticks (init 0) [.post (request "b" 'x' 1000) 0] = some s :=
    ⟨_, rfl⟩
  obtain ⟨s₁, h₁⟩ : ∃ s₁, step s (.claim 0 0 0) = some s₁ := by cases hs; exact ⟨_, rfl⟩
  obtain ⟨s₂, h₂⟩ : ∃ s₂, step s₁ (.bind 0 unreachable) = some s₂ := by
    cases hs; cases h₁; exact ⟨_, rfl⟩
  obtain ⟨s₃, h₃⟩ : ∃ s₃, step s₂ (.finish 0 1 1) = some s₃ := by
    cases hs; cases h₁; cases h₂; exact ⟨_, rfl⟩
  obtain ⟨round, hround, hid⟩ : ∃ round, s₁.rounds = s.rounds ++ [round] ∧ round.job.id = 1 := by
    cases hs; cases h₁; exact ⟨_, rfl, rfl⟩
  have hlen : s.rounds.length = 0 := by cases hs; rfl
  have hne : s₃.table.row 1 ≠ s₂.table.row 1 := by
    cases hs; cases h₁; cases h₂; cases h₃
    intro h
    have := congrArg (Option.map OutboundContactRequest.nextAttemptAt) h
    revert this
    decide
  refine ⟨s, s₁, s₂, s₃, round, hs, h₁, hround, h₂, h₃, ?_⟩
  have htick : Ticks s (.claim 0 0 0) := by cases hs; decide
  have hbind : Trace step Ticks s₁ [.bind 0 unreachable] s₂ := Trace.cons trivial h₂ .nil
  have hfenced := (delivery_fenced (trace_of_run hs)).1 0 0 0 s₁ round _ s₂ htick h₁ hround hbind
  rw [← hid]
  exact (hfenced.2 (.finish 0 1 1) s₃ 1 hlen.symm h₃ hne).2

end Pishoo.LeaseFencing
