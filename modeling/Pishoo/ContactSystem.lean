import Pishoo.Machine
import Pishoo.Dispatch

namespace Pishoo.ContactSystem

open Outbound Delivery Dispatch Machine

inductive RoundStage
  | claimed
  | exchanged (a : Answers)
  | done

/-- One run of `deliver` that has claimed a row. -/
structure Round where
  job : DeliveryJob
  lease : Int
  stage : RoundStage

inductive DeletionStage
  | looking (todo : List String)
  | revoked
  | refused (e : Failure)
  | answered (result : Except Failure Unit)

/-- One `DELETE /std/contact` request. `covered` lists the rows that existed for its names when
it revoked them. -/
structure Deletion where
  names : List String
  persisted : List String
  covered : List Nat
  cancelled : List Cancelled
  stage : DeletionStage

/-- The request has revoked rows and has not answered yet. -/
def Deletion.holding (del : Deletion) : Bool :=
  match del.stage with
  | .revoked | .refused _ => true
  | _ => false

def Deletion.succeeded (del : Deletion) : Bool :=
  match del.stage with
  | .answered (.ok _) => true
  | _ => false

structure System where
  table : Table
  clock : Int
  rounds : List Round
  deletions : List Deletion

def init (clock : Int) : System := ⟨.empty, clock, [], []⟩

inductive Event
  | post (d : Draft) (t : Int)
  | expire (t : Int)
  | claim (t₁ t₂ t₃ : Int)
  | bind (k : Nat) (a : Answers)
  | finish (k : Nat) (t₁ t₂ : Int)
  | delete (names : List String)
  | look (d : Nat) (answer : Except Failure Bool)
  | revoke (d : Nat) (checked stamped : Nat → Int) (done : Int)
  | native (d : Nat) (answer : Except Failure Unit)
  | restore (d : Nat)

/-- A transaction that fails leaves the table as it was. -/
def committed (t : Table) : Except Failure Table → Table
  | .ok u => u
  | .error _ => t

def bound (t : Table) (job : DeliveryJob) (lease : Int) : Except Failure Exchange → Table
  | .ok x => committed t (Delivery.bind t job.id lease x.localId x.localSubject)
  | .error _ => t

def looked (t : Table) (del : Deletion) (name : String) (todo : List String) :
    Except Failure Bool → Deletion
  | .ok true => { del with persisted := del.persisted ++ [name], stage := .looking todo }
  | .ok false =>
      if t.rows.any (fun r => r.targetName == name) then { del with stage := .looking todo }
      else { del with stage := .answered (.error (fail 404 "contact not found")) }
  | .error e => { del with stage := .answered (.error e) }

def existing (t : Table) (names : List String) : List Nat :=
  (t.rows.filter (fun r => names.contains r.targetName)).map OutboundContactRequest.id

def step (s : System) : Event → Option System
  | .post d t => some { s with table := committed s.table (Dispatch.post s.table d t), clock := t }
  | .expire t => some { s with table := committed s.table (expireRequests s.table t), clock := t }
  | .claim t₁ t₂ t₃ => match Delivery.claim s.table t₁ t₂ t₃ with
      | .error _ => some { s with clock := t₃ }
      | .ok (t, none) => some { s with table := t, clock := t₃ }
      | .ok (t, some (job, lease)) =>
          some { s with table := t, clock := t₃, rounds := s.rounds ++ [⟨job, lease, .claimed⟩] }
  | .bind k a => match s.rounds[k]? with
      | some ⟨job, lease, .claimed⟩ => some { s with
          table := bound s.table job lease (exchange a job).2
          rounds := s.rounds.set k ⟨job, lease, .exchanged a⟩ }
      | _ => none
  | .finish k t₁ t₂ => match s.rounds[k]? with
      | some ⟨job, lease, .exchanged a⟩ => some { s with
          table := committed s.table
            (record s.table job.id lease (outcome a job).1 (outcome a job).2 t₁ t₂)
          clock := t₂
          rounds := s.rounds.set k ⟨job, lease, .done⟩ }
      | _ => none
  | .delete names =>
      if names = [] then none
      else some { s with deletions := s.deletions ++ [⟨names, [], [], [], .looking names⟩] }
  | .look d answer => match s.deletions[d]? with
      | some del => match del.stage with
          | .looking (name :: todo) => some { s with
              deletions := s.deletions.set d (looked s.table del name todo answer) }
          | _ => none
      | none => none
  | .revoke d checked stamped done => match s.deletions[d]? with
      | some del => match del.stage with
          | .looking [] => match revokeNames s.table checked stamped del.names with
              | .ok (t, cancelled) => some { s with
                  table := t
                  clock := done
                  deletions := s.deletions.set d { del with
                    covered := existing s.table del.names, cancelled, stage := .revoked } }
              | .error e => some { s with
                  clock := done
                  deletions := s.deletions.set d { del with stage := .answered (.error e) } }
          | _ => none
      | none => none
  | .native d answer => match s.deletions[d]? with
      | some del => match del.stage with
          | .revoked => match (if del.persisted = [] then .ok () else answer) with
              | .ok _ => some { s with
                  deletions := s.deletions.set d { del with stage := .answered (.ok ()) } }
              | .error e => some { s with
                  deletions := s.deletions.set d { del with stage := .refused e } }
          | _ => none
      | none => none
  | .restore d => match s.deletions[d]? with
      | some del => match del.stage with
          | .refused e => match restoreAll s.table del.cancelled with
              | .ok t => some { s with
                  table := t
                  deletions := s.deletions.set d { del with stage := .answered (.error e) } }
              | .error e' => some { s with
                  deletions := s.deletions.set d { del with stage := .answered (.error e') } }
          | _ => none
      | none => none

/-- Everything that one step can do to one row. -/
inductive Change (s : System) : Event → OutboundContactRequest → OutboundContactRequest → Prop
  | kept {e r} : Change s e r r
  | expired {e t r} : (e = .expire t ∨ ∃ t₂ t₃, e = .claim t t₂ t₃) → overdue t r = true →
      Change s e r (expire t r)
  | claimed {t₁ t₂ t₃ r} : claimable t₂ r = true →
      Change s (.claim t₁ t₂ t₃) r (setLease (t₃ + 120) r)
  | bound {k a job lease r localId localSubject} :
      s.rounds[k]? = some ⟨job, lease, .claimed⟩ → holds job.id lease r = true →
      Change s (.bind k a) r (setContact localId localSubject r)
  | settled {k a job lease t₁ t₂ f r} : s.rounds[k]? = some ⟨job, lease, .exchanged a⟩ →
      holds job.id lease r = true → Settles (outcome a job).2 t₁ t₂ f →
      Change s (.finish k t₁ t₂) r (f (setReview (outcome a job).1 r))
  | revoked {d del checked stamped done stamp r} : s.deletions[d]? = some del →
      r.targetName ∈ del.names →
      (r.status ≠ .revoked → ∀ lease ∈ r.leaseUntil, lease ≤ checked r.id) →
      Change s (.revoke d checked stamped done) r (revoke stamp r)
  | restored {d del c r} : s.deletions[d]? = some del → del.holding = true → c ∈ del.cancelled →
      c.id = r.id → r.status = .revoked → Change s (.restore d) r (restore c r)

section

variable {s s' : System} {e : Event} {i : Nat} {r r' : OutboundContactRequest}

theorem row_committed {t : Table} {x : Except Failure Table} {P : Option OutboundContactRequest → Prop}
    (hk : P (t.row i)) (hx : ∀ u, x = .ok u → P (u.row i)) : P ((committed t x).row i) := by
  cases x with
  | error e => exact hk
  | ok u => exact hx u rfl

theorem step_row (h : step s e = some s') (hr : s.table.row i = some r) :
    ∃ r', s'.table.row i = some r' ∧ Change s e r r' := by
  have hkept : ∃ r', s.table.row i = some r' ∧ Change s e r r' := ⟨r, hr, .kept⟩
  cases e with
  | post d t =>
      cases h
      apply row_committed (P := fun o => ∃ r', o = some r' ∧ Change s (.post d t) r r') hkept
      intro u hu
      rw [Table.insert_row (post_ok hu), if_neg, hr]
      · exact ⟨r, rfl, .kept⟩
      · rintro rfl
        rw [Table.row_eq_none (by omega)] at hr
        cases hr
  | expire t =>
      cases h
      apply row_committed (P := fun o => ∃ r', o = some r' ∧ Change s (.expire t) r r') hkept
      intro u hu
      rw [expireRequests_row hu, hr, Option.map_some]
      refine ⟨_, rfl, ?_⟩
      split
      · exact .expired (.inl rfl) ‹_›
      · exact .kept
  | claim t₁ t₂ t₃ =>
      simp only [step] at h
      split at h
      · cases h
        exact hkept
      · rename_i t hc
        cases h
        rw [expireRequests_row (claim_idle hc), hr, Option.map_some]
        refine ⟨_, rfl, ?_⟩
        split
        · exact .expired (.inr ⟨t₂, t₃, rfl⟩) ‹_›
        · exact .kept
      · rename_i t job lease hc
        cases h
        obtain ⟨rfl, q, hq, hcl, ho, hj, hrow⟩ := claim_claims hc
        rw [hrow, hr, Option.map_some]
        refine ⟨_, rfl, ?_⟩
        split
        · exact .expired (.inr ⟨t₂, t₃, rfl⟩) ‹_›
        · split
          · rename_i hid
            rw [← hid, Table.row_id hr, hr] at hq
            cases hq
            exact .claimed hcl
          · exact .kept
  | bind k a =>
      simp only [step] at h
      split at h
      · rename_i job lease hk
        cases h
        cases hx : (exchange a job).2 with
        | error e => simpa only [bound] using hkept
        | ok x =>
            apply row_committed (P := fun o => ∃ r', o = some r' ∧ Change s (.bind k a) r r') hkept
            intro u hu
            rw [bind_row hu, hr, Option.map_some]
            refine ⟨_, rfl, ?_⟩
            split
            · rename_i hp
              exact .bound hk (Bool.and_eq_true _ _ ▸ hp).1
            · exact .kept
      · cases h
  | finish k t₁ t₂ =>
      simp only [step] at h
      split at h
      · rename_i job lease a hk
        cases h
        apply row_committed (P := fun o => ∃ r', o = some r' ∧ Change s (.finish k t₁ t₂) r r') hkept
        intro u hu
        obtain ⟨f, hf, hrow⟩ := record_row hu
        rw [hrow, hr, Option.map_some]
        refine ⟨_, rfl, ?_⟩
        split
        · exact .settled hk ‹_› hf
        · exact .kept
      · cases h
  | delete names =>
      simp only [step] at h
      split at h
      · cases h
      · cases h
        exact hkept
  | look d answer =>
      simp only [step] at h
      repeat' split at h
      all_goals cases h
      exact hkept
  | revoke d checked stamped done =>
      simp only [step] at h
      repeat' split at h
      all_goals cases h
      · rename_i del hd _ hs _ t cancelled hrv
        obtain ⟨stamp, hrow⟩ := revokeNames_row hrv i
        rw [hrow, hr, Option.map_some]
        refine ⟨_, rfl, ?_⟩
        split
        · rename_i hn
          refine .revoked hd hn fun hst => ?_
          have := revokeNames_unleased hrv hr hn hst
          rwa [← Table.row_id hr] at this
        · exact .kept
      · exact hkept
  | native d answer =>
      simp only [step] at h
      repeat' split at h
      all_goals cases h
      all_goals exact hkept
  | restore d =>
      simp only [step] at h
      repeat' split at h
      all_goals cases h
      · rename_i del hd _ e hs _ t ht
        have hold : del.holding = true := by rw [Deletion.holding, hs]
        obtain hk | ⟨c, hc, hci, hst, hrow⟩ := restoreAll_row ht hr
        · exact ⟨r, hk, .kept⟩
        · exact ⟨_, hrow, .restored hd hold hc (hci.trans (Table.row_id hr).symm) hst⟩
      · exact hkept

theorem step_new (h : step s e = some s') (hn : s.table.row i = none)
    (hr : s'.table.row i = some r') :
    ∃ d t, e = .post d t ∧ r' = { posted d t with id := s.table.sequence + 1 } := by
  have hkept {P : Prop} (hr : s.table.row i = some r') : P := by rw [hn] at hr; cases hr
  have hmap {P : Prop} {u : Table} {f : OutboundContactRequest → OutboundContactRequest}
      (hu : u.row i = (s.table.row i).map f) (hr : u.row i = some r') : P := by
    rw [hu, hn] at hr; cases hr
  have hcommitted {x : Except Failure Table} {P : Prop} (hr : (committed s.table x).row i = some r')
      (hx : ∀ u, x = .ok u → u.row i = some r' → P) : P := by
    cases x with
    | error e => exact hkept hr
    | ok u => exact hx u rfl hr
  cases e with
  | post d t =>
      cases h
      refine hcommitted hr fun u hu hur => ?_
      rw [Table.insert_row (post_ok hu), hn] at hur
      split at hur
      · cases hur
        exact ⟨d, t, rfl, rfl⟩
      · cases hur
  | expire t =>
      cases h
      exact hcommitted hr fun u hu => hmap (expireRequests_row hu i)
  | claim t₁ t₂ t₃ =>
      simp only [step] at h
      split at h
      · cases h
        exact hkept hr
      · rename_i t hc
        cases h
        exact hmap (expireRequests_row (claim_idle hc) i) hr
      · rename_i t job lease hc
        cases h
        obtain ⟨-, q, -, -, -, -, hrow⟩ := claim_claims hc
        exact hmap (hrow i) hr
  | bind k a =>
      simp only [step] at h
      split at h
      · rename_i job lease hk
        cases h
        cases hx : (exchange a job).2 with
        | error e => exact hkept (by simpa only [bound, hx] using hr)
        | ok x =>
            simp only [bound, hx] at hr
            exact hcommitted hr fun u hu => hmap (bind_row hu i)
      · cases h
  | finish k t₁ t₂ =>
      simp only [step] at h
      split at h
      · cases h
        refine hcommitted hr fun u hu => ?_
        obtain ⟨f, -, hrow⟩ := record_row hu
        exact hmap (hrow i)
      · cases h
  | delete names =>
      simp only [step] at h
      split at h
      · cases h
      · cases h
        exact hkept hr
  | look d answer =>
      simp only [step] at h
      repeat' split at h
      all_goals cases h
      exact hkept hr
  | revoke d checked stamped done =>
      simp only [step] at h
      repeat' split at h
      all_goals cases h
      · rename_i del hd _ hs _ t cancelled hrv
        obtain ⟨stamp, hrow⟩ := revokeNames_row hrv i
        exact hmap hrow hr
      · exact hkept hr
  | native d answer =>
      simp only [step] at h
      repeat' split at h
      all_goals cases h
      all_goals exact hkept hr
  | restore d =>
      simp only [step] at h
      repeat' split at h
      all_goals cases h
      · rename_i del hd _ e hs _ t ht
        rw [restoreAll_row_none ht hn] at hr
        cases hr
      · exact hkept hr

/-- Where a request of the next state comes from. -/
inductive Advance (s : System) (e : Event) (s' : System) (d : Nat) : Deletion → Prop
  | kept {del} : s.deletions[d]? = some del → e ≠ .restore d → Advance s e s' d del
  | early {del} : del.holding = false → del.succeeded = false → Advance s e s' d del
  | revoked {del checked stamped done cancelled} : e = .revoke d checked stamped done →
      s.deletions[d]? = some del → revokeNames s.table checked stamped del.names =
        .ok (s'.table, cancelled) →
      Advance s e s' d { del with
        covered := existing s.table del.names, cancelled, stage := .revoked }
  | succeeded {del answer} : e = .native d answer → s.deletions[d]? = some del →
      del.stage = .revoked → (if del.persisted = [] then .ok () else answer) = .ok () →
      s'.table = s.table → Advance s e s' d { del with stage := .answered (.ok ()) }
  | refused {del answer err} : e = .native d answer → s.deletions[d]? = some del →
      del.stage = .revoked → Advance s e s' d { del with stage := .refused err }

theorem advance_of_set {del del' : Deletion} {d d₀ : Nat}
    (hd : (s.deletions.set d₀ del)[d]? = some del')
    (hkept : d ≠ d₀ → e ≠ .restore d) (hset : d = d₀ → Advance s e s' d del) :
    Advance s e s' d del' := by
  rw [List.getElem?_set] at hd
  split at hd
  · rename_i he
    split at hd
    · cases hd
      exact hset he.symm
    · cases hd
  · rename_i he
    exact .kept hd (hkept fun h => he h.symm)

theorem step_deletion {d : Nat} {del' : Deletion} (h : step s e = some s')
    (hd : s'.deletions[d]? = some del') : Advance s e s' d del' := by
  cases e with
  | post | expire =>
      cases h
      exact .kept hd nofun
  | claim | bind | finish =>
      simp only [step] at h
      split at h <;> cases h <;> exact .kept hd nofun
  | delete names =>
      simp only [step] at h
      split at h
      · cases h
      · cases h
        rw [List.getElem?_append] at hd
        split at hd
        · exact .kept hd nofun
        · cases hn : d - s.deletions.length with
          | zero =>
              rw [hn] at hd
              cases hd
              exact .early rfl rfl
          | succ n => rw [hn] at hd; cases hd
  | look d₀ answer =>
      simp only [step] at h
      repeat' split at h
      all_goals cases h
      refine advance_of_set hd (fun _ => nofun) fun _ => ?_
      unfold looked
      repeat' split
      all_goals exact .early rfl rfl
  | revoke d₀ checked stamped done =>
      simp only [step] at h
      repeat' split at h
      all_goals cases h
      · rename_i del hd₀ _ hs _ t cancelled hrv
        refine advance_of_set hd (fun _ => nofun) ?_
        rintro rfl
        exact .revoked rfl hd₀ hrv
      · exact advance_of_set hd (fun _ => nofun) fun _ => .early rfl rfl
  | native d₀ answer =>
      simp only [step] at h
      repeat' split at h
      all_goals cases h
      · rename_i del hd₀ _ hs _ _ ha
        refine advance_of_set hd (fun _ => nofun) ?_
        rintro rfl
        exact .succeeded rfl hd₀ hs ha rfl
      · rename_i del hd₀ _ hs _ _ ha
        refine advance_of_set hd (fun _ => nofun) ?_
        rintro rfl
        exact .refused rfl hd₀ hs
  | restore d₀ =>
      simp only [step] at h
      repeat' split at h
      all_goals cases h
      all_goals
        refine advance_of_set hd (fun hne heq => hne ?_) fun _ => .early rfl rfl
        cases heq
        rfl

theorem Change.id_eq (h : Change s e r r') : r'.id = r.id := by
  cases h with
  | settled _ _ hf => exact hf.id_eq _
  | _ => rfl

theorem Change.target_eq (h : Change s e r r') : r'.targetName = r.targetName := by
  cases h with
  | settled _ _ hf => exact hf.target_eq _
  | _ => rfl

/-- What holds between the rows and the requests in every reachable state. -/
structure Coherent (s : System) : Prop where
  leased : ∀ (i : Nat) (r : OutboundContactRequest), s.table.row i = some r → r.leaseUntil ≠ none → r.status.live = true
  revoked : ∀ (d : Nat) (del : Deletion), s.deletions[d]? = some del → del.holding = true →
    ∀ c ∈ del.cancelled, ∃ r, s.table.row c.id = some r ∧ r.status = .revoked
  disjoint : ∀ (d₁ d₂ : Nat) (del₁ del₂ : Deletion), s.deletions[d₁]? = some del₁ → s.deletions[d₂]? = some del₂ →
    del₁.holding = true → del₂.holding = true →
      ∀ c₁ ∈ del₁.cancelled, ∀ c₂ ∈ del₂.cancelled, c₁.id = c₂.id → d₁ = d₂
  distinct : ∀ (d : Nat) (del : Deletion), s.deletions[d]? = some del → del.holding = true →
    (del.cancelled.map Cancelled.id).Nodup
  apart : ∀ (d : Nat) (del : Deletion), s.deletions[d]? = some del → del.holding = true →
    ∀ c₁ ∈ del.cancelled, ∀ c₂ ∈ del.cancelled, c₁.status.waiting = true →
      c₂.status.waiting = true → c₁.id ≠ c₂.id → ∀ r₁ r₂, s.table.row c₁.id = some r₁ →
        s.table.row c₂.id = some r₂ → r₁.targetName ≠ r₂.targetName

theorem coherent_init (clock : Int) : Coherent (init clock) := by
  constructor
  · exact fun i r h => nomatch h
  · exact fun d del h => nomatch h
  · exact fun d₁ d₂ del₁ del₂ h => nomatch h
  · exact fun d del h => nomatch h
  · exact fun d del h => nomatch h

/-- A row that is not live cannot be leased, so only a `DELETE` step touches its status. -/
theorem Change.dead (h : Change s e r r') (hc : Coherent s) (hr : s.table.row i = some r)
    (hd : r.status.live = false) : r'.status = r.status ∨ r'.status = .revoked ∨
      ∃ d del c, e = .restore d ∧ s.deletions[d]? = some del ∧ del.holding = true ∧
        c ∈ del.cancelled ∧ c.id = r.id ∧ r.status = .revoked ∧ r' = restore c r := by
  cases h with
  | kept | bound => exact .inl rfl
  | expired _ ho =>
      have hw : r.status.waiting = true := (Bool.and_eq_true _ _ ▸ ho).1
      rw [Status.live_of_waiting hw] at hd
      cases hd
  | claimed hcl =>
      rw [live_of_claimable hcl] at hd
      cases hd
  | settled _ hh _ =>
      have hl : r.leaseUntil = some _ := of_decide_eq_true (Bool.and_eq_true _ _ ▸ hh).2
      rw [hc.leased i r hr (by simp [hl])] at hd
      cases hd
  | revoked => exact .inr (.inl rfl)
  | restored hdel hold hmem hid hst =>
      exact .inr (.inr ⟨_, _, _, rfl, hdel, hold, hmem, hid, hst, rfl⟩)

theorem Change.lease_some (h : Change s e r r') (hl : r'.leaseUntil ≠ none)
    (hc : Coherent s) (hr : s.table.row i = some r) : r'.status.live = true := by
  cases h with
  | kept | bound => exact hc.leased i r hr hl
  | expired | revoked => exact absurd rfl hl
  | claimed hcl =>
      have := live_of_claimable hcl
      exact this
  | settled _ _ hf => exact absurd (hf.lease_eq _) hl
  | restored _ _ _ _ hst =>
      have := hc.leased i r hr hl
      rw [hst] at this
      cases this

theorem step_row_inv (h : step s e = some s') (hr : s'.table.row i = some r') :
    (∃ r, s.table.row i = some r ∧ Change s e r r') ∨
      s.table.row i = none ∧ ∃ d t, e = .post d t ∧
        r' = { posted d t with id := s.table.sequence + 1 } := by
  cases ho : s.table.row i with
  | none => exact .inr ⟨rfl, step_new h ho hr⟩
  | some r =>
      obtain ⟨q, hq, hch⟩ := step_row h ho
      rw [hr] at hq
      cases hq
      exact .inl ⟨r, rfl, hch⟩

/-- A request that still holds its rows either held them before the step or has just revoked
them. -/
theorem step_holding {d : Nat} {del' : Deletion} (h : step s e = some s')
    (hd : s'.deletions[d]? = some del') (hh : del'.holding = true) :
    (∃ del, s.deletions[d]? = some del ∧ del.holding = true ∧ del'.names = del.names ∧
      del'.covered = del.covered ∧ del'.cancelled = del.cancelled ∧ e ≠ .restore d) ∨
    ∃ checked stamped done, e = .revoke d checked stamped done ∧
      revokeNames s.table checked stamped del'.names = .ok (s'.table, del'.cancelled) ∧
      del'.covered = existing s.table del'.names := by
  cases step_deletion h hd with
  | kept hk hne => exact .inl ⟨del', hk, hh, rfl, rfl, rfl, hne⟩
  | early hf => rw [hf] at hh; cases hh
  | revoked he hk hrv => exact .inr ⟨_, _, _, he, hrv, rfl⟩
  | succeeded => cases hh
  | refused he hk hs =>
      refine .inl ⟨_, hk, ?_, rfl, rfl, rfl, ?_⟩
      · rw [Deletion.holding, hs]
      · rw [he]; nofun

theorem revoked_kept {d : Nat} {del : Deletion} (hc : Coherent s) (h : step s e = some s')
    (hd : s.deletions[d]? = some del) (hh : del.holding = true) (hne : e ≠ .restore d)
    {c : Cancelled} (hcd : c ∈ del.cancelled) :
    ∃ r r', s.table.row c.id = some r ∧ s'.table.row c.id = some r' ∧ r.status = .revoked ∧
      r'.status = .revoked ∧ r'.targetName = r.targetName := by
  obtain ⟨r, hr, hs⟩ := hc.revoked d del hd hh c hcd
  obtain ⟨r', hr', hch⟩ := step_row h hr
  refine ⟨r, r', hr, hr', hs, ?_, hch.target_eq⟩
  obtain hk | hk | ⟨d', del', c', rfl, hd', hh', hc', hid, -, -⟩ :=
    hch.dead hc hr (by rw [hs]; rfl)
  · exact hk.trans hs
  · exact hk
  · exact absurd (congrArg Event.restore (hc.disjoint d' d del' del hd' hd hh' hh c' hc' c hcd
      (hid.trans (Table.row_id hr)))) hne

theorem Coherent.step (hc : Coherent s) (h : step s e = some s') : Coherent s' := by
  have hfresh {d : Nat} {del' : Deletion} {checked stamped : Nat → Int}
      (hrv : revokeNames s.table checked stamped del'.names = .ok (s'.table, del'.cancelled))
      {c : Cancelled} (hcd : c ∈ del'.cancelled) : ∃ r r', s.table.row c.id = some r ∧
        s'.table.row c.id = some r' ∧ r.status ≠ .revoked ∧ r'.status = .revoked ∧
        r'.targetName = r.targetName ∧ c.status = r.status := by
    obtain ⟨r, hr, hn, hs, rfl⟩ := (revokeNames_cancelled hrv c).mp hcd
    obtain ⟨stamp, hrow⟩ := revokeNames_row hrv (cancelled r).id
    rw [hr, Option.map_some, if_pos hn] at hrow
    exact ⟨r, _, hr, hrow, hs, rfl, rfl, rfl⟩
  have hnew {d₁ : Nat} (d₂ : Nat) {del₁ del₂ : Deletion} {checked stamped : Nat → Int}
      (hd₁ : s.deletions[d₁]? = some del₁) (hh₁ : del₁.holding = true)
      (hrv : revokeNames s.table checked stamped del₂.names = .ok (s'.table, del₂.cancelled))
      {c₁ c₂ : Cancelled} (h₁ : c₁ ∈ del₁.cancelled) (h₂ : c₂ ∈ del₂.cancelled) :
      c₁.id ≠ c₂.id := by
    intro he
    obtain ⟨q, hq, hst⟩ := hc.revoked d₁ del₁ hd₁ hh₁ c₁ h₁
    obtain ⟨r, -, hr, -, hs, -⟩ := hfresh (d := d₂) hrv h₂
    rw [he, hr] at hq
    cases hq
    exact hs hst
  constructor
  · intro i r' hr' hl
    obtain ⟨r, hr, hch⟩ | ⟨-, d, t, -, rfl⟩ := step_row_inv h hr'
    · exact hch.lease_some hl hc hr
    · exact absurd rfl hl
  · intro d del' hd hh c hcd
    obtain ⟨del, hk, hh', -, -, hcc, hne⟩ | ⟨checked, stamped, done, -, hrv, -⟩ := step_holding h hd hh
    · obtain ⟨-, r', -, hr', -, hs, -⟩ := revoked_kept hc h hk hh' hne (hcc ▸ hcd)
      exact ⟨r', hr', hs⟩
    · obtain ⟨-, r', -, hr', -, hs, -⟩ := hfresh (d := d) hrv hcd
      exact ⟨r', hr', hs⟩
  · intro d₁ d₂ del₁' del₂' hd₁ hd₂ hh₁ hh₂ c₁ h₁ c₂ h₂ he
    obtain ⟨del₁, hk₁, hh₁', -, -, hcc₁, -⟩ | ⟨checked₁, stamped₁, done₁, he₁, hrv₁, -⟩ :=
      step_holding h hd₁ hh₁
    · obtain ⟨del₂, hk₂, hh₂', -, -, hcc₂, -⟩ | ⟨checked₂, stamped₂, done₂, he₂, hrv₂, -⟩ :=
        step_holding h hd₂ hh₂
      · exact hc.disjoint d₁ d₂ del₁ del₂ hk₁ hk₂ hh₁' hh₂' c₁ (hcc₁ ▸ h₁) c₂ (hcc₂ ▸ h₂) he
      · exact absurd he (hnew d₂ hk₁ hh₁' hrv₂ (hcc₁ ▸ h₁) h₂)
    · obtain ⟨del₂, hk₂, hh₂', -, -, hcc₂, -⟩ | ⟨checked₂, stamped₂, done₂, he₂, hrv₂, -⟩ :=
        step_holding h hd₂ hh₂
      · exact absurd he.symm (hnew d₁ hk₂ hh₂' hrv₁ (hcc₂ ▸ h₂) h₁)
      · rw [he₁] at he₂
        cases he₂
        rfl
  · intro d del' hd hh
    obtain ⟨del, hk, hh', -, -, hcc, -⟩ | ⟨checked, stamped, done, -, hrv, -⟩ := step_holding h hd hh
    · rw [hcc]
      exact hc.distinct d del hk hh'
    · exact revokeNames_nodup hrv
  · intro d del' hd hh c₁ h₁ c₂ h₂ hw₁ hw₂ hne r₁' r₂' hr₁' hr₂'
    obtain ⟨del, hk, hh', -, -, hcc, hnr⟩ | ⟨checked, stamped, done, -, hrv, -⟩ :=
      step_holding h hd hh
    · obtain ⟨r₁, q₁, hr₁, hq₁, -, -, ht₁⟩ := revoked_kept hc h hk hh' hnr (hcc ▸ h₁)
      obtain ⟨r₂, q₂, hr₂, hq₂, -, -, ht₂⟩ := revoked_kept hc h hk hh' hnr (hcc ▸ h₂)
      rw [hr₁'] at hq₁
      rw [hr₂'] at hq₂
      cases hq₁
      cases hq₂
      rw [ht₁, ht₂]
      exact hc.apart d del hk hh' c₁ (hcc ▸ h₁) c₂ (hcc ▸ h₂) hw₁ hw₂ hne r₁ r₂ hr₁ hr₂
    · obtain ⟨r₁, q₁, hr₁, hq₁, -, -, ht₁, hs₁⟩ := hfresh (d := d) hrv h₁
      obtain ⟨r₂, q₂, hr₂, hq₂, -, -, ht₂, hs₂⟩ := hfresh (d := d) hrv h₂
      rw [hr₁'] at hq₁
      rw [hr₂'] at hq₂
      cases hq₁
      cases hq₂
      rw [ht₁, ht₂]
      exact Table.waiting_target_ne hr₁ hr₂ (hs₁ ▸ hw₁) (hs₂ ▸ hw₂) hne

theorem step_claim {t₁ t₂ t₃ : Int} {round : Round} (h : ContactSystem.step s (.claim t₁ t₂ t₃) = some s')
    (hround : s'.rounds = s.rounds ++ [round]) : round.lease = t₃ + 120 ∧ round.stage = .claimed ∧
      ∃ r, s.table.row round.job.id = some r ∧ claimable t₂ r = true ∧ job r = .ok round.job ∧
        s'.table.row round.job.id = some (setLease (t₃ + 120) r) := by
  simp only [ContactSystem.step] at h
  split at h
  · cases h
    exact absurd hround (by simp)
  · cases h
    exact absurd hround (by simp)
  · rename_i t j lease hc
    cases h
    obtain ⟨rfl, r, hr, hcl, ho, hj, hrow⟩ := claim_claims hc
    have he : round = ⟨j, t₃ + 120, .claimed⟩ := by simpa using hround.symm
    subst he
    refine ⟨rfl, rfl, r, hr, hcl, hj, ?_⟩
    simp [hrow, hr, ho, Table.row_id hr]

theorem step_revoke {d : Nat} {checked stamped : Nat → Int} {done : Int} {del : Deletion}
    (h : ContactSystem.step s (.revoke d checked stamped done) = some s')
    (hd : s'.deletions[d]? = some del) (hs : del.stage = .revoked) :
    revokeNames s.table checked stamped del.names = .ok (s'.table, del.cancelled) ∧
      del.covered = existing s.table del.names := by
  obtain ⟨old, ho, hh, -, -, -, -⟩ | ⟨_, _, _, he, hrv, hcov⟩ :=
    step_holding h hd (by rw [Deletion.holding, hs])
  · simp only [ContactSystem.step, ho] at h
    split at h
    · rename_i hl
      rw [Deletion.holding, hl] at hh
      cases hh
    · cases h
  · cases he
    exact ⟨hrv, hcov⟩

theorem step_rounds_eq (h : ContactSystem.step s e = some s') : s'.rounds = s.rounds ∨
    (∃ t₁ t₂ t₃ round, e = .claim t₁ t₂ t₃ ∧ s'.rounds = s.rounds ++ [round]) ∨
    (∃ k a job lease, e = .bind k a ∧ s.rounds[k]? = some ⟨job, lease, .claimed⟩ ∧
      s'.rounds = s.rounds.set k ⟨job, lease, .exchanged a⟩) ∨
    ∃ k a job lease t₁ t₂, e = .finish k t₁ t₂ ∧ s.rounds[k]? = some ⟨job, lease, .exchanged a⟩ ∧
      s'.rounds = s.rounds.set k ⟨job, lease, .done⟩ := by
  cases e with
  | post | expire =>
      cases h
      exact .inl rfl
  | claim t₁ t₂ t₃ =>
      simp only [ContactSystem.step] at h
      split at h <;> cases h
      · exact .inl rfl
      · exact .inl rfl
      · exact .inr (.inl ⟨t₁, t₂, t₃, _, rfl, rfl⟩)
  | bind k a =>
      simp only [ContactSystem.step] at h
      split at h <;> cases h
      exact .inr (.inr (.inl ⟨k, a, _, _, rfl, ‹_›, rfl⟩))
  | finish k t₁ t₂ =>
      simp only [ContactSystem.step] at h
      split at h <;> cases h
      exact .inr (.inr (.inr ⟨k, _, _, _, t₁, t₂, rfl, ‹_›, rfl⟩))
  | look | delete | revoke | native | restore =>
      simp only [ContactSystem.step] at h
      repeat' split at h
      all_goals cases h
      all_goals exact .inl rfl

theorem round_kept {k : Nat} {round : Round} (h : ContactSystem.step s e = some s')
    (hk : s.rounds[k]? = some round) : ∃ stage, s'.rounds[k]? = some { round with stage } := by
  have hset {k' : Nat} {job : DeliveryJob} {lease : Int} {old new : RoundStage}
      (ho : s.rounds[k']? = some ⟨job, lease, old⟩)
      (he : s'.rounds = s.rounds.set k' ⟨job, lease, new⟩) :
      ∃ stage, s'.rounds[k]? = some { round with stage } := by
    by_cases hne : k' = k
    · subst hne
      rw [hk] at ho
      cases ho
      exact ⟨new, by simp [he, (List.getElem?_eq_some_iff.mp hk).1]⟩
    · exact ⟨round.stage, by rw [he, List.getElem?_set_ne hne, hk]⟩
  obtain he | ⟨_, _, _, new, -, he⟩ | ⟨k', a, job, lease, -, ho, he⟩ | ⟨k', a, job, lease, _, _, -, ho, he⟩ :=
    step_rounds_eq h
  · exact ⟨round.stage, by rw [he, hk]⟩
  · exact ⟨round.stage,
      by rw [he, List.getElem?_append_left (List.getElem?_eq_some_iff.mp hk).1, hk]⟩
  · exact hset ho he
  · exact hset ho he

theorem round_kept_run {guard : System → Event → Prop} {k : Nat} {round : Round} {es : List Event}
    (h : Trace step guard s es s') (hk : s.rounds[k]? = some round) :
    ∃ stage, s'.rounds[k]? = some { round with stage } := by
  refine h.invariant (I := fun s' => ∃ stage, s'.rounds[k]? = some { round with stage })
    ⟨round.stage, hk⟩ ?_
  rintro t e u ⟨stage, ht⟩ - hs
  obtain ⟨stage', hu⟩ := round_kept hs ht
  exact ⟨stage', hu⟩

theorem mem_existing {t : Table} {names : List String} : i ∈ existing t names ↔
    ∃ r, t.row i = some r ∧ r.targetName ∈ names := by
  simp only [existing, List.mem_map, List.mem_filter, List.contains_iff_mem, Table.row_eq_some]
  exact ⟨fun ⟨r, ⟨hm, hn⟩, hi⟩ => ⟨r, ⟨hm, hi⟩, hn⟩, fun ⟨r, ⟨hm, hi⟩, hn⟩ => ⟨r, ⟨hm, hn⟩, hi⟩⟩

theorem coherent_of_trace {guard : System → Event → Prop} {clock : Int} {es : List Event}
    (h : Trace ContactSystem.step guard (init clock) es s) : Coherent s :=
  h.invariant (coherent_init clock) fun _ _ _ hc _ hs => hc.step hs

end

def application (c : Char) : String := String.ofList (List.replicate 64 c)

def request (target : String) (c : Char) (validBefore : Int) : Draft where
  targetName := target
  contactId := none
  contactSubject := none
  description := ""
  requestedCapabilities := []
  offeredCapabilities := []
  requestedAccess := []
  offers := []
  applicationId := application c
  validBefore

def unreachable : Answers where
  endpointName := "a"
  encodedName := "a"
  existing := .error (503, "unavailable")
  status := .error (503, "unavailable")
  business := .error (503, "unavailable")
  owner := .error (503, "unavailable")
  recorded := .ok ()
  current := .error (503, "unavailable")
  confirmed := .error (503, "unavailable")
  activated := .ok ()
  expiryReading := 0

end Pishoo.ContactSystem
