import Pishoo.ContactSystem

namespace Pishoo.DeleteRestore

open Outbound Delivery Dispatch Machine ContactSystem

/-- A request that has answered success leaves none of its rows live. -/
def Final (s : System) : Prop :=
  ∀ del ∈ s.deletions, del.succeeded = true → ∀ id ∈ del.covered,
    ∃ r, s.table.row id = some r ∧ r.status.live = false

/-- Putting the row back would undo another request that has answered success. -/
def Resurrects (s : System) (c : Cancelled) : Prop :=
  c.status.live = true ∧ ∃ del ∈ s.deletions, del.succeeded = true ∧ c.id ∈ del.covered

/-- The partial unique index has an entry for the target of a row that would wait again. -/
def Opposed (s : System) (c : Cancelled) : Prop :=
  c.status.waiting = true ∧ ∃ r ∈ s.table.rows, r.id = c.id ∧
    ∃ q ∈ s.table.rows, q.id ≠ c.id ∧ q.targetName = r.targetName ∧ q.status.waiting = true

def confirms (del : Deletion) (answer : Except Failure Unit) : Bool :=
  del.persisted.isEmpty || answer.toOption.isSome

/-- Requests for the same names do not get in each other's way: no restore undoes a request that
has answered success or meets a waiting row of the same target, and no request answers success
once another one has put a row of its own back. -/
def Undisturbed (s : System) : Event → Prop
  | .restore d => ∀ del ∈ s.deletions[d]?.toList, ∀ c ∈ del.cancelled,
      ¬Resurrects s c ∧ ¬Opposed s c
  | .native d answer => ∀ del ∈ s.deletions[d]?.toList, confirms del answer = true →
      ∀ id ∈ del.covered, ∀ r ∈ s.table.rows, r.id = id → r.status.live = false
  | _ => True

instance (s : System) (c : Cancelled) : Decidable (Resurrects s c) :=
  inferInstanceAs (Decidable (_ ∧ _))

instance (s : System) (c : Cancelled) : Decidable (Opposed s c) :=
  inferInstanceAs (Decidable (_ ∧ _))

instance (s : System) : (e : Event) → Decidable (Undisturbed s e)
  | .restore d => inferInstanceAs (Decidable (∀ del ∈ s.deletions[d]?.toList, _))
  | .native d _ => inferInstanceAs (Decidable (∀ del ∈ s.deletions[d]?.toList, _))
  | .post .. | .expire _ | .claim .. | .bind .. | .finish .. | .delete _ | .look .. | .revoke .. =>
      inferInstanceAs (Decidable True)

/-- The rows that a request covers stay in the table. -/
def Covered (s : System) : Prop :=
  ∀ (d : Nat) (del : Deletion), s.deletions[d]? = some del →
    del.holding = true ∨ del.succeeded = true → ∀ id ∈ del.covered, ∃ r, s.table.row id = some r

section

variable {s s' : System} {e : Event} {i : Nat} {r : OutboundContactRequest}

theorem covered_step (hc : Covered s) (h : step s e = some s') : Covered s' := by
  intro d del' hd hh id hid
  have hrow : (∃ r, s.table.row id = some r) → ∃ r, s'.table.row id = some r := by
    rintro ⟨r, hr⟩
    obtain ⟨r', hr', -⟩ := step_row h hr
    exact ⟨r', hr'⟩
  refine hrow ?_
  cases step_deletion h hd with
  | kept hk => exact hc d del' hk hh id hid
  | early hh' hs' => rw [hh', hs'] at hh; simp at hh
  | revoked he hk hrv =>
      obtain ⟨r, hr, -⟩ := mem_existing.mp hid
      exact ⟨r, hr⟩
  | succeeded he hk hst | refused he hk hst =>
      exact hc d _ hk (.inl (by rw [Deletion.holding, hst])) id hid

theorem covered_of_trace {guard : System → Event → Prop} {clock : Int} {es : List Event}
    (h : Trace step guard (init clock) es s) : Covered s :=
  h.invariant (fun _ _ hd => nomatch hd) fun _ _ _ hc _ hs => covered_step hc hs

theorem dead_step (hc : Coherent s) (hu : Undisturbed s e) (h : step s e = some s')
    {del : Deletion} (hdel : del ∈ s.deletions) (hs : del.succeeded = true) (hi : i ∈ del.covered)
    (hr : s.table.row i = some r) (hd : r.status.live = false) :
    ∃ r', s'.table.row i = some r' ∧ r'.status.live = false := by
  obtain ⟨r', hr', hch⟩ := step_row h hr
  refine ⟨r', hr', ?_⟩
  obtain hk | hk | ⟨d, old, c, rfl, hold, -, hcm, hid, -, rfl⟩ := hch.dead hc hr hd
  · rw [hk, hd]
  · rw [hk]
    rfl
  · by_contra hl
    have hlive : c.status.live = true := by simpa [restore] using hl
    refine (hu old (by simp [hold]) c hcm).1 ⟨hlive, del, hdel, hs, ?_⟩
    rwa [hid, Table.row_id hr]

theorem final_step (hc : Coherent s) (hcov : Covered s) (hf : Final s) (hu : Undisturbed s e)
    (h : step s e = some s') : Final s' := by
  intro del' hdel' hs id hid
  obtain ⟨d, hd⟩ := List.getElem?_of_mem hdel'
  cases step_deletion h hd with
  | kept hk =>
      have hmem := List.mem_of_getElem? hk
      obtain ⟨r, hr, hdead⟩ := hf del' hmem hs id hid
      exact dead_step hc hu h hmem hs hid hr hdead
  | early _ hs' => rw [hs'] at hs; cases hs
  | revoked | refused => cases hs
  | @succeeded del answer he hk hst ha ht =>
      subst he
      have hconf : confirms del answer = true := by
        split at ha
        · simp_all [confirms]
        · simp [confirms, ha, Except.toOption]
      obtain ⟨r, hr⟩ := hcov d del hk (.inl (by rw [Deletion.holding, hst])) id hid
      obtain ⟨hm, hi⟩ := Table.row_eq_some.mp hr
      exact ⟨r, ht ▸ hr, hu del (by simp [hk]) hconf id hid r hm hi⟩

theorem final_of_trace {clock : Int} {es : List Event}
    (h : Trace step Undisturbed (init clock) es s) : Final s := by
  have hall : Coherent s ∧ Covered s ∧ Final s := by
    have hcov : Covered (init clock) := fun _ _ hd => nomatch hd
    have hf : Final (init clock) := fun _ hd => nomatch hd
    refine h.invariant (I := fun s => Coherent s ∧ Covered s ∧ Final s)
      ⟨coherent_init clock, hcov, hf⟩ ?_
    rintro t e u ⟨hc, hcov, hf⟩ hu hs
    exact ⟨hc.step hs, covered_step hcov hs, final_step hc hcov hf hu hs⟩
  exact hall.2.2

def begun (del : Deletion) : Bool :=
  match del.stage with
  | .looking _ => false
  | _ => true

/-- After its revoke step a request keeps its names and its records. -/
theorem begun_step {d : Nat} {del : Deletion} (h : step s e = some s')
    (hd : s.deletions[d]? = some del) (hb : begun del = true) :
    ∃ stage, s'.deletions[d]? = some { del with stage } ∧ begun { del with stage } = true := by
  have hkept {t : System} (ht : t.deletions = s.deletions) :
      ∃ stage, t.deletions[d]? = some { del with stage } ∧ begun { del with stage } = true :=
    ⟨del.stage, by rw [ht, hd], hb⟩
  have hset {d₀ : Nat} {old new : Deletion} (ho : s.deletions[d₀]? = some old)
      (hn : d₀ = d → begun old = true → ∃ stage, new = { old with stage } ∧ begun new = true) :
      ∃ stage, (s.deletions.set d₀ new)[d]? = some { del with stage } ∧
        begun { del with stage } = true := by
    by_cases he : d₀ = d
    · subst he
      rw [hd] at ho
      cases ho
      obtain ⟨stage, rfl, hb'⟩ := hn rfl hb
      exact ⟨stage, by simp [(List.getElem?_eq_some_iff.mp hd).1], hb'⟩
    · exact ⟨del.stage, by rw [List.getElem?_set_ne he, hd], hb⟩
  have hlooking {old : Deletion} {todo : List String} {P : Prop} (hs : old.stage = .looking todo)
      (hb : begun old = true) : P := by
    rw [begun, hs] at hb
    cases hb
  cases e with
  | post | expire =>
      cases h
      exact hkept rfl
  | claim | bind | finish =>
      simp only [step] at h
      split at h <;> cases h <;> exact hkept rfl
  | delete names =>
      simp only [step] at h
      split at h <;> cases h
      have hlt := (List.getElem?_eq_some_iff.mp hd).1
      exact ⟨del.stage, by rw [List.getElem?_append_left hlt, hd], hb⟩
  | look d₀ answer =>
      simp only [step] at h
      repeat' split at h
      all_goals cases h
      rename_i old ho _ _ _ hs
      exact hset ho fun _ hb => hlooking hs hb
  | revoke d₀ checked stamped done =>
      simp only [step] at h
      repeat' split at h
      all_goals cases h
      · rename_i old ho _ hs _ _ _ _
        exact hset ho fun _ hb => hlooking hs hb
      · rename_i old ho _ hs _ _ _
        exact hset ho fun _ hb => hlooking hs hb
  | native d₀ answer =>
      simp only [step] at h
      repeat' split at h
      all_goals cases h
      all_goals
        rename_i old ho _ _ _ _ _
        exact hset ho fun _ _ => ⟨_, rfl, rfl⟩
  | restore d₀ =>
      simp only [step] at h
      repeat' split at h
      all_goals cases h
      all_goals
        rename_i old ho _ _ _ _ _ _
        exact hset ho fun _ _ => ⟨_, rfl, rfl⟩

theorem begun_run {guard : System → Event → Prop} {d : Nat} {del : Deletion} {es : List Event}
    (h : Trace step guard s es s') (hd : s.deletions[d]? = some del) (hb : begun del = true) :
    ∃ stage, s'.deletions[d]? = some { del with stage } := by
  have hall : ∃ stage, s'.deletions[d]? = some { del with stage } ∧
      begun { del with stage } = true := by
    refine h.invariant (I := fun t => ∃ stage, t.deletions[d]? = some { del with stage } ∧
      begun { del with stage } = true) ⟨del.stage, hd, hb⟩ ?_
    rintro t e u ⟨stage, ht, hbt⟩ - hs
    have hnext := begun_step hs ht hbt
    exact hnext
  obtain ⟨stage, hs, -⟩ := hall
  exact ⟨stage, hs⟩

/-- An unopposed restore commits and puts every row back. -/
theorem restore_restores {d : Nat} {del : Deletion} (hc : Coherent s)
    (hu : Undisturbed s (.restore d)) (h : step s (.restore d) = some s')
    (hd : s.deletions[d]? = some del) {c : Cancelled} (hcm : c ∈ del.cancelled) :
    ∃ r, s'.table.row c.id = some r ∧ r.status = c.status := by
  have hold : del.holding = true := by
    simp only [step, hd] at h
    repeat' split at h
    all_goals cases h
    all_goals
      rename_i hs _ _ _
      rw [Deletion.holding, hs]
  have hun : Unopposed s.table del.cancelled := by
    constructor
    · intro c hc hw r hr q hq hne ht
      rw [Bool.eq_false_iff]
      intro hwq
      obtain ⟨hm, hi⟩ := Table.row_eq_some.mp hr
      exact (hu del (by simp [hd]) c hc).2 ⟨hw, r, hm, hi, q, hq, hne, ht, hwq⟩
    · exact fun c₁ h₁ c₂ h₂ hw₁ hw₂ hne r₁ r₂ hr₁ hr₂ =>
        hc.apart d del hd hold c₁ h₁ c₂ h₂ hw₁ hw₂ hne r₁ r₂ hr₁ hr₂
  obtain ⟨u, hu'⟩ := restoreAll_ok hun
  obtain ⟨r, hr, hst⟩ := hc.revoked d del hd hold c hcm
  simp only [step, hd] at h
  split at h
  · rw [hu'] at h
    cases h
    exact ⟨_, restoreAll_restores hu' (hc.distinct d del hd hold) hcm hr hst, rfl⟩
  · cases h

/-- In every run without such interference a `DELETE` that answers success is final, and one
that answers an error gives every row it has revoked its status back. -/
theorem delete_atomic {clock : Int} {es : List Event}
    (h : Trace step Undisturbed (init clock) es s) : Final s ∧
      ∀ d checked stamped done s₁ del es' s₂ s₃ i r,
        step s (.revoke d checked stamped done) = some s₁ → s₁.deletions[d]? = some del →
        del.stage = .revoked → Trace step Undisturbed s₁ es' s₂ → Undisturbed s₂ (.restore d) →
        step s₂ (.restore d) = some s₃ → s.table.row i = some r → r.targetName ∈ del.names →
        r.status ≠ .revoked → ∃ r', s₃.table.row i = some r' ∧ r'.status = r.status := by
  refine ⟨final_of_trace h, ?_⟩
  intro d checked stamped done s₁ del es' s₂ s₃ i r hs₁ hd hst h' hu hs₃ hr hn hne
  obtain ⟨hrv, -⟩ := step_revoke hs₁ hd hst
  have hc₂ : Coherent s₂ := h'.invariant ((coherent_of_trace h).step hs₁)
    fun _ _ _ hc _ hs => hc.step hs
  obtain ⟨stage, hd₂⟩ := begun_run h' hd (by rw [begun, hst])
  have hid := Table.row_id hr
  have hcm : cancelled r ∈ del.cancelled :=
    (revokeNames_cancelled hrv _).mpr ⟨r, by rw [← hid] at hr; exact hr, hn, hne, rfl⟩
  obtain ⟨r', hr', hs'⟩ := restore_restores hc₂ hu hs₃ hd₂ hcm
  exact ⟨r', hid ▸ hr', hs'⟩

end

/-- Two requests for one contact overlap. The first one's native deletion fails after the second
has answered success, and its restore brings the row back. -/
def overlap : List Event :=
  [.post (request "b" 'x' 1000) 0, .delete ["b"], .look 0 (.ok true),
    .revoke 0 (fun _ => 1) (fun _ => 1) 1, .delete ["b"], .look 1 (.ok true),
    .revoke 1 (fun _ => 1) (fun _ => 1) 1, .native 1 (.ok ()),
    .native 0 (.error (fail 404 "contact not found")), .restore 0]

/-- A request posted while the native deletion runs keeps the old row from coming back. -/
def interposed : List Event :=
  [.post (request "b" 'y' 1000) 2, .native 0 (.error (fail 500 "access database is busy"))]

theorem delete_not_atomic :
    (¬∀ (clock : Int) (es : List Event) (s : System), Trace step Free (init clock) es s → Final s) ∧
    ¬∀ (clock : Int) (es : List Event) (s : System) (d : Nat) (checked stamped : Nat → Int)
      (done : Int) (s₁ : System) (del : Deletion) (es' : List Event) (s₂ s₃ : System) (i : Nat)
      (r : OutboundContactRequest), Trace step Free (init clock) es s →
        step s (.revoke d checked stamped done) = some s₁ → s₁.deletions[d]? = some del →
        del.stage = .revoked → Trace step Free s₁ es' s₂ → step s₂ (.restore d) = some s₃ →
        s.table.row i = some r → r.targetName ∈ del.names → r.status ≠ .revoked →
        s₂.table.row i = s₁.table.row i →
          ∃ r', s₃.table.row i = some r' ∧ r'.status = r.status := by
  constructor
  · intro h
    obtain ⟨s, hs⟩ : ∃ s, run step Free (init 0) overlap = some s :=
      Option.isSome_iff_exists.mp (by decide)
    have hfinal := h 0 overlap s (trace_of_run hs)
    obtain ⟨del, hd, hsucc, hcov⟩ : ∃ del, s.deletions[1]? = some del ∧ del.succeeded = true ∧
        1 ∈ del.covered := by
      cases hs
      exact ⟨_, rfl, rfl, by decide⟩
    obtain ⟨r, hr, hlive⟩ := hfinal del (List.mem_of_getElem? hd) hsucc 1 hcov
    have hlive' : (s.table.row 1).map (fun r => r.status.live) = some true := by
      cases hs
      decide
    rw [hr, Option.map_some, hlive] at hlive'
    cases hlive'
  · intro h
    obtain ⟨s, hs⟩ : ∃ s, run step Free (init 0)
        [.post (request "b" 'x' 1000) 0, .delete ["b"], .look 0 (.ok true)] = some s :=
      Option.isSome_iff_exists.mp (by decide)
    obtain ⟨s₁, hs₁⟩ : ∃ s₁, step s (.revoke 0 (fun _ => 1) (fun _ => 1) 1) = some s₁ := by
      cases hs
      exact Option.isSome_iff_exists.mp (by decide)
    obtain ⟨s₂, hs₂⟩ : ∃ s₂, run step Free s₁ interposed = some s₂ := by
      cases hs
      cases hs₁
      exact Option.isSome_iff_exists.mp (by decide)
    obtain ⟨s₃, hs₃⟩ : ∃ s₃, step s₂ (.restore 0) = some s₃ := by
      cases hs
      cases hs₁
      cases hs₂
      exact Option.isSome_iff_exists.mp (by decide)
    obtain ⟨del, hd, hst, hn⟩ : ∃ del, s₁.deletions[0]? = some del ∧ del.stage = .revoked ∧
        del.names = ["b"] := by
      cases hs
      cases hs₁
      exact ⟨_, rfl, rfl, rfl⟩
    obtain ⟨r, hr, ht, hq⟩ : ∃ r, s.table.row 1 = some r ∧ r.targetName = "b" ∧
        r.status = .queued := by
      cases hs
      exact ⟨_, rfl, rfl, rfl⟩
    have hsame : s₂.table.row 1 = s₁.table.row 1 := by
      cases hs
      cases hs₁
      cases hs₂
      rfl
    obtain ⟨r', hr', hst'⟩ := h 0 _ s 0 _ _ 1 s₁ del interposed s₂ s₃ 1 r (trace_of_run hs) hs₁ hd hst
      (trace_of_run hs₂) hs₃ hr (by simp [hn, ht]) (by simp [hq]) hsame
    have hrevoked : (s₃.table.row 1).map OutboundContactRequest.status = some .revoked := by
      cases hs
      cases hs₁
      cases hs₂
      cases hs₃
      decide
    rw [hr', Option.map_some, hst', hq] at hrevoked
    cases hrevoked

theorem delete_atomic_run : ∃ s, run step Undisturbed (init 0)
    [.post (request "b" 'x' 1000) 0, .delete ["b"], .look 0 (.ok true),
      .revoke 0 (fun _ => 1) (fun _ => 1) 1, .native 0 (.ok ())] = some s ∧ Final s ∧
      ∃ del ∈ s.deletions, del.succeeded = true ∧ 1 ∈ del.covered := by
  obtain ⟨s, hs⟩ : ∃ s, run step Undisturbed (init 0)
      [.post (request "b" 'x' 1000) 0, .delete ["b"], .look 0 (.ok true),
        .revoke 0 (fun _ => 1) (fun _ => 1) 1, .native 0 (.ok ())] = some s :=
    Option.isSome_iff_exists.mp (by decide)
  refine ⟨s, hs, (delete_atomic (trace_of_run hs)).1, ?_⟩
  cases hs
  exact ⟨_, List.mem_singleton_self _, rfl, by decide⟩

end Pishoo.DeleteRestore
