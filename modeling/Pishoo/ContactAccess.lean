import Pishoo.Capabilities

namespace Pishoo.ContactAccess

open Outbound Result Capabilities

structure Rule where
  target : String
  method : String
  path : String
  deriving DecidableEq

/-- The contacts by name and the allow rules, as the access service stores them. -/
structure AccessStore where
  contacts : List (String × Json)
  allow : List Rule
  deriving DecidableEq

/-- A failure of `local_api` for another reason than that there is no such contact. -/
structure Trouble where
  failure : Failure
  other : failure.1 ≠ 404

structure NewContact where
  name : String
  subjectId : String
  kind : String
  description : String
  requestedAccess : List (String × List String)
  offers : List (String × Effects)
  createdAt : Int
  updatedAt : Int
  expiredAfter : Int

/-- The body of a `PATCH /std/acl/allow?name=`, with the name. -/
structure AllowRequest where
  name : String
  api : String
  method : String
  effect : String
  deriving DecidableEq

def AllowRequest.rule (request : AllowRequest) : Rule :=
  ⟨request.name, request.method, request.api⟩

/-- How `local_api` ends for an allow request: the rule is not stored, it is stored, or it is
stored but the answer does not arrive. -/
inductive Reply
  | refused (e : Failure)
  | stored
  | lost (e : Failure)

/-- What the access service answers to `grant_offered`: to the reading of the contact, to
`record_outbound_contact` with the contact it stores, to the second reading, and to each allow
request. -/
structure GrantAnswers where
  found : Option Trouble
  record : NewContact → Except Failure Json
  again : Option Trouble
  replies : Nat → Reply
  startedAt : Int
  recordedAt : Int

def contact (trouble : Option Trouble) (store : AccessStore) (target : String) : Except Failure Json :=
  match trouble with
  | some t => .error t.failure
  | none => orFail (store.contacts.lookup target) 404 "contact not found"

def recordOutbound (record : NewContact → Except Failure Json) (store : AccessStore)
    (contact : NewContact) : Except Failure AccessStore := do
  let stored ← record contact
  .ok { store with contacts := (contact.name, stored) :: store.contacts }

def AccessStore.addRule (store : AccessStore) (rule : Rule) : AccessStore :=
  if rule ∈ store.allow then store else { store with allow := store.allow ++ [rule] }

/-- The allow requests sent, the store and the outcome. -/
structure Grant where
  sent : List AllowRequest
  store : AccessStore
  outcome : Except Failure Unit

/-- The two loops of `grant_offered`, over the operations of all capabilities. -/
def allowAll (target : String) : AccessStore → (Nat → Reply) → List Operation → Grant
  | store, _, [] => ⟨[], store, .ok ()⟩
  | store, replies, operation :: operations =>
      let request : AllowRequest := ⟨target, operation.path, operation.method, "allow"⟩
      match replies 0 with
      | .refused e => ⟨[request], store, .error e⟩
      | .lost e => ⟨[request], store.addRule request.rule, .error e⟩
      | .stored =>
          let rest := allowAll target (store.addRule request.rule) (fun i => replies (i + 1)) operations
          { rest with sent := request :: rest.sent }

def newContact (a : GrantAnswers) (target subject : String) (requests capabilities : List Capability)
    (validBefore : Int) : NewContact where
  name := target
  subjectId := subject
  kind := "Human"
  description := ""
  requestedAccess := (requested requests).entries.map fun entry => (entry.1, entry.2)
  offers := offered capabilities
  createdAt := a.startedAt
  updatedAt := a.recordedAt
  expiredAfter := validBefore

/-- The contact that `grant_offered` finds or records, and the store with it. -/
def recorded (a : GrantAnswers) (store : AccessStore) (target subject : String)
    (requests capabilities : List Capability) (validBefore : Int) : AccessStore × Except Failure Json :=
  match contact a.found store target with
  | .ok existing => (store, .ok existing)
  | .error (404, _) =>
      match recordOutbound a.record store
          (newContact a target subject requests capabilities validBefore) with
      | .error e => (store, .error e)
      | .ok store => (store, contact a.again store target)
  | .error e => (store, .error e)

/-- The contact is the authenticated peer, and not blocked. -/
def offerable (existing : Json) (subject : String) : Bool :=
  existing.get "subject_id" == .str subject &&
    ((existing.get "status").asStr == some "pending" || (existing.get "status").asStr == some "active")

def grantOffered (a : GrantAnswers) (store : AccessStore) (target subject : String)
    (requests capabilities : List Capability) (validBefore : Int) : Grant :=
  match recorded a store target subject requests capabilities validBefore with
  | (store, .error e) => ⟨[], store, .error e⟩
  | (store, .ok existing) =>
      if offerable existing subject then
        allowAll target store a.replies (capabilities.flatMap Capability.endpoints)
      else ⟨[], store, .error (fail 409 "local contact blocks offered capabilities")⟩

def request (target : String) (operation : Operation) : AllowRequest :=
  ⟨target, operation.path, operation.method, "allow"⟩

section

variable {target subject : String} {store : AccessStore} {replies : Nat → Reply} {a : GrantAnswers}
  {operations : List Operation} {requests capabilities : List Capability} {validBefore : Int}

theorem allowAll_sent (target : String) (store : AccessStore) (replies : Nat → Reply)
    (operations : List Operation) :
    (allowAll target store replies operations).sent <+: operations.map (request target) := by
  induction operations generalizing store replies with
  | nil => exact List.prefix_rfl
  | cons operation operations ih =>
      rw [allowAll, List.map_cons]
      split
      · exact List.prefix_cons_inj _ |>.mpr (List.nil_prefix)
      · exact List.prefix_cons_inj _ |>.mpr (List.nil_prefix)
      · exact List.prefix_cons_inj _ |>.mpr (ih _ _)

theorem allowAll_complete (h : (allowAll target store replies operations).outcome = .ok ()) :
    (allowAll target store replies operations).sent = operations.map (request target) := by
  induction operations generalizing store replies with
  | nil => rfl
  | cons operation operations ih =>
      rw [allowAll] at h ⊢
      split at h
      · cases h
      · cases h
      · rw [List.map_cons]
        exact congrArg _ (ih h)

theorem grantOffered_sent : (grantOffered a store target subject requests capabilities validBefore).sent <+:
    (capabilities.flatMap Capability.endpoints).map (request target) := by
  unfold grantOffered
  split
  · exact List.nil_prefix
  · split
    · exact allowAll_sent ..
    · exact List.nil_prefix

theorem grantOffered_complete
    (h : (grantOffered a store target subject requests capabilities validBefore).outcome = .ok ()) :
    (grantOffered a store target subject requests capabilities validBefore).sent =
      (capabilities.flatMap Capability.endpoints).map (request target) := by
  unfold grantOffered at h ⊢
  split at h
  · cases h
  · split at h
    · rename_i hopen
      rw [if_pos hopen]
      exact allowAll_complete h
    · cases h

def Reply.kept : Reply → Bool
  | .refused _ => false
  | _ => true

/-- Some allow request is stored and adds a rule. -/
def Adds (target : String) (store : AccessStore) (replies : Nat → Reply) (operations : List Operation) :
    Prop :=
  ∃ i operation, operations[i]? = some operation ∧ (∀ j < i, replies j = .stored) ∧
    (replies i).kept = true ∧ (request target operation).rule ∉ store.allow

def AllStored (replies : Nat → Reply) (operations : List Operation) : Prop :=
  ∀ i < operations.length, replies i = .stored

theorem adds_cons {operation : Operation} : Adds target store replies (operation :: operations) ↔
    (replies 0).kept = true ∧ (request target operation).rule ∉ store.allow ∨
      replies 0 = .stored ∧ Adds target store (fun i => replies (i + 1)) operations := by
  constructor
  · rintro ⟨_ | i, other, hother, hbefore, hkept, hnew⟩
    · cases hother
      exact .inl ⟨hkept, hnew⟩
    · exact .inr ⟨hbefore 0 (Nat.succ_pos i), i, other, hother,
        fun j hj => hbefore (j + 1) (Nat.succ_lt_succ hj), hkept, hnew⟩
  · rintro (⟨hkept, hnew⟩ | ⟨hfirst, i, other, hother, hbefore, hkept, hnew⟩)
    · exact ⟨0, operation, rfl, fun j hj => absurd hj (Nat.not_lt_zero j), hkept, hnew⟩
    · refine ⟨i + 1, other, hother, fun j hj => ?_, hkept, hnew⟩
      cases j with
      | zero => exact hfirst
      | succ j => exact hbefore j (Nat.lt_of_succ_lt_succ hj)

theorem allStored_cons {operation : Operation} : AllStored replies (operation :: operations) ↔
    replies 0 = .stored ∧ AllStored (fun i => replies (i + 1)) operations := by
  constructor
  · intro h
    exact ⟨h 0 (Nat.succ_pos _), fun i hi => h (i + 1) (Nat.succ_lt_succ hi)⟩
  · rintro ⟨hfirst, hrest⟩ i hi
    cases i with
    | zero => exact hfirst
    | succ i => exact hrest i (Nat.lt_of_succ_lt_succ hi)

theorem allowAll_outcome :
    (allowAll target store replies operations).outcome = .ok () ↔ AllStored replies operations := by
  induction operations generalizing store replies with
  | nil => exact ⟨fun _ i hi => absurd hi (Nat.not_lt_zero i), fun _ => rfl⟩
  | cons operation operations ih =>
      rw [allStored_cons, allowAll]
      split
      · rename_i hreply
        simp [hreply]
      · rename_i hreply
        simp [hreply]
      · rename_i hreply
        simp only [hreply, true_and]
        exact ih

/-- The rules that a grant adds. -/
def Extends (target : String) (store store' : AccessStore) (adds : Prop) : Prop :=
  ∃ extra, store' = { store with allow := store.allow ++ extra } ∧ (∀ rule ∈ extra, rule.target = target) ∧
    (extra ≠ [] ↔ adds)

theorem extends_refl {adds : Prop} (h : ¬adds) : Extends target store store adds :=
  ⟨[], by rw [List.append_nil], by simp, by simpa using h⟩

theorem extends_addRule (operation : Operation) {adds : Prop}
    (h : adds ↔ (request target operation).rule ∉ store.allow) :
    Extends target store (store.addRule (request target operation).rule) adds := by
  unfold AccessStore.addRule
  split
  · rename_i hmem
    exact extends_refl fun hadds => h.mp hadds hmem
  · rename_i hmem
    exact ⟨[(request target operation).rule], rfl, by simp [AllowRequest.rule, request], by simpa [h] using hmem⟩

theorem Extends.trans {store' store'' : AccessStore} {p q r : Prop} (h : Extends target store store' p)
    (h' : Extends target store' store'' q) (hr : r ↔ p ∨ q) : Extends target store store'' r := by
  obtain ⟨extra, rfl, htarget, hp⟩ := h
  obtain ⟨extra', rfl, htarget', hq⟩ := h'
  refine ⟨extra ++ extra', by rw [List.append_assoc], ?_, ?_⟩
  · intro rule hrule
    obtain hrule | hrule := List.mem_append.mp hrule
    · exact htarget rule hrule
    · exact htarget' rule hrule
  · rw [hr, ← hp, ← hq, ne_eq, List.append_eq_nil_iff, not_and_or]

theorem Extends.contacts_eq {store' : AccessStore} {adds : Prop}
    (h : Extends target store store' adds) : store'.contacts = store.contacts := by
  obtain ⟨extra, rfl, -⟩ := h
  rfl

theorem allowAll_store : Extends target store (allowAll target store replies operations).store
    (Adds target store replies operations) := by
  induction operations generalizing store replies with
  | nil => exact extends_refl fun ⟨_, _, h, _⟩ => by cases h
  | cons operation operations ih =>
      have hkept {reply : Reply} (h : replies 0 = reply) : (replies 0).kept = reply.kept := by rw [h]
      rw [allowAll]
      split
      · rename_i hreply
        exact extends_refl fun h => by simp [adds_cons, hreply, Reply.kept] at h
      · rename_i hreply
        exact extends_addRule operation (by simp [adds_cons, hreply, Reply.kept])
      · rename_i hreply
        refine (extends_addRule operation Iff.rfl).trans ih ?_
        rw [adds_cons]
        simp only [hreply, Reply.kept, true_and]
        by_cases hmem : (request target operation).rule ∈ store.allow
        · have hsame : store.addRule (request target operation).rule = store := if_pos hmem
          simp only [AllowRequest.rule, request] at hsame ⊢
          rw [hsame]
        · simp [hmem]

end

end Pishoo.ContactAccess
