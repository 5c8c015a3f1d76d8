import Pishoo.ContactAccess
import Pishoo.ContactQuery
import Pishoo.ContactView
import Pishoo.Dispatch

namespace Pishoo.Submission

open Outbound Result Capabilities ContactAccess ContactView

structure Identity where
  name : String
  subject : String
  deriving DecidableEq

structure Stores where
  access : AccessStore
  table : Table

/-- A `POST /std/contact` and what the handler reads outside the two stores, in its order. `body`
is nothing if the body cannot be read, and `some none` if it is no JSON. `listed` and `grantable`
are the answers of the access control about the contact list and about allow requests. `native` is
the handler for requests of other identities. -/
structure Environment where
  endpointName : String
  crossSite : Bool
  visitor : Option Identity
  body : Option (Option Json)
  listed : Except Failure Bool
  native : AccessStore → AccessStore × Except Failure Json
  owner : Except Failure Identity
  http : Http
  remoteCatalog : Except Failure Json
  expiryReading : Int
  localCatalog : Except Failure Json
  existing : Option Trouble
  grantable : Except Failure Bool
  peer : Except Failure String
  grant : GrantAnswers
  pinned : Option Trouble
  database : Option Failure
  expiredAt : Int
  begun : Option Failure
  time : Int
  applicationId : Except Failure String
  inserted : Option Failure
  reread : Option Failure

structure Accepted where
  doc : Json
  target : String
  description : String
  requested : List Capability
  offered : List Capability
  validBefore : Int

/-- `if let Some(e) = … { return Err(e) }`. -/
def raise : Option Failure → Except Failure Unit
  | some e => .error e
  | none => .ok ()

def requestExpiry (doc : Json) (now : Int) : Except Failure Int := do
  let validBefore ← match doc.find "expires_after", doc.find "valid_before" with
    | some _, some _ => .error (fail 400 "use expires_after or valid_before")
    | some seconds, none => do
        let seconds ← orFail (seconds.asI64.filter (fun n => decide (0 < n))) 400 "invalid expires_after"
        if now + seconds < 2 ^ 63 then .ok (now + seconds) else .error (fail 400 "expiry overflow")
    | none, some time => orFail time.asI64 400 "invalid valid_before"
    | none, none => .ok (now + 7 * 86400)
  failIf (validBefore ≤ now) (fail 400 "valid_before must be in the future")
  .ok validBefore

def fields : List String :=
  ["from", "to", "description", "requested_capabilities", "offered_capabilities", "expires_after",
    "valid_before"]

def document (e : Environment) : Except Failure Json := do
  failIf (e.crossSite = true) (fail 403 "cross-origin request denied")
  let body ← orFail e.body 400 "invalid request body"
  doIf (e.visitor.isSome = true) (e.listed.map fun _ => ())
  orFail body 400 "invalid JSON"

/-- The recipient, or nothing if another identity addresses this one. -/
def recipient (e : Environment) (doc : Json) : Except Failure (Option String) := do
  let sender ← ContactQuery.name (← Delivery.string doc "from")
  let receiver ← ContactQuery.name (← Delivery.string doc "to")
  failIf (sender = receiver) (fail 400 "cannot contact yourself")
  if sender ≠ e.endpointName then
    failIf (receiver ≠ e.endpointName) (fail 400 "contact recipient does not match this identity")
    .ok none
  else .ok (some receiver)

/-- The checks of the owner's request that read no store. -/
def accepted (e : Environment) (doc : Json) (target : String) : Except Failure Accepted := do
  let owner ← e.owner
  failIf (e.visitor ≠ some owner) (fail 403 "verified owner required")
  failIf (doc.asObject.all (fun object => object.any fun field => !fields.contains field.1) = true)
    (fail 400 "invalid contact request fields")
  failIf (target = e.endpointName) (fail 400 "cannot contact yourself")
  let description ← Delivery.string doc "description"
  failIf (80 < description.length ∨ (PathText.chars description).any PathText.control = true)
    (fail 400 "invalid description")
  let requested ← selected e.http (if target = e.endpointName then e.localCatalog else e.remoteCatalog)
    (doc.get "requested_capabilities")
  let validBefore ← requestExpiry doc e.expiryReading
  let offered ← selected e.http e.localCatalog (doc.get "offered_capabilities")
  .ok { doc, target, description, requested, offered, validBefore }

/-- The checks against the stored contact. -/
def checked (e : Environment) (store : AccessStore) (x : Accepted) : Except Failure (Option Json) := do
  let existing ← Delivery.existingContact (contact e.existing store x.target)
  failIf (existing.any (fun c => c.get "status" == .str "blocked") = true)
    (fail 409 "local contact is blocked")
  doIf (x.offered ≠ []) do
    let allowed ← e.grantable
    failIf (allowed = false) (fail 403 "contact creation or offered capability denied by ACL")
  .ok existing

/-- The grant, for a request that offers something. -/
def pin (e : Environment) (store : AccessStore) (x : Accepted) (existing : Option Json) :
    AccessStore × Except Failure (Option Json) :=
  if x.offered = [] then (store, .ok existing)
  else match e.peer with
    | .error f => (store, .error f)
    | .ok subject =>
        let g := grantOffered e.grant store x.target subject x.requested x.offered x.validBefore
        (g.store, do
          g.outcome
          let c ← contact e.pinned g.store x.target
          .ok (some c))

def methodsDocument (methods : List String) : Json := .arr (methods.map .str)

def requestedDocument (selected : List Capability) : List (String × Json) :=
  (requested selected).entries.map fun entry => (entry.1, methodsDocument entry.2)

def effectsDocument (effects : Effects) : Json :=
  .obj [("allow", methodsDocument effects.allow), ("review", methodsDocument effects.review),
    ("deny", methodsDocument effects.deny)]

def offeredDocument (selected : List Capability) : List (String × Json) :=
  (offered selected).map fun entry => (entry.1, effectsDocument entry.2)

def draft (x : Accepted) (pinned : Option Json) (applicationId : String) : Dispatch.Draft where
  targetName := x.target
  contactId := pinned.bind fun c => (c.get "id").asI64
  contactSubject := pinned.bind fun c => (c.get "subject_id").asStr
  description := x.description
  requestedCapabilities := ((x.doc.get "requested_capabilities").asArray).getD []
  offeredCapabilities := ((x.doc.get "offered_capabilities").asArray).getD []
  requestedAccess := requestedDocument x.requested
  offers := offeredDocument x.offered
  applicationId
  validBefore := x.validBefore

/-- The transaction that inserts the row. -/
def insertion (e : Environment) (t : Table) (x : Accepted) (pinned : Option Json) :
    Except Failure Table := do
  raise e.begun
  failIf (t.rows.any (fun r => r.targetName == x.target && r.status.waiting) = true)
    (fail 409 "contact request already pending")
  let applicationId ← e.applicationId
  raise e.inserted
  t.insert (Dispatch.posted (draft x pinned applicationId) e.time)

/-- The answer about the inserted row. -/
def answer (e : Environment) (t : Table) (pinned : Option Json) : Except Failure Json := do
  raise e.reread
  let row ← orFail (t.row t.sequence) 404 "contact request not found"
  let contact := pinned.getD .null
  let row := (outboundRequest row).set "_contact_id" (contact.get "id")
  .ok (projectContact contact (row.set "_contact_subject" (contact.get "subject_id")))

def enqueue (e : Environment) (t : Table) (x : Accepted) (pinned : Option Json) :
    Table × Except Failure Json :=
  match e.database with
  | some f => (t, .error f)
  | none => match expireRequests t e.expiredAt with
    | .error f => (t, .error f)
    | .ok u => match insertion e u x pinned with
      | .error f => (u, .error f)
      | .ok v => (v, answer e v pinned)

/-- The owner's request after the recipient is known. -/
def submitTo (e : Environment) (s : Stores) (doc : Json) (target : String) :
    Stores × Except Failure Json :=
  match accepted e doc target with
  | .error f => (s, .error f)
  | .ok x => match checked e s.access x with
    | .error f => (s, .error f)
    | .ok existing => match pin e s.access x existing with
      | (store, .error f) => (⟨store, s.table⟩, .error f)
      | (store, .ok pinned) =>
          let (table, result) := enqueue e s.table x pinned
          (⟨store, table⟩, result)

def submit (e : Environment) (s : Stores) : Stores × Except Failure Json :=
  match document e with
  | .error f => (s, .error f)
  | .ok doc => match recipient e doc with
    | .error f => (s, .error f)
    | .ok none =>
        let (store, result) := e.native s.access
        (⟨store, s.table⟩, result)
    | .ok (some target) => submitTo e s doc target

end Pishoo.Submission
