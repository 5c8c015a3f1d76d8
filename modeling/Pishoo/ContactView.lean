import Pishoo.Outbound

namespace Pishoo.ContactView

open Outbound

def nullable {α : Type} (value : α → Json) : Option α → Json
  | some a => value a
  | none => .null

/-- The value that `outbound_request` reads. -/
def outboundRequest (r : OutboundContactRequest) : Json :=
  .obj [
    ("id", .int r.id), ("target_name", .str r.targetName), ("description", .str r.description),
    ("requested_capabilities", .arr r.requestedCapabilities),
    ("offered_capabilities", .arr r.offeredCapabilities), ("status", .str r.status.text),
    ("valid_before", .int r.expiredAfter), ("delivery_deadline", .int r.deliveryDeadline),
    ("remote_valid_before", nullable .int r.remoteExpiredAfter),
    ("last_checked_at", nullable .int r.lastCheckedAt),
    ("error_message", nullable .str r.errorMessage), ("created_at", .int r.createdAt),
    ("updated_at", .int r.updatedAt)]

/-- The item of a draft that has no contact yet. -/
def draftContact (draft : Json) : Json :=
  .obj [
    ("id", .null), ("name", draft.get "target_name"), ("subject_id", .null), ("alias", .null),
    ("class", .str "Human"), ("description", draft.get "description"), ("status", .str "pending"),
    ("incoming", .bool false), ("created_at", draft.get "created_at"),
    ("updated_at", draft.get "updated_at"), ("valid_before", draft.get "valid_before"),
    ("requested_access", .obj []), ("granted_access", .obj []), ("offers", .obj [])]

/-- The draft belongs to this generation of the contact. -/
def bound (contact draft : Json) : Bool :=
  draft.get "_contact_id" == contact.get "id" &&
    draft.get "_contact_subject" == contact.get "subject_id"

def updatedAt (value : Json) : Int := ((value.get "updated_at").asI64).getD 0

def merged (contact draft : Json) : Json :=
  let contact := contact.set "updated_at" (.int (max (updatedAt contact) (updatedAt draft)))
  let contact := contact.set "delivery_status" (draft.get "status")
  contact.set "delivery_error" (draft.get "error_message")

def projectContact (contact draft : Json) : Json :=
  if contact.isNull then merged (draftContact draft) draft
  else if bound contact draft then merged contact draft
  else contact

theorem obj_of_get {v : Json} {key : String} (h : v.get key ≠ .null) : ∃ fields, v = .obj fields := by
  cases v with
  | obj fields => exact ⟨fields, rfl⟩
  | _ => exact absurd rfl h

theorem set_obj (fields : List (String × Json)) (key : String) (x : Json) :
    ∃ fields', (Json.obj fields).set key x = .obj fields' := ⟨_, rfl⟩

section

variable {contact draft : Json} {key : String}

/-- Merging a draft changes three fields. -/
theorem get_merged (hcontact : ∃ fields, contact = .obj fields) (hupdated : key ≠ "updated_at")
    (hstatus : key ≠ "delivery_status") (herror : key ≠ "delivery_error") :
    (merged contact draft).get key = contact.get key := by
  obtain ⟨fields, rfl⟩ := hcontact
  obtain ⟨fields', h'⟩ := set_obj fields "updated_at"
    (.int (max (updatedAt (.obj fields)) (updatedAt draft)))
  obtain ⟨fields'', h''⟩ := set_obj fields' "delivery_status" (draft.get "status")
  rw [merged, h', h'', Json.get_set_ne _ _ herror, ← h'', Json.get_set_ne _ _ hstatus, ← h',
    Json.get_set_ne _ _ hupdated]

theorem get_projectContact (hcontact : ∃ fields, contact = .obj fields) (hupdated : key ≠ "updated_at")
    (hstatus : key ≠ "delivery_status") (herror : key ≠ "delivery_error") :
    (projectContact contact draft).get key = contact.get key := by
  have hobj : contact.isNull = false := by
    obtain ⟨fields, rfl⟩ := hcontact
    rfl
  rw [projectContact, hobj, if_neg Bool.false_ne_true]
  split
  · exact get_merged hcontact hupdated hstatus herror
  · rfl

theorem get_projectNull (hupdated : key ≠ "updated_at") (hstatus : key ≠ "delivery_status")
    (herror : key ≠ "delivery_error") :
    (projectContact .null draft).get key = (draftContact draft).get key :=
  get_merged ⟨_, rfl⟩ hupdated hstatus herror

theorem projectContact_unbound (hcontact : ∃ fields, contact = .obj fields)
    (hbound : bound contact draft = false) : projectContact contact draft = contact := by
  obtain ⟨fields, rfl⟩ := hcontact
  rw [projectContact, hbound]
  rfl

end

end Pishoo.ContactView
