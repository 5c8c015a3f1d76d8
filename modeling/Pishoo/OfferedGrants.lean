import Mathlib.Data.List.Perm.Basic
import Mathlib.Data.Set.Basic
import Pishoo.ContactAccess

namespace Pishoo.OfferedGrants

open Outbound Result Capabilities ContactAccess

/-- The operations that the catalog lists under these entries. -/
def catalogued (catalog : Except Failure Json) (chosen : List String) : Set Operation :=
  {endpoint | ∃ entries, catalog = .ok (.obj entries) ∧
    ∃ name ∈ chosen, ∃ paths, (name, paths) ∈ entries ∧ Offers paths endpoint}

def shown (snapshot : List (String × Effects)) : Set Operation :=
  {endpoint | ∃ effects, (endpoint.path, effects) ∈ snapshot ∧ endpoint.method ∈ effects.allow}

def sent (grant : Grant) (target : String) : Set Operation :=
  {endpoint | ⟨target, endpoint.path, endpoint.method, "allow"⟩ ∈ grant.sent}

/-- The name stands for the entry: it is the name of the entry, or no entry has that name and
exactly one entry, this one, has it as its title. -/
def StandsFor (catalog : Except Failure Json) (id : Json) (entry : String) : Prop :=
  ∃ name entries paths, id = .str name ∧ catalog = .ok (.obj entries) ∧
    Picks entries name (entry, paths)

/-- The three traversals give the operations of these entries and nothing else. -/
structure Agree (catalog : Except Failure Json) (chosen : List String) (caps : List Capability) :
    Prop where
  requested : {endpoint | Allows (requested caps) endpoint} = catalogued catalog chosen
  offered : shown (offered caps) = catalogued catalog chosen
  granted : ∀ a store target subject requests validBefore,
    (grantOffered a store target subject requests caps validBefore).outcome = .ok () →
      sent (grantOffered a store target subject requests caps validBefore) target =
        catalogued catalog chosen
  within : ∀ a store target subject requests validBefore,
    sent (grantOffered a store target subject requests caps validBefore) target ⊆
      catalogued catalog chosen
  only : ∀ a store target subject requests validBefore,
    ∀ request ∈ (grantOffered a store target subject requests caps validBefore).sent,
      request.name = target ∧ request.effect = "allow"
  nodup : ∀ path effects, (path, effects) ∈ Capabilities.offered caps → effects.allow.Nodup

section

variable {http : Http} {catalog : Except Failure Json} {entries : List (String × Json)}
  {ids : List Json} {caps caps' : List Capability} {names : List String}

theorem shown_offered (caps : List Capability) :
    shown (Capabilities.offered caps) = {endpoint | Allows (Capabilities.requested caps) endpoint} := by
  ext endpoint
  simp only [shown, mem_offered, Set.mem_ofPred_eq, allows_iff]
  constructor
  · rintro ⟨_, ⟨methods, hlookup, rfl⟩, hmethod⟩
    exact ⟨methods, hlookup, hmethod⟩
  · rintro ⟨methods, hlookup, hmethod⟩
    exact ⟨_, ⟨methods, hlookup, rfl⟩, hmethod⟩

theorem agree_of_endpoints
    (h : ∀ endpoint, endpoint ∈ caps.flatMap Capability.endpoints ↔ endpoint ∈ catalogued catalog names) :
    Agree catalog names caps := by
  have hmem (target : String) (endpoint : Operation) :
      (⟨target, endpoint.path, endpoint.method, "allow"⟩ : AllowRequest) ∈
        (caps.flatMap Capability.endpoints).map (request target) ↔
      endpoint ∈ caps.flatMap Capability.endpoints := by
    rw [List.mem_map]
    constructor
    · rintro ⟨⟨method, path⟩, hendpoint, heq⟩
      cases endpoint
      cases heq
      exact hendpoint
    · exact fun hendpoint => ⟨endpoint, hendpoint, rfl⟩
  have hrequested : {endpoint | Allows (requested caps) endpoint} = catalogued catalog names := by
    ext endpoint
    rw [Set.mem_ofPred_eq, allows_requested, h]
  refine ⟨hrequested, (shown_offered caps).trans hrequested, ?_, ?_, ?_, ?_⟩
  · intro a store target subject requests validBefore houtcome
    ext endpoint
    rw [sent, grantOffered_complete houtcome, Set.mem_ofPred_eq, hmem, h]
  · intro a store target subject requests validBefore endpoint hsent
    exact (h endpoint).mp ((hmem target endpoint).mp (grantOffered_sent.subset hsent))
  · intro a store target subject requests validBefore sentRequest hsent
    obtain ⟨endpoint, -, rfl⟩ := List.mem_map.mp (grantOffered_sent.subset hsent)
    exact ⟨rfl, rfl⟩
  · intro path effects hoffered
    obtain ⟨methods, hlookup, rfl⟩ := mem_offered.mp hoffered
    have hnodup := nodup_requested caps path
    rwa [hlookup] at hnodup

/-- Entries that resolve have exactly the operations of their catalog entries. -/
theorem agree_of_resolve (hkeyed : (Json.obj entries).keyed = true)
    (h : List.Forall₂ (fun id capability => resolve http entries id = .ok capability) ids caps)
    (hnames : ∀ name, name ∈ names ↔ name ∈ caps.map Capability.id) :
    Agree (.ok (.obj entries)) names caps := by
  have hresolve : ∀ capability ∈ caps, ∃ paths, (capability.id, paths) ∈ entries ∧
      ∀ endpoint, endpoint ∈ capability.endpoints ↔ Offers paths endpoint := by
    intro capability hcapability
    obtain ⟨id, -, hid⟩ := exists_of_forall₂ h hcapability
    obtain ⟨-, paths, -, ⟨hpaths, -⟩, hoffers⟩ := resolve_eq_ok hid
    exact ⟨paths, hpaths, hoffers⟩
  refine agree_of_endpoints fun endpoint => ?_
  rw [List.mem_flatMap]
  constructor
  · rintro ⟨capability, hcapability, hendpoint⟩
    obtain ⟨paths, hpaths, hoffers⟩ := hresolve capability hcapability
    exact ⟨entries, rfl, capability.id, (hnames _).mpr (List.mem_map_of_mem hcapability), paths, hpaths,
      (hoffers endpoint).mp hendpoint⟩
  · rintro ⟨_, ⟨⟩, name, hname, paths, hpaths, hoffers⟩
    obtain ⟨capability, hcapability, rfl⟩ := List.mem_map.mp ((hnames name).mp hname)
    obtain ⟨paths', hpaths', hoffers'⟩ := hresolve capability hcapability
    have hnodup := Json.nodup_of_keyed hkeyed
    cases (Json.lookup_of_mem hnodup hpaths).symm.trans (Json.lookup_of_mem hnodup hpaths')
    exact ⟨capability, hcapability, (hoffers' endpoint).mpr hoffers⟩

theorem agree_nil (catalog : Except Failure Json) : Agree catalog [] [] := by
  refine agree_of_endpoints fun endpoint => ?_
  constructor
  · intro h
    cases h
  · rintro ⟨_, _, _, hname, -⟩
    cases hname

/-- What is granted is what was shown: the operations of the entries that the names stand for, in
whatever order the names come. -/
theorem offered_grants {ids : Json} (hkeyed : ∀ v, catalog = .ok v → v.keyed = true)
    (h : selected http catalog ids = .ok caps) :
    ∃ names, ids = .arr names ∧
      List.Forall₂ (StandsFor catalog) names (caps.map Capability.id) ∧
      Agree catalog (caps.map Capability.id) caps ∧
      ∀ names', names.Perm names' → ∃ caps', selected http catalog (.arr names') = .ok caps' ∧
        Agree catalog (caps.map Capability.id) caps' := by
  obtain ⟨names, rfl, ⟨rfl, rfl⟩ | ⟨hne, entries, rfl, hchosen, hnodup⟩⟩ := selected_eq_ok.mp h
  · refine ⟨[], rfl, .nil, agree_nil _, fun names' hperm => ?_⟩
    obtain rfl := hperm.nil_eq
    exact ⟨[], selected_eq_ok.mpr ⟨[], rfl, .inl ⟨rfl, rfl⟩⟩, agree_nil _⟩
  · have hentries := hkeyed _ rfl
    refine ⟨names, rfl, ?_, agree_of_resolve hentries hchosen fun _ => Iff.rfl, fun names' hperm => ?_⟩
    · rw [List.forall₂_map_right_iff]
      refine hchosen.imp fun id capability hresolve => ?_
      obtain ⟨name, paths, hid, hpicks, -⟩ := resolve_eq_ok hresolve
      exact ⟨name, entries, paths, hid, rfl, hpicks⟩
    · obtain ⟨caps', hchosen', hcaps⟩ := List.perm_comp_forall₂ hperm.symm hchosen
      have hids := hcaps.map Capability.id
      have hne' : names' ≠ [] := fun he => hne (List.perm_nil.mp (he ▸ hperm))
      refine ⟨caps', selected_eq_ok.mpr ⟨names', rfl, .inr ⟨hne', entries, rfl, hchosen', ?_⟩⟩, ?_⟩
      · exact hids.nodup_iff.mpr hnodup
      · exact agree_of_resolve hentries hchosen' fun name => hids.mem_iff.symm

end

def plainHttp : Http where
  uri path := !(PathText.chars path).any PathText.control
  method name := ["GET", "POST", "PATCH", "DELETE"].contains name

/-- Two packages that share a path, and one that has a title of its own. -/
def catalog : Json :=
  .obj [("example/mail · Read", .obj [("/mail", .arr [.str "GET"]), ("/box", .arr [.str "GET"])]),
    ("example/mail · Write", .obj [("/mail", .arr [.str "GET", .str "POST"])]),
    ("example/notes · Read", .obj [("/notes", .arr [.str "GET"])])]

def readMail : Capability := ⟨"example/mail · Read", [⟨"GET", "/mail"⟩, ⟨"GET", "/box"⟩]⟩

def writeMail : Capability := ⟨"example/mail · Write", [⟨"GET", "/mail"⟩, ⟨"POST", "/mail"⟩]⟩

theorem selected_catalog :
    selected plainHttp (.ok catalog) (.arr [.str "Write", .str "example/mail · Read"]) =
      .ok [writeMail, readMail] := by
  decide +kernel

theorem offered_grants_shared_path :
    ∃ names, Json.arr [.str "Write", .str "example/mail · Read"] = .arr names ∧
      List.Forall₂ (StandsFor (.ok catalog)) names ([writeMail, readMail].map Capability.id) ∧
      Agree (.ok catalog) ([writeMail, readMail].map Capability.id) [writeMail, readMail] ∧
      ∀ names', names.Perm names' → ∃ caps', selected plainHttp (.ok catalog) (.arr names') = .ok caps' ∧
        Agree (.ok catalog) ([writeMail, readMail].map Capability.id) caps' :=
  offered_grants (fun v h => by cases h; decide +kernel) selected_catalog

/-- A title that two packages have is refused. -/
example : selected plainHttp (.ok catalog) (.arr [.str "Read"]) =
    .error (fail 409 "selected capability is ambiguous; refresh the catalog") := by
  decide +kernel

end Pishoo.OfferedGrants
