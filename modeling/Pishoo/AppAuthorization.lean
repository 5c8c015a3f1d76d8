import Pishoo.Result
import Pishoo.Router

namespace Pishoo.AppAuthorization

open Result PathText Authorization Router

/-- A request that reads from below `/app/<name>`. -/
structure Reads (name : Text) (request : Request) : Prop where
  method : reads request.method = true
  path : ∃ tail, request.uri.pathText = app ++ tail ∧ segment tail = name
  name : name ≠ []

/-- The answer comes from the frontend `name`, an installed one or that of a local project. -/
def Serves (name : Text) (response : Reply) : Prop :=
  response.source = .router (.app name) ∨ response.source = .router (.projectApp name)

/-- What the access control says about a request, or the status when nobody is asked. -/
def consult (access : Access) (request : Request) : Except Nat AuthResult :=
  (identify access request).map fun visitor =>
    access.auth (headersOf request) (visitor.map Visitor.name) (visitor.map Visitor.subject)

section

variable {s : Server} {request other : Request} {name : Text} {handler : Handler}
  {fallback : Request → Reply} {access : Access}

theorem appOf_eq_some {root : Text} : appOf request = some root ↔
    ∃ name, Reads name request ∧ root = app ++ name := by
  unfold appOf
  constructor
  · intro h
    obtain ⟨tail, htail, hroot⟩ := Option.bind_eq_some_iff.mp h
    split at htail
    · rename_i hmethod
      split at hroot
      · cases hroot
      · rename_i hname
        cases hroot
        exact ⟨segment tail, ⟨hmethod, ⟨tail, strip_eq_some.mp htail, rfl⟩, hname⟩, rfl⟩
    · cases htail
  · rintro ⟨name, ⟨hmethod, ⟨tail, hpath, hname⟩, hne⟩, rfl⟩
    have hstrip : strip app request.uri.pathText = some tail := strip_eq_some.mpr hpath
    rw [if_pos hmethod, hstrip, Option.bind_some, hname, if_neg hne]

theorem headersOf_reads (h : Reads name request) :
    headersOf request = ⟨.get, app ++ name, request.fields⟩ := by
  have happ : appOf request = some (app ++ name) := appOf_eq_some.mpr ⟨name, h, rfl⟩
  simp [headersOf, happ]

theorem headersOf_not_reads (h : ∀ name, ¬Reads name request) :
    headersOf request =
      ⟨request.method, request.uri.pathAndQuery.getD ['/'], request.fields⟩ := by
  have happ : appOf request = none := by
    cases hroot : appOf request with
    | none => rfl
    | some root =>
        obtain ⟨name, hreads, -⟩ := appOf_eq_some.mp hroot
        exact absurd hreads (h name)
  simp [headersOf, happ]

theorem developmentRouter_serves (h : Serves name (developmentRouter s (routes s) request)) :
    (∃ tail, request.uri.pathText = app ++ tail ∧ segment tail = name) ∧ name ≠ [] := by
  obtain ⟨handler, hsource, hanswers⟩ := developmentRouter_answers s request
  rw [Serves, hsource] at h
  cases hanswers with
  | native => simp at h
  | none => simp at h
  | proxy => simp at h
  | lib => simp at h
  | project => simp at h
  | app hpath hne =>
      obtain rfl : segment _ = name := by simpa using h
      exact ⟨⟨_, hpath, rfl⟩, hne⟩
  | projectApp hproject hpath =>
      obtain rfl : segment _ = name := by simpa using h
      exact ⟨⟨_, hpath, rfl⟩, findProject_name hproject⟩

theorem judge_gate {x : AuthResult} {response : Response Handler} (h : judge x = .error response) :
    response.source = .gate := by
  unfold judge at h
  split at h <;> cases h <;> rfl

/-- A request that is admitted differs from the original only in its visitor. -/
theorem vet_ok {admitted : Request} (h : vet (α := Handler) access request = .ok admitted) :
    ∃ visitor, identify access request = .ok visitor ∧
      admitted = { request with visitor := visitor } ∧
      judge (α := Handler) (access.auth (headersOf request) (visitor.map Visitor.name)
        (visitor.map Visitor.subject)) = .ok () := by
  obtain ⟨visitor, hvisitor, h⟩ := bind_eq_ok.mp h
  obtain ⟨_, hjudge, h⟩ := bind_eq_ok.mp h
  cases h
  exact ⟨visitor, mapError_eq_ok.mp hvisitor, rfl, hjudge⟩

theorem vet_gate {response : Reply} (h : vet access request = .error response) :
    response.source = .gate := by
  obtain h | ⟨visitor, -, h⟩ := bind_eq_error.mp h
  · cases hidentify : identify access { request with visitor := none } with
    | ok visitor =>
        rw [hidentify] at h
        cases h
    | error status =>
        rw [hidentify] at h
        cases h
        rfl
  · obtain h | ⟨_, -, h⟩ := bind_eq_error.mp h
    · exact judge_gate h
    · cases h

theorem finish_source {response : Reply} (h : (finish request response).source = .router handler) :
    response.source = .router handler := by
  unfold finish at h
  dsimp only at h
  split at h
  · split at h
    · exact h
    · cases h
  · exact h

theorem finish_of_none {response : Reply} (h : appOf request = none) :
    finish request response = response := by
  simp [finish, h]

/-- Only what lies behind the authorization can be the source of another answer than its own. -/
theorem currentRouter_source (h : (currentRouter s request).source = .router handler) :
    ∃ admitted, vet (α := Handler) s.access request = .ok admitted ∧
      (developmentRouter s (routes s) admitted).source = .router handler := by
  unfold currentRouter authorize at h
  cases hvet : vet (α := Handler) s.access request with
  | error response =>
      rw [hvet] at h
      rw [vet_gate hvet] at h
      cases h
  | ok admitted =>
      rw [hvet] at h
      exact ⟨admitted, rfl, finish_source h⟩

theorem currentRouter_serves (h : Serves name (currentRouter s request)) :
    ∃ admitted, vet (α := Handler) s.access request = .ok admitted ∧
      Serves name (developmentRouter s (routes s) admitted) := by
  obtain h | h := h
  · obtain ⟨admitted, hvet, hsource⟩ := currentRouter_source h
    exact ⟨admitted, hvet, .inl hsource⟩
  · obtain ⟨admitted, hvet, hsource⟩ := currentRouter_source h
    exact ⟨admitted, hvet, .inr hsource⟩

end

/-- A frontend answers a reading request only after the access control has been asked for the
frontend's root, and no other spelling of the path changes the question. Every other request is
checked for what it says, and routed with the target that it came with. -/
theorem app_authorized (s : Server) (request : Request) :
    (∀ name, reads request.method = true → Serves name (currentRouter s request) →
      headersOf request = ⟨.get, app ++ name, request.fields⟩ ∧
        ∃ result, consult s.access request = .ok result ∧
          judge (α := Handler) result = .ok ()) ∧
    (∀ name other, Reads name request → Reads name other → other.fields = request.fields →
      other.handshake = request.handshake → other.localAuthority = request.localAuthority →
        consult s.access other = consult s.access request) ∧
    ((∀ name, ¬Reads name request) → headersOf request =
      ⟨request.method, request.uri.pathAndQuery.getD ['/'], request.fields⟩) ∧
    ∀ admitted, vet (α := Handler) s.access request = .ok admitted →
      admitted.uri = request.uri ∧ admitted.method = request.method ∧
        ∀ next : Request → Reply, authorize s.access next request = finish admitted (next admitted) := by
  refine ⟨fun name hmethod h => ?_, fun name other hreads hother hfields hhandshake hlocal => ?_,
    headersOf_not_reads, fun admitted h => ?_⟩
  · obtain ⟨admitted, hvet, hserves⟩ := currentRouter_serves h
    obtain ⟨visitor, hvisitor, rfl, hjudge⟩ := vet_ok hvet
    obtain ⟨hpath, hne⟩ := developmentRouter_serves hserves
    refine ⟨headersOf_reads ⟨hmethod, hpath, hne⟩, _, ?_, hjudge⟩
    rw [consult, hvisitor]
    rfl
  · rw [consult, consult, headersOf_reads hreads, headersOf_reads hother, hfields]
    unfold identify
    rw [hhandshake, hlocal]
  · obtain ⟨visitor, -, rfl, -⟩ := vet_ok h
    refine ⟨rfl, rfl, fun next => ?_⟩
    rw [authorize, h]

end Pishoo.AppAuthorization
