import Mathlib.Logic.Relation
import Pishoo.GuestCalls

namespace Pishoo.Callers

open Relation Result PathText Authorization Router AppAuthorization Forwarding GuestCalls

/-- A running identity. -/
structure System where
  host : Host
  endpoint : Endpoint
  server : Server

/-- What is at work for one request or one guest: a request before the router of the identity, one
before the router of its guests, one in the hands of a native service, a guest, and a request that
leaves. -/
inductive Item
  | request (r : Request)
  | outgoing (r : Request)
  | native (r : Request)
  | guest (g : Guest)
  | sent (x : Sent)
  | remote (authority : Text) (owner : Option String) (r : Request)

def addressed (name : String) (authority : Text) : Prop :=
  authority = chars name ∨ ∃ number, authority = chars name ++ ':' :: number

/-- A guest may make any call at any time. What is sent to the identity itself arrives with the facts
of a connection that it has with itself. -/
inductive Spawns (sys : System) : Item → Item → Prop
  | native {r v} : vet (α := Handler) sys.server.access r = .ok v →
      (developmentRouter sys.server (routes sys.server) v).source = .router .native →
      Spawns sys (.request r) (.native v)
  | lib {r v id path handshake g} : vet (α := Handler) sys.server.access r = .ok v →
      (developmentRouter sys.server (routes sys.server) v).source = .router (.lib id path) →
      v.handshake = some handshake →
      invocation sys.host sys.endpoint sys.endpoint handshake = .ok g →
      Spawns sys (.request r) (.guest g)
  | project {r v name path handshake g} : vet (α := Handler) sys.server.access r = .ok v →
      (developmentRouter sys.server (routes sys.server) v).source = .router (.project name path) →
      v.handshake = some handshake →
      invocation sys.host sys.endpoint sys.endpoint handshake = .ok g →
      Spawns sys (.request r) (.guest g)
  | call {g call q} : sendRequest sys.host sys.endpoint call = .ok (.own q) →
      Spawns sys (.guest g) (.outgoing (g.sends q))
  | leave {g call authority owner q} :
      sendRequest sys.host sys.endpoint call = .ok (.remote authority owner q) →
      Spawns sys (.guest g) (.remote authority owner q)
  | service {r v} : vet (α := Handler) sys.server.access r = .ok v →
      isNative sys.server.management v.uri.pathText = true →
      Spawns sys (.outgoing r) (.native v)
  | again {r v q} : vet (α := Handler) sys.server.access r = .ok v →
      isNative sys.server.management v.uri.pathText = false →
      nativeFallback sys.host sys.endpoint sys.server v = .again q →
      Spawns sys (.outgoing r) (.request q)
  | forward {r v x} : vet (α := Handler) sys.server.access r = .ok v →
      isNative sys.server.management v.uri.pathText = false →
      nativeFallback sys.host sys.endpoint sys.server v = .forward (.ok x) →
      Spawns sys (.outgoing r) (.sent x)
  | dhttp {r x} : forwardDhttp sys.host.toHome sys.endpoint r = .ok x →
      Spawns sys (.native r) (.sent x)
  | arrive {x own} : addressed sys.endpoint.name x.authority → sys.endpoint.authority = some own →
      Spawns sys (.sent x) (.request { x.request with handshake := some ⟨some own, some own⟩ })

def Carries : Facts → Request → Prop
  | .caller handshake, r => r.handshake = some handshake
  | .own authority, r => r.handshake = none ∧ r.localAuthority = some authority

/-- The visitor that the access control sees. -/
def visitor (access : Access) : Facts → Except Nat (Option Visitor)
  | .caller handshake =>
      if handshake.local.isNone then .error missingHandshake
      else match handshake.remote with
        | some remote => (visitorOf access remote).map some
        | none => .ok none
  | .own authority => (visitorOf access authority).map some

/-- The facts are those of the owner. -/
def ByOwner (sys : System) (f : Facts) : Prop :=
  ∀ r, Carries f r → Owned sys.host.toHome sys.endpoint r

/-- The native service works for the visitor of the facts, who has been admitted to it. -/
structure Admitted (sys : System) (f : Facts) (r : Request) : Prop where
  carries : Carries f r
  visitor : visitor sys.server.access f = .ok r.visitor
  judged : judge (α := Handler) (sys.server.access.auth (headersOf r) (r.visitor.map Visitor.name)
    (r.visitor.map Visitor.subject)) = .ok ()

/-- The guest is told the truth about the connection, and the identity it runs under is this one. -/
structure Told (sys : System) (f : Facts) (g : Guest) : Prop where
  facts : g.facts = f
  name : ∀ handshake, f = .caller handshake → g.local.name = sys.endpoint.name
  caller : ∀ handshake, f = .caller handshake →
    handshake.local = some g.local ∧ g.remote = handshake.remote
  own : ∀ authority, f = .own authority → g.local = authority ∧ g.remote = none

/-- A request that leaves bears no facts, and expects the owner of the contact that it goes to. -/
structure Pinned (sys : System) (authority : Text) (owner : Option String) (r : Request) : Prop where
  contact : ∃ name, name ≠ sys.endpoint.name ∧ addressed name authority ∧
    sys.host.findContact name = .ok owner
  bare : r.handshake = none ∧ r.localAuthority = none ∧ r.visitor = none

def Under (sys : System) (f : Facts) : Item → Prop
  | .request r => Carries f r
  | .outgoing r => Carries f r
  | .native r => Admitted sys f r
  | .guest g => Told sys f g
  | .sent _ => False
  | .remote authority owner r => Pinned sys authority owner r

section

variable {sys : System} {f : Facts} {r v q : Request} {g : Guest} {x y : Item}

theorem identify_carries (h : Carries f r) : identify sys.server.access r = visitor sys.server.access f := by
  cases f with
  | caller handshake =>
      have hhandshake : r.handshake = some handshake := h
      rw [identify, hhandshake]
      rfl
  | own authority =>
      obtain ⟨hnone, hlocal⟩ : r.handshake = none ∧ r.localAuthority = some authority := h
      rw [identify, hnone, hlocal]
      rfl

theorem Carries.of_same (h : Carries f r) (hhandshake : q.handshake = r.handshake)
    (hlocal : q.localAuthority = r.localAuthority) : Carries f q := by
  cases f with
  | caller handshake => exact hhandshake.trans h
  | own authority => exact ⟨hhandshake.trans h.1, hlocal.trans h.2⟩

theorem vet_admitted (h : Carries f r) (hvet : vet (α := Handler) sys.server.access r = .ok v) :
    Admitted sys f v := by
  obtain ⟨seen, hseen, rfl, hjudge⟩ := vet_ok hvet
  rw [identify_carries h] at hseen
  exact ⟨h.of_same rfl rfl, hseen, hjudge⟩

theorem owned_of_same (h : Owned sys.host.toHome sys.endpoint r) (hhandshake : q.handshake = r.handshake)
    (hlocal : q.localAuthority = r.localAuthority) : Owned sys.host.toHome sys.endpoint q := by
  obtain ⟨handshake, own, remote, hash, hsome, hrest⟩ | ⟨own, actual, hash, hnone, hown, hrest⟩ := h
  · exact .inl ⟨handshake, own, remote, hash, hhandshake.trans hsome, hrest⟩
  · exact .inr ⟨own, actual, hash, hhandshake.trans hnone, hlocal.trans hown, hrest⟩

/-- What concerns the owner depends on the facts only. -/
theorem byOwner_of_owned (h : Carries f r) (howned : Owned sys.host.toHome sys.endpoint r) :
    ByOwner sys f := by
  intro q hq
  cases f with
  | caller handshake =>
      have hsame : q.handshake = r.handshake := Eq.trans hq (Eq.symm h)
      obtain ⟨_, own, remote, hash, hsome, hrest⟩ | ⟨_, _, _, hnone, -⟩ := howned
      · exact .inl ⟨_, own, remote, hash, hsame.trans hsome, hrest⟩
      · rw [show r.handshake = some handshake from h] at hnone
        cases hnone
  | own authority =>
      exact owned_of_same howned (hq.1.trans h.1.symm) (hq.2.trans h.2.symm)

theorem invocation_told {handshake : Handshake}
    (h : invocation sys.host sys.endpoint sys.endpoint handshake = .ok g) :
    Told sys (.caller handshake) g := by
  simp only [invocation, bind_eq_ok, orStatus_eq_ok, failIf_eq_ok, not_not] at h
  obtain ⟨invoked, hinvoked, _, hname, _, -, actual, -, hash, -, hash', -, _, -, hg⟩ := h
  cases hg
  refine ⟨rfl, fun _ _ => hname, fun other hother => ?_, by rintro _ ⟨⟩⟩
  cases hother
  exact ⟨hinvoked, rfl⟩

theorem background_told (h : background sys.host sys.endpoint sys.endpoint = .ok g) :
    Told sys g.facts g ∧ ∃ own, sys.endpoint.authority = some own ∧ g.facts = .own own := by
  simp only [background, bind_eq_ok, orStatus_eq_ok] at h
  obtain ⟨own, hown, _, -, hg⟩ := h
  cases hg
  refine ⟨⟨rfl, by rintro _ ⟨⟩, by rintro _ ⟨⟩, fun other hother => ?_⟩, own, hown, rfl⟩
  cases hother
  exact ⟨rfl, rfl⟩

theorem sends_carries (h : Told sys f g) (q : Request) : Carries f (g.sends q) := by
  rw [Guest.sends, h.facts]
  cases f with
  | caller handshake => rfl
  | own authority => exact ⟨rfl, rfl⟩

theorem canonical_addressed {host : Host} {endpoint : Endpoint} {name : String} {port : Option Text}
    {authority : Text} (h : canonical host endpoint name port = .ok authority) :
    addressed name authority := by
  cases port with
  | none =>
      cases h
      exact .inl rfl
  | some port =>
      simp only [canonical, bind_eq_ok] at h
      obtain ⟨number, -, _, -, _, -, h⟩ := h
      cases h
      exact .inr ⟨_, rfl⟩

theorem sendRemote_pinned {name : String} {authority authority' : Text} {owner : Option String}
    (hname : name ≠ sys.endpoint.name) (haddressed : addressed name authority)
    (hbare : r.handshake = none ∧ r.localAuthority = none ∧ r.visitor = none)
    (h : sendRemote sys.host name authority r = .ok (.remote authority' owner q)) :
    Pinned sys authority' owner q := by
  obtain ⟨contact, hcontact, h⟩ := bind_eq_ok.mp h
  rw [mapError_eq_ok] at hcontact
  cases contact with
  | none =>
      cases h
      exact ⟨⟨name, hname, haddressed, hcontact⟩, hbare⟩
  | some subject =>
      obtain ⟨_, -, h⟩ := bind_eq_ok.mp h
      cases h
      exact ⟨⟨name, hname, haddressed, hcontact⟩, hbare⟩

theorem sendRequest_pinned {call : Call} {authority : Text} {owner : Option String}
    (h : sendRequest sys.host sys.endpoint call = .ok (.remote authority owner q)) :
    Pinned sys authority owner q := by
  simp only [sendRequest, bind_eq_ok] at h
  obtain ⟨_, -, _, -, _, -, name, -, authority', hcanonical, _, -, _, -, h⟩ := h
  split at h
  · cases h
  · rename_i hname
    exact sendRemote_pinned hname (canonical_addressed hcanonical) ⟨rfl, rfl, rfl⟩ h

theorem nativeFallback_again (h : nativeFallback sys.host sys.endpoint sys.server r = .again q) :
    q = r := by
  unfold nativeFallback at h
  dsimp only at h
  split at h
  · cases h
  · split at h
    · cases h
    · cases h
      rfl

theorem nativeFallback_forward {z : Sent}
    (h : nativeFallback sys.host sys.endpoint sys.server r = .forward (.ok z)) :
    Owned sys.host.toHome sys.endpoint r := by
  unfold nativeFallback at h
  dsimp only at h
  split at h
  · cases h
  · split at h
    · rw [Passed.forward.injEq, forwardDhttp_eq_ok] at h
      exact owned_of_same h.1 rfl rfl
    · cases h

/-- What is spawned under some facts is under the same ones, or leaves in the name of the owner. -/
theorem under_step (h : Under sys f x) (hspawns : Spawns sys x y) :
    Under sys f y ∨ ByOwner sys f ∧ ∃ z, y = .sent z := by
  cases hspawns with
  | native hvet _ => exact .inl (vet_admitted h hvet)
  | lib hvet _ hhandshake hinvocation =>
      have hcarries := (vet_admitted h hvet).carries
      cases f with
      | caller handshake =>
          cases Option.some.inj (Eq.trans (Eq.symm hhandshake) hcarries)
          exact .inl (invocation_told hinvocation)
      | own authority =>
          rw [hcarries.1] at hhandshake
          cases hhandshake
  | project hvet _ hhandshake hinvocation =>
      have hcarries := (vet_admitted h hvet).carries
      cases f with
      | caller handshake =>
          cases Option.some.inj (Eq.trans (Eq.symm hhandshake) hcarries)
          exact .inl (invocation_told hinvocation)
      | own authority =>
          rw [hcarries.1] at hhandshake
          cases hhandshake
  | call _ => exact .inl (sends_carries h _)
  | leave hcall => exact .inl (sendRequest_pinned hcall)
  | service hvet _ => exact .inl (vet_admitted h hvet)
  | again hvet _ hagain =>
      rw [nativeFallback_again hagain]
      exact .inl (vet_admitted h hvet).carries
  | forward hvet _ hforward =>
      have hcarries := (vet_admitted h hvet).carries
      exact .inr ⟨byOwner_of_owned hcarries (nativeFallback_forward hforward), _, rfl⟩
  | dhttp hforward =>
      exact .inr ⟨byOwner_of_owned h.carries (forwardDhttp_eq_ok.mp hforward).1, _, rfl⟩
  | arrive _ _ => exact h.elim

/-- What is at work is under the facts of the start, or it has left in the owner's name and come
back as a request of the owner. -/
def Acts (sys : System) (f : Facts) (y : Item) : Prop :=
  Under sys f y ∨ ByOwner sys f ∧ ((∃ z, y = .sent z) ∨
    ∃ own, sys.endpoint.authority = some own ∧ Under sys (.caller ⟨some own, some own⟩) y)

theorem acts_step (h : Acts sys f x) (hspawns : Spawns sys x y) : Acts sys f y := by
  obtain hunder | ⟨howner, ⟨z, rfl⟩ | ⟨own, hown, hunder⟩⟩ := h
  · obtain hunder | ⟨howner, hsent⟩ := under_step hunder hspawns
    · exact .inl hunder
    · exact .inr ⟨howner, .inl hsent⟩
  · cases hspawns with
    | arrive _ hown => exact .inr ⟨howner, .inr ⟨_, hown, rfl⟩⟩
  · obtain hunder | ⟨-, hsent⟩ := under_step hunder hspawns
    · exact .inr ⟨howner, .inr ⟨own, hown, hunder⟩⟩
    · exact .inr ⟨howner, .inl hsent⟩

theorem acts_run (h : Acts sys f x) (hrun : ReflTransGen (Spawns sys) x y) : Acts sys f y := by
  induction hrun with
  | refl => exact h
  | tail _ hspawns ih => exact acts_step ih hspawns

/-- A request that has come over a connection, or a guest that is run in the background. -/
def Starts (sys : System) (f : Facts) (x : Item) : Prop :=
  (∃ r handshake, x = .request r ∧ r.handshake = some handshake ∧ f = .caller handshake) ∨
    ∃ g, background sys.host sys.endpoint sys.endpoint = .ok g ∧ x = .guest g ∧ f = g.facts

theorem Starts.under (h : Starts sys f x) : Under sys f x := by
  obtain ⟨r, handshake, rfl, hhandshake, rfl⟩ | ⟨g, hbackground, rfl, rfl⟩ := h
  · exact hhandshake
  · exact (background_told hbackground).1

/-- The facts are those of the start, or the owner has sent a request to the identity itself. -/
def Same (sys : System) (f f' : Facts) : Prop :=
  f' = f ∨ ByOwner sys f ∧ ∃ own, sys.endpoint.authority = some own ∧
    f' = .caller ⟨some own, some own⟩

theorem Acts.same (h : Acts sys f y) (hnot : ∀ z, y ≠ .sent z) :
    ∃ f', Same sys f f' ∧ Under sys f' y := by
  obtain hunder | ⟨howner, ⟨z, rfl⟩ | ⟨own, hown, hunder⟩⟩ := h
  · exact ⟨f, .inl rfl, hunder⟩
  · exact absurd rfl (hnot z)
  · exact ⟨_, .inr ⟨howner, own, hown, rfl⟩, hunder⟩

end

/-- Whatever guests call, and however often libs call each other: each native service works for the
visitor with whom it all began, who has been admitted to it, each guest is told of that peer, and
only what the owner began is sent on in the owner's name. What leaves for a contact expects the
contact's owner. -/
theorem callers_kept {sys : System} {f : Facts} {x y : Item} (hstart : Starts sys f x)
    (hrun : ReflTransGen (Spawns sys) x y) :
    (∀ r, y = .request r ∨ y = .outgoing r → ∃ f', Same sys f f' ∧ Carries f' r) ∧
    (∀ r, y = .native r → ∃ f', Same sys f f' ∧ Admitted sys f' r) ∧
    (∀ g, y = .guest g → ∃ f', Same sys f f' ∧ Told sys f' g) ∧
    (∀ z, y = .sent z → ByOwner sys f) ∧
    ∀ authority owner r, y = .remote authority owner r → Pinned sys authority owner r := by
  have hacts : Acts sys f y := acts_run (.inl hstart.under) hrun
  refine ⟨fun r hy => ?_, fun r hy => ?_, fun g hy => ?_, fun z hy => ?_, fun a o r hy => ?_⟩
  · obtain rfl | rfl := hy
    · exact hacts.same (by rintro _ ⟨⟩)
    · exact hacts.same (by rintro _ ⟨⟩)
  · subst hy
    exact hacts.same (by rintro _ ⟨⟩)
  · subst hy
    exact hacts.same (by rintro _ ⟨⟩)
  · subst hy
    obtain hunder | ⟨howner, -⟩ := hacts
    · exact hunder.elim
    · exact howner
  · subst hy
    obtain ⟨f', -, hunder⟩ := hacts.same (by rintro _ ⟨⟩)
    exact hunder

def hashOf (certificates : List (List UInt8)) : Option String :=
  if certificates = [[1]] then some "alice" else some "bob"

def alice : Authority := ⟨"alice.example", [[1]]⟩

def bob : Authority := ⟨"bob.example", [[2]]⟩

def sampleSystem : System where
  host := ⟨⟨some, hashOf, fun _ => true, fun _ => true⟩, chars ".example", fun _ => some 1,
    fun _ => true, fun _ => .ok none⟩
  endpoint := ⟨"alice.example", some alice⟩
  server := {
    access := ⟨fun _ _ _ => .allowed, hashOf⟩
    owner := some ⟨"alice.example", "alice"⟩
    libs := [⟨some "carol.example", "shop"⟩, ⟨some "carol.example", "notes"⟩]
    apps := []
    proxies := []
    projects := fun _ => .ok none
    management := below (chars "/std/contact")
    pathChar := fun _ => true
    queryChar := fun _ => true
    decode := some
    perform := fun _ _ => .ok (200, [])
    valid := by rintro _ ⟨⟩ }

def bobFacts : Handshake := ⟨some alice, some bob⟩

def bobRequest (path : String) : Request :=
  ⟨.get, .target (chars path) none, [], some bobFacts, none, none⟩

def callTo (path : String) : Call :=
  ⟨.get, some (chars "https"), some ⟨['~'], ['~'], none⟩, .target (chars path) none, []⟩

def bobGuest : Guest := ⟨alice, some bob, .caller bobFacts⟩

def bobVisitor : Visitor := ⟨"bob.example", "bob"⟩

def served (path : String) : Request := { bobRequest path with visitor := some bobVisitor }

theorem sample_guest {path : String} {id : Id} {guest : Text}
    (h : (developmentRouter sampleSystem.server (routes sampleSystem.server) (served path)).source =
      .router (.lib id guest)) {visitor : Option Visitor} :
    Spawns sampleSystem (.request { bobRequest path with visitor := visitor }) (.guest bobGuest) :=
  .lib rfl h rfl rfl

theorem sample_call (path : String) :
    Spawns sampleSystem (.guest bobGuest) (.outgoing (bobRequest path)) := by
  have hcall : sendRequest sampleSystem.host sampleSystem.endpoint (callTo path) =
      .ok (.own ⟨.get, .target (chars path) none, [], none, none, none⟩) := rfl
  exact @Spawns.call _ bobGuest _ _ hcall

/-- A lib that serves `bob` calls another lib, which calls the contact service. -/
theorem sample_run : ReflTransGen (Spawns sampleSystem) (.request (bobRequest "/shop/items"))
    (.native (served "/std/contact")) := by
  have hshop : Spawns sampleSystem (.request (bobRequest "/shop/items")) (.guest bobGuest) :=
    @sample_guest "/shop/items" _ _ rfl none
  have hagain : Spawns sampleSystem (.outgoing (bobRequest "/notes/list"))
      (.request (served "/notes/list")) := .again rfl rfl rfl
  have hnotes : Spawns sampleSystem (.request (served "/notes/list")) (.guest bobGuest) :=
    @sample_guest "/notes/list" _ _ rfl (some bobVisitor)
  have hservice : Spawns sampleSystem (.outgoing (bobRequest "/std/contact"))
      (.native (served "/std/contact")) := .service rfl rfl
  have hnested := ((ReflTransGen.single hshop).tail (sample_call "/notes/list")).tail hagain
  exact ((hnested.tail hnotes).tail (sample_call "/std/contact")).tail hservice

theorem callers_kept_bob : ∃ r, ReflTransGen (Spawns sampleSystem)
    (.request (bobRequest "/shop/items")) (.native r) ∧ Admitted sampleSystem (.caller bobFacts) r := by
  refine ⟨_, sample_run, ?_⟩
  have hkept := callers_kept (f := .caller bobFacts) (.inl ⟨_, _, rfl, rfl, rfl⟩) sample_run
  obtain ⟨f', rfl | ⟨howner, -⟩, hadmitted⟩ := hkept.2.1 _ rfl
  · exact hadmitted
  · obtain ⟨_, _, _, _, hsome, -, hremote, -, hname, -⟩ | ⟨_, _, _, hnone, -⟩ :=
      howner (bobRequest "/std/contact") rfl
    · cases hsome
      cases hremote
      exact absurd hname (by decide)
    · cases hnone

end Pishoo.Callers
