import Mathlib.Data.List.AList
import Pishoo.Settings

namespace Pishoo.Reconcile

open Result Settings ProxyRules Machine

/-- An error of the service. The loading of a profile tells identities that are not valid apart. -/
inductive Failure
  | invalidIdentity (message : String)
  | other (error : Error)

structure Profile where
  name : String
  path : String
  deriving DecidableEq

inductive Scopes
  | loopback | internal | external | all
  deriving DecidableEq

/-- A name that is registered with the network. Dropping it takes the registration back. -/
structure Listener where
  scopes : Scopes

structure Publisher (E : Type) where
  endpoint : E

/-- What the routes of a server have been made from. -/
structure Routes (E A S : Type) where
  proxies : List ProxyLocation
  profile : Profile
  endpoint : E
  access : A
  sandbox : S

structure Server (E A S : Type) where
  profile : Profile
  endpoint : E
  config : ServerConfig
  access : A
  sandbox : S
  router : Routes E A S
  publisher : Option (Publisher E)
  listener : Option Listener

/-- What the network, the file system and the database answer while a server is changed. -/
structure Outcome (E A S : Type) where
  stored : Except Failure ServerConfig
  authority : Except String Unit
  publisher : Except String Unit
  listen : Except Failure Unit
  listenAgain : Except Failure Unit
  close : Except Failure Unit
  hosted : Except Failure Bool
  settings : Except Failure Json
  configured : Except Failure Json
  endpoint : Except Failure E
  access : Except Failure A
  config : Except Failure ServerConfig
  sandbox : Except Failure S

abbrev Servers (E A S : Type) := AList fun _ : String => Server E A S

section

variable {E A S : Type}

def scopesOf : String → Except Failure Scopes
  | "off" => .error (.other (.invalidConfig "listen is disabled"))
  | "loopback" => .ok .loopback
  | "internal" => .ok .internal
  | "external" => .ok .external
  | "all" => .ok .all
  | _ => .error (.other (.invalidConfig "invalid listen mode"))

def publishes (mode : String) : Bool := ["external", "all"].contains mode

def currentRouter (s : Server E A S) : Routes E A S :=
  ⟨s.config.proxyLocations, s.profile, s.endpoint, s.access, s.sandbox⟩

def Server.listen (s : Server E A S) (bound : Except Failure Unit) : Except Failure Listener := do
  let scopes ← scopesOf s.config.listen
  bound
  .ok ⟨scopes⟩

def publisherOf (made : Except String Unit) (endpoint : E) : Except Failure (Publisher E) := do
  made.mapError fun message => .other (.io message)
  .ok ⟨endpoint⟩

/-- The publisher that a mode of listening asks for. -/
def publisherFor (made : Except String Unit) (mode : String) (endpoint : E) :
    Except Failure (Option (Publisher E)) :=
  if publishes mode then do
    let publisher ← publisherOf made endpoint
    .ok (some publisher)
  else .ok none

def load (o : Outcome E A S) (profile : Profile) : Except Failure (Server E A S) := do
  let endpoint ← o.endpoint
  let access ← o.access
  let config ← o.config
  doIf (config.listen ≠ "off") (o.authority.mapError .invalidIdentity)
  let publisher ← publisherFor o.publisher config.listen endpoint
  let sandbox ← o.sandbox
  .ok { profile, endpoint, config, access, sandbox, publisher
        router := ⟨config.proxyLocations, profile, endpoint, access, sandbox⟩
        listener := none }

def loadProfile (o : Outcome E A S) (profile : Profile) : Except Failure (Option (Server E A S)) := do
  let hosted ← o.hosted
  if !hosted then .ok none
  else do
    let settings ← (match o.settings with
      | .ok settings => .ok settings
      | .error _ => o.configured)
    if settings.get "listen" = .str "off" then .ok none
    else match load o profile with
      | .ok server =>
          if server.config.listen = "off" then do
            o.close
            .ok none
          else .ok (some server)
      | .error (.invalidIdentity _) => .ok none
      | .error e => .error e

def sameConfig (a b : ServerConfig) : Bool :=
  a.listen == b.listen && a.proxyLocations.length == b.proxyLocations.length &&
    (a.proxyLocations.zip b.proxyLocations).all fun (a, b) =>
      a.location == b.location && a.proxyPass.scheme == b.proxyPass.scheme &&
        a.proxyPass.authority == b.proxyPass.authority &&
        a.proxyPass.pathAndQuery == b.proxyPass.pathAndQuery

def nextPublisher (o : Outcome E A S) (s : Server E A S) (config : ServerConfig) :
    Except Failure (Option (Publisher E)) :=
  if s.config.listen ≠ config.listen ∧ config.listen ≠ "off" then do
    o.authority.mapError .invalidIdentity
    publisherFor o.publisher config.listen s.endpoint
  else if s.config.listen ≠ config.listen then .ok none
  else .ok s.publisher

/-- The end of both changes of a server. -/
def Server.renew (s : Server E A S) (publisher : Option (Publisher E)) : Server E A S :=
  { s with publisher, router := currentRouter s }

/-- The former configuration is listened to again. -/
def restore (o : Outcome E A S) (s : Server E A S) (previous : ServerConfig) : Server E A S :=
  let s := { s with config := previous }
  if s.config.listen ≠ "off" then
    match s.listen o.listenAgain with
    | .ok listener => { s with listener := some listener }
    | .error _ => s
  else s

def applyConfig (o : Outcome E A S) (s : Server E A S) (config : ServerConfig) :
    Except Failure Unit × Server E A S :=
  match nextPublisher o s config with
  | .error e => (.error e, s)
  | .ok publisher =>
      let previous := s.config
      let scopeChanged := previous.listen ≠ config.listen
      let s := { s with config }
      if scopeChanged then
        let s := { s with listener := none }
        if config.listen ≠ "off" then
          match s.listen o.listen with
          | .ok listener => (.ok (), { s with listener := some listener }.renew publisher)
          | .error e => (.error e, restore o s previous)
        else (.ok (), s.renew publisher)
      else (.ok (), s.renew publisher)

def applyOcsp (made : Except String Unit) (s : Server E A S) (endpoint : E) :
    Except Failure Unit × Server E A S :=
  match publisherFor made s.config.listen endpoint with
  | .error e => (.error e, s)
  | .ok publisher => (.ok (), { s with endpoint }.renew publisher)

/-- The servers during a scan, and whether it has changed them. -/
structure Scan (E A S : Type) where
  servers : Servers E A S
  changed : Bool

def enable (o : Outcome E A S) (scan : Scan E A S) (profile : Profile) :
    Except Failure Unit × Scan E A S :=
  match loadProfile o profile with
  | .error e => (.error e, scan)
  | .ok none => (.ok (), scan)
  | .ok (some server) =>
      if server.config.listen ≠ "off" then
        match server.listen o.listen with
        | .ok listener =>
            (.ok (), ⟨scan.servers.insert profile.name { server with listener := some listener }, true⟩)
        | .error e => (match o.close with
            | .error e => .error e
            | .ok () => .error e, scan)
      else (.ok (), ⟨scan.servers.insert profile.name server, true⟩)

/-- The rest of a scan for a server whose configuration has been applied. -/
def applied (scan : Scan E A S) (name : String) :
    Except Failure Unit × Server E A S → Except Failure Unit × Scan E A S
  | (result, server) =>
      let evicted := server.config.listen ≠ "off" ∧ server.listener.isNone = true
      (result, if evicted then ⟨scan.servers.erase name, true⟩
        else ⟨scan.servers.insert name server, scan.changed || result.toBool⟩)

def update (o : Outcome E A S) (scan : Scan E A S) (name : String) (server : Server E A S) :
    Except Failure Unit × Scan E A S :=
  match o.stored with
  | .error e => (.error e, scan)
  | .ok config =>
      if config.listen = "off" then (o.close, ⟨scan.servers.erase name, true⟩)
      else if sameConfig server.config config then (.ok (), scan)
      else applied scan name (applyConfig o server config)

def reconcileProfile (o : Outcome E A S) (scan : Scan E A S) (profile : Profile) :
    Except Failure Unit × Scan E A S :=
  match scan.servers.lookup profile.name with
  | some server => update o scan profile.name server
  | none => enable o scan profile

/-- The names of the servers whose profiles have not been found at their paths. -/
def removed (profiles : List Profile) (servers : Servers E A S) : List String :=
  servers.keys.filter fun name => !profiles.any fun profile => profile.name == name &&
    (servers.lookup name).any fun server => profile.path == server.profile.path

def remove (scan : Scan E A S) (name : String) : Scan E A S := ⟨scan.servers.erase name, true⟩

/-- The scan before its first profile. -/
def begin (profiles : List Profile) (servers : Servers E A S) : Scan E A S :=
  (removed profiles servers).foldl remove ⟨servers, false⟩

def scanned (found : List (Profile × Outcome E A S)) (scan : Scan E A S) : Scan E A S :=
  found.foldl (fun scan f => (reconcileProfile f.2 scan f.1).2) scan

def reconcileProfiles (discovered : Except Failure (List (Profile × Outcome E A S)))
    (servers : Servers E A S) : Except Failure Bool × Servers E A S :=
  match discovered with
  | .error e => (.error e, servers)
  | .ok found =>
      let scan := scanned found (begin (found.map Prod.fst) servers)
      (.ok scan.changed, scan.servers)

inductive Event (E A S : Type)
  | scan (discovered : Except Failure (List (Profile × Outcome E A S)))
  | refresh (name : String) (made : Except String Unit) (renewed : Except Failure E)

/-- The servers, and the profiles of the last scan that has succeeded. -/
structure State (E A S : Type) where
  servers : Servers E A S
  profiles : List Profile

def State.start : State E A S := ⟨∅, []⟩

/-- The server of a name whose credentials have been asked for again. -/
def refresh (made : Except String Unit) (renewed : Except Failure E) (servers : Servers E A S)
    (name : String) (s : Server E A S) : Servers E A S :=
  match renewed with
  | .ok endpoint => servers.insert name (applyOcsp made s endpoint).2
  | .error _ => servers

def step (t : State E A S) : Event E A S → Option (State E A S)
  | .scan discovered => some ⟨(reconcileProfiles discovered t.servers).2,
      match discovered with
      | .ok found => found.map Prod.fst
      | .error _ => t.profiles⟩
  | .refresh name made renewed =>
      (t.servers.lookup name).map fun s => { t with servers := refresh made renewed t.servers name s }

/-- What a server is once it has been put into service. -/
structure Serves (s : Server E A S) : Prop where
  enabled : s.config.listen ≠ "off"
  live : ∃ listener, s.listener = some listener ∧ scopesOf s.config.listen = .ok listener.scopes
  publisher : s.publisher = if publishes s.config.listen then some ⟨s.endpoint⟩ else none
  router : s.router = currentRouter s

/-- What a server is at its name after the scan that has found the profiles. -/
structure Coherent (profiles : List Profile) (name : String) (s : Server E A S) : Prop
    extends Serves s where
  name : s.profile.name = name
  discovered : s.profile ∈ profiles

def AllCoherent (profiles : List Profile) (servers : Servers E A S) : Prop :=
  ∀ name s, servers.lookup name = some s → Coherent profiles name s

/-- A failed change leaves the server in service as it was. -/
structure Retained (s s' : Server E A S) : Prop where
  config : s'.config = s.config
  publisher : s'.publisher = s.publisher
  router : s'.router = s.router
  live : s'.listener.isSome = true

end

section

variable {E A S : Type} {o : Outcome E A S} {s s' : Server E A S} {config : ServerConfig}
  {made : Except String Unit} {mode : String} {endpoint : E} {profile : Profile}
  {profiles : List Profile} {servers : Servers E A S} {scan : Scan E A S} {name other : String}
  {e : Failure}

theorem listen_ok {bound : Except Failure Unit} {listener : Listener}
    (h : s.listen bound = .ok listener) : scopesOf s.config.listen = .ok listener.scopes := by
  obtain ⟨scopes, hscopes, h⟩ := bind_eq_ok.mp h
  obtain ⟨_, -, h⟩ := bind_eq_ok.mp h
  cases h
  exact hscopes

theorem publisherFor_ok {publisher : Option (Publisher E)}
    (h : publisherFor made mode endpoint = .ok publisher) :
    publisher = if publishes mode then some ⟨endpoint⟩ else none := by
  rw [publisherFor] at h
  split at h
  · rename_i hpublishes
    obtain ⟨p, hp, h⟩ := bind_eq_ok.mp h
    obtain ⟨_, -, hp⟩ := bind_eq_ok.mp hp
    cases hp
    cases h
    rw [if_pos hpublishes]
  · rename_i hpublishes
    cases h
    rw [if_neg hpublishes]

theorem nextPublisher_ok {publisher : Option (Publisher E)} (hs : Serves s)
    (hon : config.listen ≠ "off") (h : nextPublisher o s config = .ok publisher) :
    publisher = if publishes config.listen then some ⟨s.endpoint⟩ else none := by
  rw [nextPublisher] at h
  by_cases hscope : s.config.listen = config.listen
  · rw [if_neg (fun hchanged => hchanged.1 hscope), if_neg (not_not.mpr hscope)] at h
    cases h
    rw [hs.publisher, hscope]
  · rw [if_pos ⟨hscope, hon⟩] at h
    obtain ⟨_, -, h⟩ := bind_eq_ok.mp h
    exact publisherFor_ok h

theorem load_ok (h : load o profile = .ok s) : s.profile = profile ∧
    s.publisher = (if publishes s.config.listen then some ⟨s.endpoint⟩ else none) ∧
    s.router = currentRouter s := by
  obtain ⟨endpoint, -, h⟩ := bind_eq_ok.mp h
  obtain ⟨access, -, h⟩ := bind_eq_ok.mp h
  obtain ⟨config, -, h⟩ := bind_eq_ok.mp h
  obtain ⟨_, -, h⟩ := bind_eq_ok.mp h
  obtain ⟨publisher, hpublisher, h⟩ := bind_eq_ok.mp h
  obtain ⟨sandbox, -, h⟩ := bind_eq_ok.mp h
  cases h
  exact ⟨rfl, publisherFor_ok hpublisher, rfl⟩

theorem loadProfile_ok (h : loadProfile o profile = .ok (some s)) :
    load o profile = .ok s ∧ s.config.listen ≠ "off" := by
  obtain ⟨hosted, -, h⟩ := bind_eq_ok.mp h
  split at h
  · cases h
  · obtain ⟨settings, -, h⟩ := bind_eq_ok.mp h
    split at h
    · cases h
    · split at h
      · rename_i server hload
        split at h
        · obtain ⟨_, -, h⟩ := bind_eq_ok.mp h
          cases h
        · rename_i hon
          cases h
          exact ⟨hload, hon⟩
      · cases h
      · cases h

/-- The outcomes of applying a configuration other than `off`. -/
inductive Applies (s : Server E A S) (config : ServerConfig) :
    Except Failure Unit × Server E A S → Prop
  | done (s' : Server E A S) : Serves s' → s'.config = config → s'.profile = s.profile →
      Applies s config (.ok (), s')
  | kept (e : Failure) (s' : Server E A S) : Serves s' → Retained s s' →
      s'.profile = s.profile → Applies s config (.error e, s')
  | lost (e : Failure) (s' : Server E A S) : s'.config.listen ≠ "off" → s'.listener = none →
      Applies s config (.error e, s')

theorem Serves.retained (hs : Serves s) : Retained s s := by
  obtain ⟨listener, hlistener, -⟩ := hs.live
  exact ⟨rfl, rfl, rfl, by rw [hlistener]; rfl⟩

theorem Serves.not_evicted (hs : Serves s) :
    ¬(s.config.listen ≠ "off" ∧ s.listener.isNone = true) := by
  obtain ⟨listener, hlistener, -⟩ := hs.live
  rw [hlistener]
  rintro ⟨-, hnone⟩
  cases hnone

theorem restore_applies (hs : Serves s) (e : Failure) :
    Applies s config (.error e, restore o { s with config, listener := none } s.config) := by
  obtain ⟨hon, -, hpublisher, hrouter⟩ := hs
  rw [restore]
  dsimp only
  rw [if_pos hon]
  split
  · rename_i listener hlisten
    exact .kept e _ ⟨hon, ⟨listener, rfl, listen_ok hlisten⟩, hpublisher, hrouter⟩ ⟨rfl, rfl, rfl, rfl⟩ rfl
  · exact .lost e _ hon rfl

theorem applyConfig_applies (hs : Serves s) (hon : config.listen ≠ "off") :
    Applies s config (applyConfig o s config) := by
  rw [applyConfig]
  split
  · exact .kept _ s hs hs.retained rfl
  · rename_i publisher hpublisher
    have hnext := nextPublisher_ok hs hon hpublisher
    dsimp only
    by_cases hscope : s.config.listen = config.listen
    · obtain ⟨listener, hlistener, hscopes⟩ := hs.live
      rw [if_neg (not_not.mpr hscope)]
      exact .done _ ⟨hon, ⟨listener, hlistener, hscope ▸ hscopes⟩, hnext, rfl⟩ rfl rfl
    · rw [if_pos hscope, if_pos hon]
      split
      · rename_i listener hlisten
        exact .done _ ⟨hon, ⟨listener, rfl, listen_ok hlisten⟩, hnext, rfl⟩ rfl rfl
      · exact restore_applies hs _

theorem applyOcsp_serves (hs : Serves s) (made : Except String Unit) (endpoint : E) :
    Serves (applyOcsp made s endpoint).2 ∧ (applyOcsp made s endpoint).2.profile = s.profile := by
  rw [applyOcsp]
  split
  · exact ⟨hs, rfl⟩
  · rename_i publisher hpublisher
    exact ⟨⟨hs.enabled, hs.live, publisherFor_ok hpublisher, rfl⟩, rfl⟩

theorem applyOcsp_error (h : (applyOcsp made s endpoint).1 = .error e) :
    (applyOcsp made s endpoint).2 = s := by
  rw [applyOcsp] at h ⊢
  split at h
  · rfl
  · cases h

theorem AllCoherent.erase (h : AllCoherent profiles servers) (name : String) :
    AllCoherent profiles (servers.erase name) := by
  intro other s hs
  by_cases hother : other = name
  · rw [hother, AList.lookup_erase] at hs
    cases hs
  · rw [AList.lookup_erase_ne hother] at hs
    exact h other s hs

theorem AllCoherent.insert (h : AllCoherent profiles servers) (hs : Coherent profiles name s) :
    AllCoherent profiles (servers.insert name s) := by
  intro other s' hs'
  by_cases hother : other = name
  · rw [hother, AList.lookup_insert] at hs'
    cases hs'
    exact hother ▸ hs
  · rw [AList.lookup_insert_ne hother] at hs'
    exact h other s' hs'

theorem lookup_remove (names : List String) (scan : Scan E A S) (name : String) :
    (names.foldl remove scan).servers.lookup name =
      if name ∈ names then none else scan.servers.lookup name := by
  induction names generalizing scan with
  | nil => rfl
  | cons first names ih =>
      rw [List.foldl_cons, ih]
      by_cases hmem : name ∈ names
      · rw [if_pos hmem, if_pos (List.mem_cons_of_mem _ hmem)]
      · rw [if_neg hmem]
        by_cases hfirst : name = first
        · rw [hfirst, if_pos List.mem_cons_self]
          exact AList.lookup_erase first scan.servers
        · rw [if_neg (List.not_mem_cons_of_ne_of_not_mem hfirst hmem)]
          exact AList.lookup_erase_ne hfirst

/-- The servers that a scan begins with have all been found. -/
theorem begin_coherent {former : List Profile} (h : AllCoherent former servers) :
    AllCoherent profiles (begin profiles servers).servers := by
  intro name s hs
  rw [begin, lookup_remove] at hs
  split at hs
  · cases hs
  · rename_i hkept
    obtain ⟨hserves, hname, -⟩ := h name s hs
    have hmem : name ∈ servers.keys := AList.mem_keys.mp (AList.lookup_isSome.mp (by rw [hs]; rfl))
    rw [removed, List.mem_filter, not_and] at hkept
    have hfound := hkept hmem
    rw [Bool.not_eq_true, Bool.not_eq_false', List.any_eq_true] at hfound
    obtain ⟨profile, hprofile, hsame⟩ := hfound
    rw [hs, Option.any_some, Bool.and_eq_true, beq_iff_eq, beq_iff_eq] at hsame
    refine ⟨hserves, hname, ?_⟩
    have heq : s.profile = profile := by
      cases hp : s.profile
      cases profile
      rw [hp] at hname hsame
      rw [Profile.mk.injEq]
      exact ⟨hname.trans hsame.1.symm, hsame.2.symm⟩
    rw [heq]
    exact hprofile

theorem applied_coherent (h : AllCoherent profiles scan.servers) (hs : Coherent profiles name s)
    {out : Except Failure Unit × Server E A S} (hout : Applies s config out) :
    AllCoherent profiles (applied scan name out).2.servers := by
  have hinsert (s' : Server E A S) (hserves : Serves s') (hprofile : s'.profile = s.profile) :
      AllCoherent profiles (applied scan name (out.1, s')).2.servers := by
    rw [applied, if_neg hserves.not_evicted]
    exact h.insert ⟨hserves, hprofile ▸ hs.name, hprofile ▸ hs.discovered⟩
  cases hout with
  | done s' hserves _ hprofile => exact hinsert s' hserves hprofile
  | kept e s' hserves _ hprofile => exact hinsert s' hserves hprofile
  | lost e s' hon hlost =>
      rw [applied, if_pos ⟨hon, by rw [hlost]; rfl⟩]
      exact h.erase name

theorem enable_coherent (h : AllCoherent profiles scan.servers) (hfound : profile ∈ profiles) :
    AllCoherent profiles (enable o scan profile).2.servers := by
  rw [enable]
  split
  · exact h
  · exact h
  · rename_i server hload
    obtain ⟨hload, hon⟩ := loadProfile_ok hload
    obtain ⟨hprofile, hpublisher, hrouter⟩ := load_ok hload
    rw [if_pos hon]
    split
    · rename_i listener hlisten
      refine h.insert ⟨⟨hon, ⟨listener, rfl, listen_ok hlisten⟩, hpublisher, hrouter⟩, ?_, ?_⟩
      · exact congrArg Profile.name hprofile
      · exact hprofile ▸ hfound
    · exact h

theorem reconcileProfile_coherent (h : AllCoherent profiles scan.servers)
    (hfound : profile ∈ profiles) :
    AllCoherent profiles (reconcileProfile o scan profile).2.servers := by
  rw [reconcileProfile]
  split
  · rename_i server hserver
    have hs := h profile.name server hserver
    rw [update]
    split
    · exact h
    · split
      · exact h.erase profile.name
      · rename_i hon
        split
        · exact h
        · exact applied_coherent h hs (applyConfig_applies hs.toServes hon)
  · exact enable_coherent h hfound

theorem scanned_coherent {found : List (Profile × Outcome E A S)}
    (hfound : ∀ f ∈ found, f.1 ∈ profiles) (h : AllCoherent profiles scan.servers) :
    AllCoherent profiles (scanned found scan).servers := by
  induction found generalizing scan with
  | nil => exact h
  | cons f found ih =>
      obtain ⟨hfirst, hrest⟩ := List.forall_mem_cons.mp hfound
      exact ih hrest (reconcileProfile_coherent h hfirst)

/-- A server whose change has failed is in service as it was, or it is gone. -/
theorem reconcileProfile_error (hs : scan.servers.lookup profile.name = some s) (hserves : Serves s)
    (h : (reconcileProfile o scan profile).1 = .error e) :
    (reconcileProfile o scan profile).2.servers.lookup profile.name = none ∨
      ∃ s', (reconcileProfile o scan profile).2.servers.lookup profile.name = some s' ∧
        Retained s s' := by
  simp only [reconcileProfile, hs] at h ⊢
  rw [update] at h ⊢
  split
  · exact .inr ⟨s, hs, hserves.retained⟩
  · rename_i config hstored
    rw [hstored] at h
    dsimp only at h
    by_cases hon : config.listen = "off"
    · rw [if_pos hon]
      exact .inl (AList.lookup_erase _ _)
    · rw [if_neg hon] at h ⊢
      by_cases hsame : sameConfig s.config config = true
      · rw [if_pos hsame] at h
        cases h
      · rw [if_neg hsame] at h ⊢
        generalize hout : applyConfig o s config = out at h ⊢
        have happlies : Applies s config out := hout ▸ applyConfig_applies hserves hon
        cases happlies with
        | done s' => cases h
        | kept e' s' hserves' hretained _ =>
            right
            refine ⟨s', ?_, hretained⟩
            rw [applied, if_neg hserves'.not_evicted]
            exact AList.lookup_insert _
        | lost e' s' hon' hlost =>
            left
            rw [applied, if_pos ⟨hon', by rw [hlost]; rfl⟩]
            exact AList.lookup_erase _ _

theorem reconcileProfiles_coherent {former : List Profile}
    {found : List (Profile × Outcome E A S)} (h : AllCoherent former servers) :
    AllCoherent (found.map Prod.fst) (reconcileProfiles (.ok found) servers).2 :=
  scanned_coherent (fun _ hf => List.mem_map_of_mem hf) (begin_coherent h)

theorem refresh_coherent {renewed : Except Failure E} (h : AllCoherent profiles servers)
    (hs : servers.lookup name = some s) :
    AllCoherent profiles (refresh made renewed servers name s) := by
  cases renewed with
  | error e => exact h
  | ok endpoint =>
      have hcoherent := h name s hs
      obtain ⟨hserves, hprofile⟩ := applyOcsp_serves hcoherent.toServes made endpoint
      exact h.insert ⟨hserves, hprofile ▸ hcoherent.name, hprofile ▸ hcoherent.discovered⟩

theorem step_coherent {t u : State E A S} {event : Event E A S}
    (h : AllCoherent t.profiles t.servers) (hstep : step t event = some u) :
    AllCoherent u.profiles u.servers := by
  cases event with
  | scan discovered =>
      cases hstep
      cases discovered with
      | error e => exact h
      | ok found => exact reconcileProfiles_coherent h
  | refresh name made renewed =>
      obtain ⟨s, hs, rfl⟩ := Option.map_eq_some_iff.mp hstep
      exact refresh_coherent h hs

theorem trace_coherent {events : List (Event E A S)} {t : State E A S}
    (h : Trace step Free .start events t) : AllCoherent t.profiles t.servers :=
  h.invariant (I := fun t => AllCoherent t.profiles t.servers) (by rintro name s ⟨⟩)
    fun _ _ _ ht _ hstep => step_coherent ht hstep

end

/-- After every step of every run each server is what its configuration asks for; and a change
that fails leaves a server in service as it was, or removes it. -/
theorem servers_coherent {E A S : Type} {events : List (Event E A S)} {t : State E A S}
    (h : Trace step Free .start events t) :
    AllCoherent t.profiles t.servers ∧
      (∀ found before profile o after e s, found = before ++ (profile, o) :: after →
        let scan := scanned before (begin (found.map Prod.fst) t.servers)
        scan.servers.lookup profile.name = some s →
          (reconcileProfile o scan profile).1 = .error e →
            (reconcileProfile o scan profile).2.servers.lookup profile.name = none ∨
              ∃ s', (reconcileProfile o scan profile).2.servers.lookup profile.name = some s' ∧
                Retained s s') ∧
      ∀ name made endpoint e s u, t.servers.lookup name = some s →
        (applyOcsp made s endpoint).1 = .error e →
          step t (.refresh name made (.ok endpoint)) = some u →
            u.servers.lookup name = some s ∧ s.listener.isSome = true := by
  have hcoherent := trace_coherent h
  refine ⟨hcoherent, ?_, ?_⟩
  · rintro found before profile o after e s rfl scan hs herror
    have hscan : AllCoherent ((before ++ (profile, o) :: after).map Prod.fst) scan.servers :=
      scanned_coherent (fun _ hf => List.mem_map_of_mem (List.mem_append_left _ hf))
        (begin_coherent hcoherent)
    exact reconcileProfile_error hs (hscan _ s hs).toServes herror
  · intro name made endpoint e s u hs herror hstep
    obtain ⟨s', hs', rfl⟩ := Option.map_eq_some_iff.mp hstep
    rw [hs] at hs'
    cases hs'
    refine ⟨?_, (hcoherent name s hs).toServes.retained.live⟩
    rw [refresh, applyOcsp_error herror]
    exact AList.lookup_insert _

def alice : Profile := ⟨"alice.example", "/home/alice/.dhttp/alice.example"⟩

/-- Everything succeeds, and the stored mode is the given one. -/
def Outcome.healthy (mode : String) : Outcome Nat Unit Unit where
  stored := .ok ⟨mode, []⟩
  authority := .ok ()
  publisher := .ok ()
  listen := .ok ()
  listenAgain := .ok ()
  close := .ok ()
  hosted := .ok true
  settings := .ok (.obj [("listen", .str mode)])
  configured := .ok (.obj [("listen", .str mode)])
  endpoint := .ok 0
  access := .ok ()
  config := .ok ⟨mode, []⟩
  sandbox := .ok ()

/-- The identity appears, a wider mode cannot be listened to, and the credentials are renewed. -/
def sampleEvents : List (Event Nat Unit Unit) :=
  [.scan (.ok [(alice, .healthy "internal")]),
    .scan (.ok [(alice, { Outcome.healthy "all" with listen := .error (.other .denied) })]),
    .refresh alice.name (.ok ()) (.ok 1)]

def sampleServer : Server Nat Unit Unit :=
  ⟨alice, 1, ⟨"internal", []⟩, (), (), ⟨[], alice, 1, (), ()⟩, none, some ⟨.internal⟩⟩

theorem servers_coherent_alice : ∃ t : State Nat Unit Unit, Trace step Free .start sampleEvents t ∧
    t.servers.lookup alice.name = some sampleServer ∧ Coherent t.profiles alice.name sampleServer := by
  have htrace : Trace step Free .start sampleEvents
      ⟨AList.insert alice.name sampleServer ∅, [alice]⟩ := trace_of_run rfl
  exact ⟨_, htrace, rfl, (servers_coherent htrace).1 alice.name sampleServer rfl⟩

end Pishoo.Reconcile
