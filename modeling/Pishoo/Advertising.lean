import Pishoo.EventLoop
import Pishoo.Mdns

namespace Pishoo.Advertising

open Settings Machine Reconcile EventLoop Mdns

section

variable (E A S α : Type)

/-- What one maintenance of the resolvers meets. -/
structure Maintenance where
  answers : Answers α
  book : Addresses α
  removedBounds : List Bound

/-- The loop with the resolvers, and with the address book and the result of their last maintenance. -/
structure Host where
  status : Status E A S
  resolvers : Resolvers α
  book : Addresses α
  failure : Option String

structure Event where
  arm : Arm E A S
  maintenance : Maintenance α

end

section

variable {E A S α : Type}

def isInternal (mode : String) : Bool := ["internal", "all"].contains mode

/-- The names of the endpoints that are maintained. -/
def names (nameOf : E → String) (servers : Servers E A S) : List String :=
  (servers.entries.filter fun entry => isInternal entry.2.config.listen).map
    fun entry => nameOf entry.2.endpoint

/-- What `reconcile_profiles` withdraws for a profile. -/
def profileNames (o : Outcome E A S) (scan : Scan E A S) (profile : Profile)
    (resolvers : Resolvers α) : Resolvers α :=
  match scan.servers.lookup profile.name with
  | none => resolvers
  | some server => match o.stored with
      | .error _ => resolvers
      | .ok config =>
          if config.listen = "off" then removeName resolvers profile.name
          else if sameConfig server.config config then resolvers
          else
            let server := (applyConfig o server config).2
            if !isInternal server.config.listen || server.listener.isNone then
              removeName resolvers profile.name
            else resolvers

def scannedNames (found : List (Profile × Outcome E A S)) (scan : Scan E A S)
    (resolvers : Resolvers α) : Resolvers α :=
  match found with
  | [] => resolvers
  | f :: found =>
      scannedNames found (reconcileProfile f.2 scan f.1).2 (profileNames f.2 scan f.1 resolvers)

def reconcileNames (discovered : Except Failure (List (Profile × Outcome E A S)))
    (servers : Servers E A S) (resolvers : Resolvers α) : Resolvers α :=
  match discovered with
  | .error _ => resolvers
  | .ok found => scannedNames found (begin (found.map Prod.fst) servers)
      ((removed (found.map Prod.fst) servers).foldl removeName resolvers)

/-- The scan of an arm withdraws names. The other arms withdraw none. -/
def scanNames (servers : Servers E A S) (resolvers : Resolvers α) : Arm E A S → Resolvers α
  | .config discovered _ => reconcileNames discovered servers resolvers
  | _ => resolvers

/-- The arm leaves the selection for the outer loop. -/
def breaks (servers : Servers E A S) : Arm E A S → Bool
  | .config discovered _ => match (reconcileProfiles discovered servers).1 with
      | .ok changed => changed
      | .error _ => false
  | .renewed _ _ _ _ => true
  | .address received _ => received
  | .changed result _ => result.toBool
  | .retry _ => true
  | _ => false

def retryOf : Arm E A S → Option Nat
  | .config _ retry => retry
  | .renewed _ _ _ retry => retry
  | .address _ retry => retry
  | .changed _ retry => retry
  | .retry retry => retry
  | _ => none

/-- The maintenance at the head of the outer loop. -/
def maintain (nameOf : E → String) (m : Maintenance α) (servers : Servers E A S)
    [LinearOrder α] (t : Host E A S α) : Host E A S α :=
  let pass := maintainMdns m.answers m.book (names nameOf servers) m.removedBounds t.resolvers
  { t with resolvers := pass.resolvers, book := m.book, failure := pass.error }

/-- What is withdrawn once the loop has been left. -/
def cleared (nameOf : E → String) (servers : Servers E A S) (resolvers : Resolvers α) :
    Resolvers α :=
  (servers.entries.map fun entry => nameOf entry.2.endpoint).foldl removeName resolvers

variable [LinearOrder α]

def step (nameOf : E → String) (t : Host E A S α) (e : Event E A S α) : Option (Host E A S α) :=
  match t.status with
  | .running l => (select l e.arm).map fun
      | .running l' =>
          let t := { t with
            status := .running l'
            resolvers := scanNames l.servers t.resolvers e.arm }
          if breaks l.servers e.arm then maintain nameOf e.maintenance l'.servers t else t
      | .exited result =>
          { t with status := .exited result, resolvers := cleared nameOf l.servers t.resolvers }
      | .panicked => { t with status := .panicked }
  | _ => none

def boot (nameOf : E → String) (discovered : Except Failure (List (Profile × Outcome E A S)))
    (retry : Option Nat) (m : Maintenance α) : Host E A S α :=
  match EventLoop.boot discovered retry with
  | .running l => maintain nameOf m l.servers ⟨.running l, ∅, m.book, none⟩
  | status => ⟨status, ∅, m.book, none⟩

/-- An endpoint that is loaded from a profile has its name. -/
def Named (nameOf : E → String) (discovered : Except Failure (List (Profile × Outcome E A S))) :
    Prop :=
  ∀ found, discovered = .ok found → ∀ f ∈ found, ∀ e, f.2.endpoint = .ok e → nameOf e = f.1.name

/-- The endpoints that an arm loads have the names of their profiles, and those that it reloads keep
theirs. -/
def ArmNamed (nameOf : E → String) (l : Loop E A S) : Arm E A S → Prop
  | .config discovered _ => Named nameOf discovered
  | .renewed index result _ _ => ∀ renewal e, l.updates[index]? = some renewal → result = .ok e →
      nameOf e = nameOf renewal.endpoint
  | _ => True

/-- The maintenance is due again if it has failed. -/
def Guard (nameOf : E → String) (t : Host E A S α) (e : Event E A S α) : Prop :=
  ∀ l, t.status = .running l → ArmNamed nameOf l e.arm ∧ (breaks l.servers e.arm = true →
    ∀ u, step nameOf t e = some u → u.failure.isSome = (retryOf e.arm).isSome)

/-- The name is published at the instance with the addresses that are wanted there, each once. -/
def Published (book : Addresses α) (resolvers : Resolvers α) (b : Binding) (name : String) : Prop :=
  ∃ values, (recordsOf resolvers b).lookup name = some values ∧ values.Pairwise (· < ·) ∧
    ∀ a, a ∈ values ↔ Wanted book b a

/-- The instances are the wanted ones, and each answers for every server that listens internally. -/
structure Complete (servers : Servers E A S) (book : Addresses α) (resolvers : Resolvers α) :
    Prop where
  instances : ∀ b, b ∈ resolvers ↔ ∃ a, Wanted book b a
  records : ∀ name s, servers.lookup name = some s → isInternal s.config.listen = true →
    ∀ b ∈ resolvers, Published book resolvers b name

/-- Only names of servers that listen internally are advertised. -/
def OnlyInternal (servers : Servers E A S) (resolvers : Resolvers α) : Prop :=
  ∀ name, Advertised resolvers name →
    ∃ s, servers.lookup name = some s ∧ isInternal s.config.listen = true

def AllNamed (nameOf : E → String) (servers : Servers E A S) : Prop :=
  ∀ name s, servers.lookup name = some s → nameOf s.endpoint = name

structure Holds (nameOf : E → String) (t : Host E A S α) (l : Loop E A S) : Prop where
  coherent : ∃ profiles, AllCoherent profiles l.servers
  named : AllNamed nameOf l.servers
  renewals : ∀ renewal ∈ l.updates, nameOf renewal.endpoint = renewal.profile.name
  internal : OnlyInternal l.servers t.resolvers
  complete : t.failure = none → Complete l.servers t.book t.resolvers
  due : t.failure.isSome = true → l.due.isSome = true

/-- What one arm that does not leave the loop makes of it, before a maintenance. -/
structure Turn (nameOf : E → String) (t : Host E A S α) (l : Loop E A S) (arm : Arm E A S)
    (l' : Loop E A S) : Prop where
  coherent : ∃ profiles, AllCoherent profiles l'.servers
  named : AllNamed nameOf l'.servers
  renewals : ∀ renewal ∈ l'.updates, nameOf renewal.endpoint = renewal.profile.name
  internal : OnlyInternal l'.servers (scanNames l.servers t.resolvers arm)
  due : breaks l.servers arm = true → l'.due = retryOf arm
  stays : breaks l.servers arm = false → (l.due.isSome = true → l'.due.isSome = true) ∧
    (t.failure = none → Complete l'.servers t.book (scanNames l.servers t.resolvers arm))

def Safe (nameOf : E → String) (t : Host E A S α) : Prop :=
  match t.status with
  | .running l => Holds nameOf t l
  | .exited _ => ∀ name, ¬Advertised t.resolvers name
  | .panicked => True

end

section

variable {E A S α : Type} {o : Outcome E A S} {s : Server E A S} {config : ServerConfig}
  {servers : Servers E A S} {scan : Scan E A S} {profile : Profile} {name other : String}
  {nameOf : E → String} {resolvers : Resolvers α} {profiles : List Profile} {b : Binding}

theorem advertised_removeName :
    Advertised (removeName resolvers other) name ↔ Advertised resolvers name ∧ name ≠ other := by
  simp only [advertised_iff, mem_removeName, exists_and_right]

theorem OnlyInternal.removeName (h : OnlyInternal servers resolvers) (name : String) :
    OnlyInternal (servers.erase name) (Mdns.removeName resolvers name) := by
  intro other hother
  obtain ⟨hadvertised, hne⟩ := advertised_removeName.mp hother
  obtain ⟨s, hs, hinternal⟩ := h other hadvertised
  exact ⟨s, (AList.lookup_erase_ne hne).trans hs, hinternal⟩

/-- A server that is replaced may be advertised if the new one listens internally as well. -/
theorem OnlyInternal.insert (h : OnlyInternal servers resolvers)
    (hs : Advertised resolvers name → isInternal s.config.listen = true) :
    OnlyInternal (servers.insert name s) resolvers := by
  intro other hother
  by_cases hname : other = name
  · subst hname
    exact ⟨s, AList.lookup_insert _, hs hother⟩
  · obtain ⟨s', hs', hinternal⟩ := h other hother
    exact ⟨s', (AList.lookup_insert_ne hname).trans hs', hinternal⟩

theorem OnlyInternal.withdraw (h : OnlyInternal servers resolvers) (name : String) :
    OnlyInternal servers (Mdns.removeName resolvers name) :=
  fun other hother => h other (advertised_removeName.mp hother).1

theorem not_advertised_removeName : ¬Advertised (removeName resolvers name) name :=
  fun h => (advertised_removeName.mp h).2 rfl

/-- A scan withdraws the name of each server that it stops or that does not listen internally. -/
theorem reconcileProfile_internal (h : OnlyInternal scan.servers resolvers) :
    OnlyInternal (reconcileProfile o scan profile).2.servers
      (profileNames o scan profile resolvers) := by
  rw [reconcileProfile, profileNames]
  split
  · rename_i server hserver
    rw [hserver, update]
    cases o.stored with
    | error e => exact h
    | ok config =>
      dsimp only
      by_cases hoff : config.listen = "off"
      · rw [if_pos hoff, if_pos hoff]
        exact h.removeName profile.name
      · rw [if_neg hoff, if_neg hoff]
        by_cases hsame : sameConfig server.config config = true
        · rw [if_pos hsame, if_pos hsame]
          exact h
        · rw [if_neg hsame, if_neg hsame]
          generalize applyConfig o server config = out
          obtain ⟨result, server'⟩ := out
          rw [applied]
          dsimp only
          by_cases hlive : (!isInternal server'.config.listen || server'.listener.isNone) = true
          · rw [if_pos hlive]
            split
            · exact h.removeName profile.name
            · exact (h.withdraw profile.name).insert fun hname =>
                absurd hname not_advertised_removeName
          · rw [if_neg hlive]
            rw [Bool.or_eq_true, not_or, Bool.not_eq_true', Bool.not_eq_false] at hlive
            rw [if_neg fun hevicted => hlive.2 hevicted.2]
            exact h.insert fun _ => hlive.1
  · rename_i hserver
    rw [hserver]
    have hfresh : ¬Advertised resolvers profile.name := by
      intro hname
      obtain ⟨s, hs, -⟩ := h profile.name hname
      rw [hserver] at hs
      cases hs
    rw [enable]
    split
    · exact h
    · exact h
    · split
      · split
        · exact h.insert fun hname => absurd hname hfresh
        · exact h
      · exact h.insert fun hname => absurd hname hfresh

theorem scanned_internal {found : List (Profile × Outcome E A S)}
    (h : OnlyInternal scan.servers resolvers) :
    OnlyInternal (scanned found scan).servers (scannedNames found scan resolvers) := by
  induction found generalizing scan resolvers with
  | nil => exact h
  | cons f found ih => exact ih (reconcileProfile_internal h)

theorem remove_internal (names : List String) (h : OnlyInternal scan.servers resolvers) :
    OnlyInternal (names.foldl remove scan).servers (names.foldl removeName resolvers) := by
  induction names generalizing scan resolvers with
  | nil => exact h
  | cons name names ih => exact ih (h.removeName name)

theorem reconcileNames_internal (h : OnlyInternal servers resolvers)
    (discovered : Except Failure (List (Profile × Outcome E A S))) :
    OnlyInternal (reconcileProfiles discovered servers).2
      (reconcileNames discovered servers resolvers) := by
  cases discovered with
  | error e => exact h
  | ok found => exact scanned_internal (remove_internal _ h)

theorem applyConfig_endpoint : (applyConfig o s config).2.endpoint = s.endpoint := by
  rw [applyConfig]
  split
  · rfl
  · dsimp only
    split
    · split
      · split
        · rfl
        · rw [restore]
          dsimp only
          split
          · split <;> rfl
          · rfl
      · rfl
    · rfl

theorem load_endpoint (h : load o profile = .ok s) : o.endpoint = .ok s.endpoint := by
  obtain ⟨endpoint, hendpoint, h⟩ := Result.bind_eq_ok.mp h
  obtain ⟨access, -, h⟩ := Result.bind_eq_ok.mp h
  obtain ⟨config, -, h⟩ := Result.bind_eq_ok.mp h
  obtain ⟨_, -, h⟩ := Result.bind_eq_ok.mp h
  obtain ⟨publisher, -, h⟩ := Result.bind_eq_ok.mp h
  obtain ⟨sandbox, -, h⟩ := Result.bind_eq_ok.mp h
  cases h
  exact hendpoint

theorem AllNamed.erase (h : AllNamed nameOf servers) (name : String) :
    AllNamed nameOf (servers.erase name) := by
  intro other s hs
  by_cases hother : other = name
  · rw [hother, AList.lookup_erase] at hs
    cases hs
  · rw [AList.lookup_erase_ne hother] at hs
    exact h other s hs

theorem AllNamed.insert (h : AllNamed nameOf servers) (hs : nameOf s.endpoint = name) :
    AllNamed nameOf (servers.insert name s) := by
  intro other s' hs'
  by_cases hother : other = name
  · rw [hother, AList.lookup_insert] at hs'
    cases hs'
    exact hs.trans hother.symm
  · rw [AList.lookup_insert_ne hother] at hs'
    exact h other s' hs'

theorem reconcileProfile_named (h : AllNamed nameOf scan.servers)
    (ho : ∀ e, o.endpoint = .ok e → nameOf e = profile.name) :
    AllNamed nameOf (reconcileProfile o scan profile).2.servers := by
  rw [reconcileProfile]
  split
  · rename_i server hserver
    rw [update]
    split
    · exact h
    · split
      · exact h.erase profile.name
      · split
        · exact h
        · rename_i config _ _ _
          rw [applied]
          dsimp only
          split
          · exact h.erase profile.name
          · exact h.insert ((congrArg nameOf applyConfig_endpoint).trans (h _ _ hserver))
  · rw [enable]
    split
    · exact h
    · exact h
    · rename_i server hload
      have hname := ho _ (load_endpoint (loadProfile_ok hload).1)
      split
      · split
        · exact h.insert hname
        · exact h
      · exact h.insert hname

theorem scanned_named {found : List (Profile × Outcome E A S)} (h : AllNamed nameOf scan.servers)
    (ho : ∀ f ∈ found, ∀ e, f.2.endpoint = .ok e → nameOf e = f.1.name) :
    AllNamed nameOf (scanned found scan).servers := by
  induction found generalizing scan with
  | nil => exact h
  | cons f found ih =>
      obtain ⟨hfirst, hrest⟩ := List.forall_mem_cons.mp ho
      exact ih (reconcileProfile_named h hfirst) hrest

theorem remove_named (names : List String) (h : AllNamed nameOf scan.servers) :
    AllNamed nameOf (names.foldl remove scan).servers := by
  induction names generalizing scan with
  | nil => exact h
  | cons name names ih => exact ih (h.erase name)

theorem reconcileProfiles_named {discovered : Except Failure (List (Profile × Outcome E A S))}
    (h : AllNamed nameOf servers) (ho : Named nameOf discovered) :
    AllNamed nameOf (reconcileProfiles discovered servers).2 := by
  cases discovered with
  | error e => exact h
  | ok found => exact scanned_named (remove_named _ h) (ho found rfl)

theorem reconcileProfile_changed (h : (reconcileProfile o scan profile).2.changed = false) :
    scan.changed = false := by
  rw [reconcileProfile] at h
  split at h
  · rw [update] at h
    split at h
    · exact h
    · split at h
      · cases h
      · split at h
        · exact h
        · rw [applied] at h
          dsimp only at h
          split at h
          · cases h
          · exact (Bool.or_eq_false_iff.mp h).1
  · rw [enable] at h
    split at h
    · exact h
    · exact h
    · split at h
      · split at h
        · cases h
        · exact h
      · cases h

theorem scanned_changed {found : List (Profile × Outcome E A S)}
    (h : (scanned found scan).changed = false) : scan.changed = false := by
  induction found generalizing scan with
  | nil => exact h
  | cons f found ih => exact reconcileProfile_changed (ih h)

variable [LinearOrder α] {book : Addresses α}

/-- Servers that listen internally only where there have been such before. -/
theorem Complete.mono {servers' : Servers E A S} (h : Complete servers book resolvers)
    (hservers : ∀ name s, servers'.lookup name = some s → isInternal s.config.listen = true →
      ∃ s', servers.lookup name = some s' ∧ isInternal s'.config.listen = true) :
    Complete servers' book resolvers where
  instances := h.instances
  records name s hs hinternal b hb := by
    obtain ⟨s', hs', hinternal'⟩ := hservers name s hs hinternal
    exact h.records name s' hs' hinternal' b hb

theorem Complete.withdraw (h : Complete servers book resolvers)
    (hname : ∀ s, servers.lookup name = some s → isInternal s.config.listen = false) :
    Complete servers book (Mdns.removeName resolvers name) where
  instances b := mem_instances_removeName.trans (h.instances b)
  records other s hs hinternal b hb := by
    have hne : other ≠ name := by
      rintro rfl
      rw [hname s hs] at hinternal
      cases hinternal
    obtain ⟨values, hlookup, hvalues⟩ :=
      h.records other s hs hinternal b (mem_instances_removeName.mp hb)
    exact ⟨values, (lookup_removeName hne).trans hlookup, hvalues⟩

theorem Complete.replace (h : Complete servers book resolvers) (hname : servers.lookup name = some s)
    {s' : Server E A S} (hconfig : s'.config = s.config) :
    Complete (servers.insert name s') book resolvers := by
  refine h.mono fun other t ht hinternal => ?_
  by_cases hother : other = name
  · subst hother
    rw [AList.lookup_insert] at ht
    cases ht
    exact ⟨s, hname, hconfig ▸ hinternal⟩
  · rw [AList.lookup_insert_ne hother] at ht
    exact ⟨t, ht, hinternal⟩

/-- What leaves the servers unchanged withdraws no name that is still to be advertised. -/
theorem reconcileProfile_complete (hcoherent : AllCoherent profiles scan.servers)
    (h : Complete scan.servers book resolvers)
    (hunchanged : (reconcileProfile o scan profile).2.changed = false) :
    Complete (reconcileProfile o scan profile).2.servers book
      (profileNames o scan profile resolvers) := by
  rw [reconcileProfile, profileNames] at *
  cases hserver : scan.servers.lookup profile.name with
  | none =>
      rw [hserver] at hunchanged
      dsimp only at hunchanged ⊢
      rw [enable] at hunchanged ⊢
      split
      · exact h
      · exact h
      · rename_i server hload
        rw [hload] at hunchanged
        dsimp only at hunchanged
        split
        · rename_i hon
          rw [if_pos hon] at hunchanged
          split
          · rename_i listener hlisten
            rw [hlisten] at hunchanged
            cases hunchanged
          · exact h
        · rename_i hoff
          rw [if_neg hoff] at hunchanged
          cases hunchanged
  | some server =>
      have hserves := (hcoherent profile.name server hserver).toServes
      rw [hserver] at hunchanged
      dsimp only at hunchanged ⊢
      rw [update] at hunchanged ⊢
      cases hstored : o.stored with
      | error e => exact h
      | ok config =>
          rw [hstored] at hunchanged
          dsimp only at hunchanged ⊢
          by_cases hoff : config.listen = "off"
          · rw [if_pos hoff] at hunchanged
            cases hunchanged
          · rw [if_neg hoff] at hunchanged
            rw [if_neg hoff, if_neg hoff]
            by_cases hsame : sameConfig server.config config = true
            · rw [if_pos hsame, if_pos hsame]
              exact h
            · rw [if_neg hsame] at hunchanged
              rw [if_neg hsame, if_neg hsame]
              generalize hout : applyConfig o server config = out at hunchanged ⊢
              have happlies : Applies server config out := hout ▸ applyConfig_applies hserves hoff
              cases happlies with
              | done server' hserves' =>
                  rw [applied, if_neg hserves'.not_evicted] at hunchanged
                  cases (Bool.or_eq_false_iff.mp hunchanged).2
              | lost e server' hon hlost =>
                  rw [applied, if_pos ⟨hon, by rw [hlost]; rfl⟩] at hunchanged
                  cases hunchanged
              | kept e server' hserves' hretained =>
                  rw [applied, if_neg hserves'.not_evicted]
                  dsimp only
                  rw [hretained.config, ← Option.not_isSome, hretained.live, Bool.not_true,
                    Bool.or_false]
                  have hreplaced := h.replace hserver hretained.config
                  split
                  · rename_i hinternal
                    rw [Bool.not_eq_true'] at hinternal
                    refine hreplaced.withdraw fun s hs => ?_
                    rw [AList.lookup_insert] at hs
                    cases hs
                    rw [hretained.config, hinternal]
                  · exact hreplaced

theorem scanned_complete {found : List (Profile × Outcome E A S)}
    (hfound : ∀ f ∈ found, f.1 ∈ profiles) (hcoherent : AllCoherent profiles scan.servers)
    (h : Complete scan.servers book resolvers) (hunchanged : (scanned found scan).changed = false) :
    Complete (scanned found scan).servers book (scannedNames found scan resolvers) := by
  induction found generalizing scan resolvers with
  | nil => exact h
  | cons f found ih =>
      obtain ⟨hfirst, hrest⟩ := List.forall_mem_cons.mp hfound
      exact ih hrest (reconcileProfile_coherent hcoherent hfirst)
        (reconcileProfile_complete hcoherent h (scanned_changed hunchanged)) hunchanged

omit [LinearOrder α] in
theorem remove_changed (names : List String) (servers : Servers E A S) :
    (names.foldl remove ⟨servers, true⟩).changed = true := by
  induction names generalizing servers with
  | nil => rfl
  | cons name names ih => exact ih _

omit [LinearOrder α] in
theorem begin_unchanged (h : (begin profiles servers).changed = false) :
    removed profiles servers = [] := by
  rw [begin] at h
  cases hremoved : removed profiles servers with
  | nil => rfl
  | cons name names =>
      rw [hremoved, List.foldl_cons, remove, remove_changed] at h
      cases h

theorem reconcileNames_complete {discovered : Except Failure (List (Profile × Outcome E A S))}
    (hcoherent : AllCoherent profiles servers) (h : Complete servers book resolvers)
    (hunchanged : (reconcileProfiles discovered servers).1 ≠ .ok true) :
    Complete (reconcileProfiles discovered servers).2 book
      (reconcileNames discovered servers resolvers) := by
  cases discovered with
  | error e => exact h
  | ok found =>
      have hscan : (scanned found (begin (found.map Prod.fst) servers)).changed = false := by
        rw [← Bool.not_eq_true]
        exact fun hchanged => hunchanged (congrArg Except.ok hchanged)
      have hbegin := scanned_changed hscan
      have hcomplete : Complete (begin (found.map Prod.fst) servers).servers book
          ((removed (found.map Prod.fst) servers).foldl removeName resolvers) := by
        rw [begin, begin_unchanged hbegin]
        exact h
      exact scanned_complete (fun _ hf => List.mem_map_of_mem hf) (begin_coherent hcoherent) hcomplete
        hscan

omit [LinearOrder α] in
theorem mem_names (h : AllNamed nameOf servers) : name ∈ names nameOf servers ↔
    ∃ s, servers.lookup name = some s ∧ isInternal s.config.listen = true := by
  rw [names, List.mem_map]
  constructor
  · rintro ⟨⟨name', s⟩, hentry, rfl⟩
    obtain ⟨hentry, hinternal⟩ := List.mem_filter.mp hentry
    have hs := mem_entries.mp hentry
    exact ⟨s, (h name' s hs).symm ▸ hs, hinternal⟩
  · rintro ⟨s, hs, hinternal⟩
    exact ⟨⟨name, s⟩, List.mem_filter.mpr ⟨mem_entries.mpr hs, hinternal⟩, h name s hs⟩

variable {t : Host E A S α} {l l' : Loop E A S} {arm : Arm E A S} {m : Maintenance α}

theorem maintain_holds (hcoherent : ∃ profiles, AllCoherent profiles l.servers)
    (hnamed : AllNamed nameOf l.servers)
    (hrenewals : ∀ renewal ∈ l.updates, nameOf renewal.endpoint = renewal.profile.name)
    (h : OnlyInternal l.servers t.resolvers)
    (hdue : (maintain nameOf m l.servers t).failure.isSome = l.due.isSome) :
    Holds nameOf (maintain nameOf m l.servers t) l where
  coherent := hcoherent
  named := hnamed
  renewals := hrenewals
  internal := by
    intro name hname
    obtain ⟨b, hb⟩ := advertised_iff.mp hname
    obtain hmem | hformer := maintain_names hb
    · exact (mem_names hnamed).mp hmem
    · exact h name (advertised_iff.mpr ⟨b, hformer⟩)
  complete := fun hok => {
    instances := fun b => maintain_instances hok
    records := fun name s hs hinternal b hb =>
      maintain_records hok hb ((mem_names hnamed).mpr ⟨s, hs, hinternal⟩) }
  due := fun hfailed => hdue ▸ hfailed

omit [LinearOrder α] in
theorem not_advertised_cleared (hnamed : AllNamed nameOf servers)
    (h : OnlyInternal servers resolvers) : ¬Advertised (cleared nameOf servers resolvers) name := by
  have hfold (names : List String) (resolvers : Resolvers α) :
      Advertised (names.foldl removeName resolvers) name ↔
        Advertised resolvers name ∧ name ∉ names := by
    induction names generalizing resolvers with
    | nil => simp
    | cons first names ih =>
        rw [List.foldl_cons, ih, advertised_removeName, List.mem_cons, not_or, and_assoc]
  rw [cleared, hfold]
  rintro ⟨hadvertised, hcleared⟩
  obtain ⟨s, hs, -⟩ := h name hadvertised
  exact hcleared (List.mem_map.mpr ⟨⟨name, s⟩, mem_entries.mpr hs, hnamed name s hs⟩)

/-- An arm that leaves the servers as they are. -/
theorem Holds.turn (h : Holds nameOf t l) (harm : arm.isScan = false)
    (hservers : l'.servers = l.servers)
    (hupdates : ∀ renewal ∈ l'.updates, nameOf renewal.endpoint = renewal.profile.name)
    (hdue : breaks l.servers arm = true → l'.due = retryOf arm)
    (hstays : breaks l.servers arm = false → l.due.isSome = true → l'.due.isSome = true) :
    Turn nameOf t l arm l' := by
  have hscan : scanNames l.servers t.resolvers arm = t.resolvers := by
    cases arm with
    | config discovered retry => cases harm
    | _ => rfl
  refine ⟨hservers ▸ h.coherent, hservers ▸ h.named, hupdates, ?_, hdue, fun hbreaks =>
    ⟨hstays hbreaks, fun hok => ?_⟩⟩
  · rw [hscan, hservers]
    exact h.internal
  · rw [hscan, hservers]
    exact h.complete hok

theorem config_turn (h : Holds nameOf t l)
    {discovered : Except Failure (List (Profile × Outcome E A S))} {retry : Option Nat}
    (harm : Named nameOf discovered) :
    Turn nameOf t l (.config discovered retry) (configTick discovered retry l) := by
  obtain ⟨profiles, hcoherent⟩ := h.coherent
  have hservers : (configTick discovered retry l).servers =
      (reconcileProfiles discovered l.servers).2 := by
    rw [configTick]
    split
    · rename_i servers hscan
      rw [hscan]
      rfl
    · rename_i result servers _ hscan
      rw [hscan]
  obtain ⟨hkeeps, hupdates⟩ := configTick_keeps h.coherent discovered retry
  refine ⟨hkeeps, ?_, hupdates ▸ h.renewals, ?_, fun hbreaks => ?_, fun hbreaks => ?_⟩
  · rw [hservers]
    exact reconcileProfiles_named h.named harm
  · rw [hservers]
    exact reconcileNames_internal h.internal discovered
  · rw [breaks] at hbreaks
    rw [configTick]
    split
    · rfl
    · rename_i result servers hnot hscan
      rw [hscan] at hbreaks
      cases result with
      | error e => cases hbreaks
      | ok changed => exact (hnot (congrArg Except.ok hbreaks)).elim
  · have hunchanged : (reconcileProfiles discovered l.servers).1 ≠ .ok true := by
      intro hchanged
      rw [breaks, hchanged] at hbreaks
      cases hbreaks
    refine ⟨fun hdue => ?_, fun hok => ?_⟩
    · rw [configTick]
      split
      · rename_i servers hscan
        exact absurd (congrArg Prod.fst hscan) hunchanged
      · exact hdue
    · rw [hservers]
      exact reconcileNames_complete hcoherent (h.complete hok) hunchanged

theorem renewed_turn (h : Holds nameOf t l) {index : Nat} {renewal : Renewal E}
    {result : Except Failure E} {made : Except String Unit} {retry : Option Nat}
    (harm : ∀ e, result = .ok e → nameOf e = nameOf renewal.endpoint)
    (hrenewal : l.updates[index]? = some renewal)
    (hcomplete : complete renewal result made retry
      { l with updates := l.updates.eraseIdx index } = .running l') :
    Turn nameOf t l (.renewed index result made retry) l' := by
  rw [complete] at hcomplete
  split at hcomplete
  · cases hcomplete
  · rename_i s hs
    cases hcomplete
    obtain ⟨profiles, hcoherent⟩ := h.coherent
    have hrenewals := h.renewals renewal (List.mem_of_getElem? hrenewal)
    refine ⟨⟨profiles, refresh_coherent hcoherent hs⟩, ?_,
      fun other hother => h.renewals other (List.mem_of_mem_eraseIdx hother), ?_, fun _ => rfl,
      fun hbreaks => by cases hbreaks⟩
    · cases result with
      | error e => exact h.named
      | ok endpoint =>
          refine h.named.insert ?_
          rw [applyOcsp]
          split
          · exact h.named _ s hs
          · exact (harm endpoint rfl).trans hrenewals
    · cases result with
      | error e => exact h.internal
      | ok endpoint =>
          refine h.internal.insert fun hname => ?_
          obtain ⟨s', hs', hinternal⟩ := h.internal _ hname
          cases hs.symm.trans hs'
          rw [applyOcsp]
          split
          · exact hinternal
          · exact hinternal

theorem select_turn (h : Holds nameOf t l) (harm : ArmNamed nameOf l arm)
    (hselect : select l arm = some (.running l')) : Turn nameOf t l arm l' := by
  have hstays (due : l'.due = l.due) (_ : breaks l.servers arm = false) :
      l.due.isSome = true → l'.due.isSome = true := due ▸ id
  cases arm with
  | interrupt result => cases hselect
  | terminate => cases hselect
  | job due =>
      rw [select, Option.ite_none_left_eq_some] at hselect
      obtain ⟨-, hselect⟩ := hselect
      cases hselect
      refine h.turn rfl rfl h.renewals (fun hbreaks => by cases hbreaks) fun _ hdue => ?_
      cases due with
      | none => exact hdue
      | some due => rfl
  | wasi =>
      rw [select, Option.ite_none_right_eq_some] at hselect
      obtain ⟨-, hselect⟩ := hselect
      cases hselect
      exact h.turn rfl rfl h.renewals (fun hbreaks => by cases hbreaks) (hstays rfl)
  | ran =>
      rw [select, Option.ite_none_left_eq_some] at hselect
      obtain ⟨-, hselect⟩ := hselect
      cases hselect
      exact h.turn rfl rfl h.renewals (fun hbreaks => by cases hbreaks) (hstays rfl)
  | reload =>
      cases hselect
      exact h.turn rfl rfl h.renewals (fun hbreaks => by cases hbreaks) (hstays rfl)
  | config discovered retry =>
      rw [select, Option.ite_none_right_eq_some] at hselect
      obtain ⟨-, hselect⟩ := hselect
      cases hselect
      exact config_turn h harm
  | ocsp =>
      rw [select, Option.ite_none_right_eq_some] at hselect
      obtain ⟨-, hselect⟩ := hselect
      cases hselect
      obtain ⟨profiles, hcoherent⟩ := h.coherent
      refine h.turn rfl rfl (fun renewal hmem => ?_) (fun hbreaks => by cases hbreaks) (hstays rfl)
      obtain ⟨s, hs, -, hendpoint⟩ := renewals_registered hcoherent hmem
      rw [← hendpoint, h.named _ s hs]
  | renewed index result made retry =>
      rw [select, Option.ite_none_right_eq_some] at hselect
      obtain ⟨-, hselect⟩ := hselect
      obtain ⟨renewal, hrenewal, hcomplete⟩ := Option.map_eq_some_iff.mp hselect
      exact renewed_turn h (fun e => harm renewal e hrenewal) hrenewal hcomplete
  | address received retry =>
      rw [select, Option.ite_none_right_eq_some] at hselect
      obtain ⟨-, hselect⟩ := hselect
      cases received with
      | false => cases hselect
      | true =>
          cases hselect
          exact h.turn rfl rfl h.renewals (fun _ => rfl) fun hbreaks => by cases hbreaks
  | changed result retry =>
      cases result with
      | error message =>
          rw [select, Option.ite_none_right_eq_some] at hselect
          cases hselect.2
      | ok _ =>
          rw [select, Option.ite_none_right_eq_some] at hselect
          obtain ⟨-, hselect⟩ := hselect
          cases hselect
          exact h.turn rfl rfl h.renewals (fun _ => rfl) fun hbreaks => by cases hbreaks
  | retry retry =>
      rw [select, Option.ite_none_right_eq_some] at hselect
      obtain ⟨-, hselect⟩ := hselect
      cases hselect
      exact h.turn rfl rfl h.renewals (fun _ => rfl) fun hbreaks => by cases hbreaks

theorem step_safe {u : Host E A S α} {e : Event E A S α} (h : Safe nameOf t)
    (hguard : Guard nameOf t e) (hstep : step nameOf t e = some u) : Safe nameOf u := by
  obtain ⟨status, resolvers, book, failure⟩ := t
  cases status with
  | exited result => cases hstep
  | panicked => cases hstep
  | running l =>
      obtain ⟨harm, hretry⟩ := hguard l rfl
      have hretry := fun hbreaks => hretry hbreaks u hstep
      obtain ⟨status, hselect, rfl⟩ := Option.map_eq_some_iff.mp hstep
      cases status with
      | exited result => exact fun name => not_advertised_cleared h.named h.internal
      | panicked => trivial
      | running l' =>
          have hturn := select_turn h harm hselect
          cases hbreaks : breaks l.servers e.arm with
          | true =>
              have hretry := hretry hbreaks
              simp only [hbreaks, if_true] at hretry ⊢
              exact maintain_holds hturn.coherent hturn.named hturn.renewals hturn.internal
                (hretry.trans (congrArg Option.isSome (hturn.due hbreaks)).symm)
          | false =>
              obtain ⟨hdue, hcomplete⟩ := hturn.stays hbreaks
              simp only [Bool.false_eq_true, if_false]
              exact ⟨hturn.coherent, hturn.named, hturn.renewals, hturn.internal, hcomplete,
                fun hfailed => hdue (h.due hfailed)⟩

omit [LinearOrder α] in
theorem not_advertised_empty : ¬Advertised (∅ : Resolvers α) name := by
  rintro ⟨b, records, ⟨⟩, -⟩

theorem boot_safe {discovered : Except Failure (List (Profile × Outcome E A S))}
    {retry : Option Nat} (hnamed : Named nameOf discovered)
    (hretry : ∀ l, (boot nameOf discovered retry m).status = .running l →
      (boot nameOf discovered retry m).failure.isSome = retry.isSome) :
    Safe nameOf (boot nameOf discovered retry m) := by
  have hcoherent : AllCoherent [] (∅ : Servers E A S) := by
    rintro name s ⟨⟩
  have hkeeps := reconcileProfiles_keeps hcoherent discovered
  have hempty : AllNamed nameOf (∅ : Servers E A S) := by
    rintro name s ⟨⟩
  have hserved := reconcileProfiles_named hempty hnamed
  rw [boot, EventLoop.boot] at hretry ⊢
  split
  · rename_i l hboot
    rw [hboot] at hretry
    dsimp only at hretry
    split at hboot
    · cases hboot
    · rename_i changed servers hscan
      cases hboot
      rw [hscan] at hkeeps hserved
      exact maintain_holds hkeeps hserved (fun _ hmem => absurd hmem List.not_mem_nil)
        (fun name hname => absurd hname not_advertised_empty) (hretry _ rfl)
  · rename_i status hnot
    split at hnot
    · exact fun name => not_advertised_empty
    · exact absurd rfl (hnot _)

end

/-- In every order of the arms, and whatever fails, only the names of registered servers that listen
internally with a live listener are advertised. While the last maintenance has not failed every such
server answers at exactly the wanted instances with exactly the wanted addresses, and one that has
failed is due again. Nothing is advertised once the loop has been left. -/
theorem advertised_registered {E A S α : Type} [LinearOrder α] {nameOf : E → String}
    {discovered : Except Failure (List (Profile × Outcome E A S))} {retry : Option Nat}
    {m : Maintenance α} {events : List (Event E A S α)} {t : Host E A S α}
    (hnamed : Named nameOf discovered)
    (hretry : ∀ l, (boot nameOf discovered retry m).status = .running l →
      (boot nameOf discovered retry m).failure.isSome = retry.isSome)
    (h : Trace (step nameOf) (Guard nameOf) (boot nameOf discovered retry m) events t) :
    (∀ l, t.status = .running l →
      (∀ name, Advertised t.resolvers name → ∃ s, l.servers.lookup name = some s ∧
        isInternal s.config.listen = true ∧ s.listener.isSome = true) ∧
      (t.failure = none → Complete l.servers t.book t.resolvers) ∧
      (t.failure.isSome = true → l.due.isSome = true)) ∧
    ∀ result, t.status = .exited result → ∀ name, ¬Advertised t.resolvers name := by
  have hsafe : Safe nameOf t := h.invariant (boot_safe hnamed hretry)
    fun _ _ _ hsafe hguard hstep => step_safe hsafe hguard hstep
  rw [Safe] at hsafe
  refine ⟨fun l hl => ?_, fun result hresult => ?_⟩
  · rw [hl] at hsafe
    refine ⟨fun name hname => ?_, hsafe.complete, hsafe.due⟩
    obtain ⟨s, hs, hinternal⟩ := hsafe.internal name hname
    obtain ⟨profiles, hcoherent⟩ := hsafe.coherent
    exact ⟨s, hs, hinternal, (hcoherent name s hs).toServes.retained.live⟩
  · rw [hresult] at hsafe
    exact hsafe

def eth : Binding := ⟨"eth0", "192.0.2.7"⟩

/-- One interface has been bound, and no call fails. -/
def sampleMaintenance : Maintenance Nat where
  answers := {
    retire := fun _ => ⟨.ok (), true, fun _ => rfl⟩
    withdraw := fun _ => ⟨.ok (), true, fun _ => rfl⟩
    upsert := fun _ => ⟨.ok (), true, fun _ => rfl⟩
    authority := fun _ => .ok ()
    publish := fun _ _ => ⟨.ok (), true, fun _ => rfl⟩
    order := id
    perm := .refl }
  book := {
    innerBindings := [(⟨eth.ip, 4430⟩, eth.device)]
    findSocket := fun bound => some ⟨some bound, some eth.device⟩
    endpoints := fun _ => [7, 3, 7]
    publishable := fun _ => true }
  removedBounds := []

def sampleNames (_ : Nat) : String := alice.name

def sampleBoot : Host Nat Unit Unit Nat :=
  boot sampleNames (.ok [(alice, .healthy "internal")]) none sampleMaintenance

/-- A wider mode cannot be listened to, and then the process is asked to end. -/
def sampleEvents : List (Event Nat Unit Unit Nat) :=
  [⟨.config (.ok [(alice, { Outcome.healthy "all" with listen := .error (.other .denied) })]) none,
    sampleMaintenance⟩, ⟨.terminate, sampleMaintenance⟩]

theorem advertised_registered_alice :
    (recordsOf sampleBoot.resolvers eth).lookup alice.name = some [3, 7] ∧
      ∃ t : Host Nat Unit Unit Nat,
        Trace (step sampleNames) (Guard sampleNames) sampleBoot sampleEvents t ∧
          ∀ name, ¬Advertised t.resolvers name := by
  have hnamed (o : Outcome Nat Unit Unit) : Named sampleNames (.ok [(alice, o)]) := by
    rintro found hfound f hf e -
    cases hfound
    rw [List.mem_singleton.mp hf]
    rfl
  have hconfig : Guard sampleNames sampleBoot ⟨.config (.ok [(alice, { Outcome.healthy "all" with
      listen := .error (.other .denied) })]) none, sampleMaintenance⟩ :=
    fun l hl => ⟨hnamed _, by cases hl; rintro ⟨⟩⟩
  have htrace : Trace (step sampleNames) (Guard sampleNames) sampleBoot sampleEvents _ :=
    .cons hconfig rfl (.cons (fun l _ => ⟨trivial, by rintro ⟨⟩⟩) rfl .nil)
  exact ⟨rfl, _, htrace,
    (advertised_registered (hnamed _) (fun _ _ => rfl) htrace).2 (.ok ()) rfl⟩

end Pishoo.Advertising
