import Pishoo.Reconcile

namespace Pishoo.EventLoop

open Machine Reconcile

/-- An outstanding entry of `ocsp_updates`, with the profile and the endpoint it was started with. -/
structure Renewal (E : Type) where
  profile : Profile
  endpoint : E

/-- What the loop of `run` holds. Of the jobs only the number is kept, and `due` is an instant. -/
structure Loop (E A S : Type) where
  servers : Servers E A S
  jobs : Nat
  updates : List (Renewal E)
  runs : Nat
  due : Option Nat

inductive Status (E A S : Type)
  | running (l : Loop E A S)
  | exited (result : Except Failure Unit)
  | panicked

/-- The arms of the selection with what they receive. Those that break carry the instant at which
the maintenance of mDNS that follows is due again, if it fails. -/
inductive Arm (E A S : Type)
  | interrupt (result : Except String Unit)
  | terminate
  | job (due : Option Nat)
  | wasi
  | ran
  | reload
  | config (discovered : Except Failure (List (Profile × Outcome E A S))) (retry : Option Nat)
  | ocsp
  | renewed (index : Nat) (result : Except Failure E) (made : Except String Unit) (retry : Option Nat)
  | address (received : Bool) (retry : Option Nat)
  | changed (result : Except String Unit) (retry : Option Nat)
  | retry (retry : Option Nat)

section

variable {E A S : Type}

def ioError (result : Except String Unit) : Except Failure Unit :=
  result.mapError fun message => .other (.io message)

/-- The servers that publish, of which each gives a job. -/
def publishing (servers : Servers E A S) : Nat :=
  (servers.entries.filter fun entry => entry.2.publisher.isSome).length

/-- The outer loop up to the selection. -/
def outer (retry : Option Nat) (l : Loop E A S) : Loop E A S :=
  { l with due := retry, jobs := l.jobs + publishing l.servers }

def renewals (servers : Servers E A S) : List (Renewal E) :=
  servers.entries.map fun entry => ⟨entry.2.profile, entry.2.endpoint⟩

def earlier (due : Nat) : Option Nat → Nat
  | none => due
  | some previous => min previous due

def configTick (discovered : Except Failure (List (Profile × Outcome E A S))) (retry : Option Nat)
    (l : Loop E A S) : Loop E A S :=
  match reconcileProfiles discovered l.servers with
  | (.ok true, servers) => outer retry { l with servers }
  | (_, servers) => { l with servers }

/-- The server of a completed update is expected to be registered. -/
def complete (renewal : Renewal E) (result : Except Failure E) (made : Except String Unit)
    (retry : Option Nat) (l : Loop E A S) : Status E A S :=
  match l.servers.lookup renewal.profile.name with
  | none => .panicked
  | some s => .running (outer retry
      { l with servers := refresh made result l.servers renewal.profile.name s })

def select (l : Loop E A S) : Arm E A S → Option (Status E A S)
  | .interrupt result => some (.exited (ioError result))
  | .terminate => some (.exited (.ok ()))
  | .job due => if l.jobs = 0 then none
      else some (.running { l with
        jobs := l.jobs - 1
        due := (due.map fun due => earlier due l.due).or l.due })
  | .wasi => if l.runs = 0 then some (.running { l with runs := l.servers.entries.length }) else none
  | .ran => if l.runs = 0 then none else some (.running { l with runs := l.runs - 1 })
  | .reload => some (.running l)
  | .config discovered retry => if l.jobs = 0 ∧ l.updates.isEmpty = true then
      some (.running (configTick discovered retry l)) else none
  | .ocsp => if l.updates.isEmpty then some (.running { l with updates := renewals l.servers })
      else none
  | .renewed index result made retry => if l.jobs = 0 then
      (l.updates[index]?).map fun renewal =>
        complete renewal result made retry { l with updates := l.updates.eraseIdx index }
      else none
  | .address received retry => if l.jobs = 0 then some (if received then .running (outer retry l)
      else .exited (.error (.other (.io "DNS address subscription ended")))) else none
  | .changed result retry => if l.jobs = 0 then some (match result with
      | .ok () => .running (outer retry l)
      | .error message => .exited (.error (.other (.io message)))) else none
  | .retry retry => if l.jobs = 0 ∧ l.due.isSome = true then some (.running (outer retry l)) else none

def step : Status E A S → Arm E A S → Option (Status E A S)
  | .running l, arm => select l arm
  | _, _ => none

/-- The scan before the loop. -/
def boot (discovered : Except Failure (List (Profile × Outcome E A S))) (retry : Option Nat) :
    Status E A S :=
  match reconcileProfiles discovered ∅ with
  | (.error e, _) => .exited (.error e)
  | (.ok _, servers) => .running (outer retry ⟨servers, 0, [], 0, none⟩)

/-- The update names a server that has been loaded from its profile. -/
def Registered (servers : Servers E A S) (renewal : Renewal E) : Prop :=
  ∃ s, servers.lookup renewal.profile.name = some s ∧ s.profile = renewal.profile

def Arm.isScan : Arm E A S → Bool
  | .config _ _ => true
  | _ => false

/-- The update has been started for a registered server, and no scan has come since. -/
def Started (start : Status E A S) (arms : List (Arm E A S)) (renewal : Renewal E) : Prop :=
  ∃ before after l s, arms = before ++ .ocsp :: after ∧
    Trace step Free start before (.running l) ∧
    l.servers.lookup renewal.profile.name = some s ∧ s.profile = renewal.profile ∧
    s.endpoint = renewal.endpoint ∧ ∀ arm ∈ after, arm.isScan = false

/-- What holds of the loop after the arms. -/
structure Holds (start : Status E A S) (arms : List (Arm E A S)) (l : Loop E A S) : Prop where
  coherent : ∃ profiles, AllCoherent profiles l.servers
  registered : ∀ renewal ∈ l.updates, Registered l.servers renewal
  started : ∀ renewal ∈ l.updates, Started start arms renewal

/-- A run is in its loop, or it has been left without a panic. -/
def Safe (start : Status E A S) (arms : List (Arm E A S)) : Status E A S → Prop
  | .running l => Holds start arms l
  | .exited _ => True
  | .panicked => False

end

section

variable {E A S : Type} {l : Loop E A S} {start t u : Status E A S} {arms : List (Arm E A S)}
  {arm : Arm E A S} {servers : Servers E A S} {renewal : Renewal E} {retry : Option Nat}

theorem mem_entries {name : String} {s : Server E A S} :
    ⟨name, s⟩ ∈ servers.entries ↔ servers.lookup name = some s :=
  AList.mem_lookup_iff.symm

theorem renewals_registered {profiles : List Profile} (h : AllCoherent profiles servers)
    (hmem : renewal ∈ renewals servers) : ∃ s, servers.lookup renewal.profile.name = some s ∧
      s.profile = renewal.profile ∧ s.endpoint = renewal.endpoint := by
  obtain ⟨⟨name, s⟩, hs, rfl⟩ := List.mem_map.mp hmem
  have hs := mem_entries.mp hs
  have hname := (h name s hs).name
  exact ⟨s, hname.symm ▸ hs, rfl, rfl⟩

theorem Started.snoc (h : Started start arms renewal) (harm : arm.isScan = false) :
    Started start (arms ++ [arm]) renewal := by
  obtain ⟨before, after, l, s, rfl, htrace, hs, hprofile, hendpoint, hafter⟩ := h
  refine ⟨before, after ++ [arm], l, s, by simp, htrace, hs, hprofile, hendpoint, ?_⟩
  exact List.forall_mem_append.mpr ⟨hafter, List.forall_mem_singleton.mpr harm⟩

/-- What changes neither the servers nor the updates. -/
theorem Holds.snoc {l' : Loop E A S} (h : Holds start arms l) (harm : arm.isScan = false)
    (hservers : l'.servers = l.servers) (hupdates : l'.updates = l.updates) :
    Holds start (arms ++ [arm]) l' where
  coherent := hservers ▸ h.coherent
  registered := by
    rw [hservers, hupdates]
    exact h.registered
  started := by
    rw [hupdates]
    exact fun renewal hmem => (h.started renewal hmem).snoc harm

/-- Without updates nothing is expected of the servers but that they are coherent. -/
theorem Holds.idle (h : ∃ profiles, AllCoherent profiles l.servers) (hupdates : l.updates = []) :
    Holds start arms l where
  coherent := h
  registered := by
    rw [hupdates]
    exact fun _ hmem => absurd hmem List.not_mem_nil
  started := by
    rw [hupdates]
    exact fun _ hmem => absurd hmem List.not_mem_nil

theorem reconcileProfiles_keeps {profiles : List Profile} (h : AllCoherent profiles servers)
    (discovered : Except Failure (List (Profile × Outcome E A S))) :
    ∃ profiles, AllCoherent profiles (reconcileProfiles discovered servers).2 := by
  cases discovered with
  | error e => exact ⟨profiles, h⟩
  | ok found => exact ⟨_, reconcileProfiles_coherent h⟩

theorem configTick_keeps (h : ∃ profiles, AllCoherent profiles l.servers)
    (discovered : Except Failure (List (Profile × Outcome E A S))) (retry : Option Nat) :
    (∃ profiles, AllCoherent profiles (configTick discovered retry l).servers) ∧
      (configTick discovered retry l).updates = l.updates := by
  obtain ⟨profiles, h⟩ := h
  have hkeeps := reconcileProfiles_keeps h discovered
  rw [configTick]
  split
  · rename_i servers hscan
    rw [hscan] at hkeeps
    exact ⟨hkeeps, rfl⟩
  · rename_i result servers _ hscan
    rw [hscan] at hkeeps
    exact ⟨hkeeps, rfl⟩

theorem Registered.refresh {profiles : List Profile} {name : String} {s : Server E A S}
    {result : Except Failure E} {made : Except String Unit} (h : Registered servers renewal)
    (hcoherent : AllCoherent profiles servers) (hs : servers.lookup name = some s) :
    Registered (Reconcile.refresh made result servers name s) renewal := by
  obtain ⟨s', hs', hprofile⟩ := h
  cases result with
  | error e => exact ⟨s', hs', hprofile⟩
  | ok endpoint =>
      rw [Reconcile.refresh]
      by_cases hname : renewal.profile.name = name
      · rw [hname, hs] at hs'
        cases hs'
        refine ⟨(applyOcsp made s endpoint).2, ?_, ?_⟩
        · rw [hname, AList.lookup_insert]
        · exact (applyOcsp_serves (hcoherent name s hs).toServes made endpoint).2.trans hprofile
      · exact ⟨s', by rw [AList.lookup_insert_ne hname, hs'], hprofile⟩

/-- The server of an outstanding update is there when it completes. -/
theorem complete_holds {index : Nat} (h : Holds start arms l)
    (hrenewal : l.updates[index]? = some renewal) (result : Except Failure E)
    (made : Except String Unit) (retry : Option Nat) :
    ∃ s, l.servers.lookup renewal.profile.name = some s ∧ s.profile = renewal.profile ∧
      complete renewal result made retry { l with updates := l.updates.eraseIdx index } =
        .running (outer retry { l with
          servers := refresh made result l.servers renewal.profile.name s
          updates := l.updates.eraseIdx index }) ∧
      Holds start (arms ++ [.renewed index result made retry]) (outer retry { l with
          servers := refresh made result l.servers renewal.profile.name s
          updates := l.updates.eraseIdx index }) := by
  obtain ⟨s, hs, hprofile⟩ := h.registered renewal (List.mem_of_getElem? hrenewal)
  obtain ⟨profiles, hcoherent⟩ := h.coherent
  refine ⟨s, hs, hprofile, ?_, ⟨profiles, refresh_coherent hcoherent hs⟩, ?_, ?_⟩
  · rw [complete, hs]
  · intro other hother
    exact (h.registered other (List.mem_of_mem_eraseIdx hother)).refresh hcoherent hs
  · intro other hother
    exact (h.started other (List.mem_of_mem_eraseIdx hother)).snoc rfl

/-- One arm of the selection. -/
theorem select_safe (htrace : Trace step Free start arms (.running l)) (h : Holds start arms l)
    (hselect : select l arm = some u) : Safe start (arms ++ [arm]) u := by
  cases arm with
  | interrupt result =>
      cases hselect
      trivial
  | terminate =>
      cases hselect
      trivial
  | job due =>
      rw [select, Option.ite_none_left_eq_some] at hselect
      obtain ⟨-, hselect⟩ := hselect
      cases hselect
      exact h.snoc rfl rfl rfl
  | wasi =>
      rw [select, Option.ite_none_right_eq_some] at hselect
      obtain ⟨-, hselect⟩ := hselect
      cases hselect
      exact h.snoc rfl rfl rfl
  | ran =>
      rw [select, Option.ite_none_left_eq_some] at hselect
      obtain ⟨-, hselect⟩ := hselect
      cases hselect
      exact h.snoc rfl rfl rfl
  | reload =>
      cases hselect
      exact h.snoc rfl rfl rfl
  | config discovered retry =>
      rw [select, Option.ite_none_right_eq_some] at hselect
      obtain ⟨⟨-, hidle⟩, hselect⟩ := hselect
      cases hselect
      obtain ⟨hcoherent, hupdates⟩ := configTick_keeps h.coherent discovered retry
      exact .idle hcoherent (hupdates.trans (List.isEmpty_iff.mp hidle))
  | ocsp =>
      rw [select, Option.ite_none_right_eq_some] at hselect
      obtain ⟨-, hselect⟩ := hselect
      cases hselect
      obtain ⟨profiles, hcoherent⟩ := h.coherent
      refine ⟨⟨profiles, hcoherent⟩, fun renewal hmem => ?_, fun renewal hmem => ?_⟩
      · obtain ⟨s, hs, hprofile, -⟩ := renewals_registered hcoherent hmem
        exact ⟨s, hs, hprofile⟩
      · obtain ⟨s, hs, hprofile, hendpoint⟩ := renewals_registered hcoherent hmem
        exact ⟨arms, [], l, s, rfl, htrace, hs, hprofile, hendpoint,
          fun _ hmem => absurd hmem List.not_mem_nil⟩
  | renewed index result made retry =>
      rw [select, Option.ite_none_right_eq_some] at hselect
      obtain ⟨-, hselect⟩ := hselect
      obtain ⟨renewal, hrenewal, rfl⟩ := Option.map_eq_some_iff.mp hselect
      obtain ⟨s, -, -, hcomplete, hholds⟩ := complete_holds h hrenewal result made retry
      rw [hcomplete]
      exact hholds
  | address received retry =>
      rw [select, Option.ite_none_right_eq_some] at hselect
      obtain ⟨-, hselect⟩ := hselect
      cases hselect
      cases received with
      | false => trivial
      | true => exact h.snoc rfl rfl rfl
  | changed result retry =>
      cases result with
      | error message =>
          rw [select, Option.ite_none_right_eq_some] at hselect
          obtain ⟨-, hselect⟩ := hselect
          cases hselect
          trivial
      | ok _ =>
          rw [select, Option.ite_none_right_eq_some] at hselect
          obtain ⟨-, hselect⟩ := hselect
          cases hselect
          exact h.snoc rfl rfl rfl
  | retry retry =>
      rw [select, Option.ite_none_right_eq_some] at hselect
      obtain ⟨-, hselect⟩ := hselect
      cases hselect
      exact h.snoc rfl rfl rfl

theorem boot_safe (discovered : Except Failure (List (Profile × Outcome E A S))) (retry : Option Nat) :
    Safe (boot discovered retry) [] (boot discovered retry) := by
  have hempty : AllCoherent [] (∅ : Servers E A S) := by
    rintro name s ⟨⟩
  have hkeeps := reconcileProfiles_keeps hempty discovered
  rw [boot]
  split
  · trivial
  · rename_i result servers hscan
    rw [hscan] at hkeeps
    exact Holds.idle hkeeps rfl

theorem trace_safe {discovered : Except Failure (List (Profile × Outcome E A S))}
    (h : Trace step Free (boot discovered retry) arms t) : Safe (boot discovered retry) arms t := by
  induction h with
  | nil => exact boot_safe discovered retry
  | @snoc arms t arm u htrace _ hstep ih =>
      cases t with
      | running l => exact select_safe htrace ih hstep
      | exited result => cases hstep
      | panicked => cases hstep

end

/-- No order of the arms panics. Every outstanding update names a registered server of its profile,
which it was started for with no scan since; and a completed one is applied to such a server. -/
theorem updates_registered {E A S : Type} {arms : List (Arm E A S)} {t : Status E A S}
    {discovered : Except Failure (List (Profile × Outcome E A S))} {retry : Option Nat}
    (h : Trace step Free (boot discovered retry) arms t) :
    t ≠ .panicked ∧ ∀ l, t = .running l →
      (∀ renewal ∈ l.updates, Registered l.servers renewal ∧
        Started (boot discovered retry) arms renewal) ∧
      ∀ index renewal result made again u, l.updates[index]? = some renewal →
        step t (.renewed index result made again) = some u →
          ∃ s, l.servers.lookup renewal.profile.name = some s ∧ s.profile = renewal.profile ∧
            u = .running (outer again { l with
              servers := refresh made result l.servers renewal.profile.name s
              updates := l.updates.eraseIdx index }) := by
  have hsafe := trace_safe h
  constructor
  · rintro rfl
    exact hsafe
  · rintro l rfl
    refine ⟨fun renewal hmem => ⟨hsafe.registered renewal hmem, hsafe.started renewal hmem⟩, ?_⟩
    intro index renewal result made again u hrenewal hstep
    obtain ⟨s, hs, hprofile, hcomplete, -⟩ := complete_holds hsafe hrenewal result made again
    rw [step, select, Option.ite_none_right_eq_some, hrenewal, Option.map_some, hcomplete] at hstep
    exact ⟨s, hs, hprofile, (Option.some.inj hstep.2).symm⟩

/-- The credentials of the first identity are renewed while a reload is asked for. -/
def sampleArms : List (Arm Nat Unit Unit) :=
  [.ocsp, .reload, .renewed 0 (.ok 1) (.ok ()) none,
    .config (.ok [(alice, .healthy "off")]) none]

theorem updates_registered_alice :
    boot (.ok [(alice, .healthy "internal")]) none ≠ (.panicked : Status Nat Unit Unit) ∧
      ∃ t : Status Nat Unit Unit, run step Free (boot (.ok [(alice, .healthy "internal")]) none)
        sampleArms = some t ∧ t ≠ .panicked := by
  have hstart : Trace step Free (boot (.ok [(alice, Outcome.healthy "internal")]) none) [] _ := .nil
  refine ⟨(updates_registered hstart).1, ?_⟩
  obtain ⟨t, ht⟩ := Option.isSome_iff_exists.mp (show (run step Free
    (boot (.ok [(alice, .healthy "internal")]) none) sampleArms).isSome = true from rfl)
  exact ⟨t, ht, (updates_registered (trace_of_run ht)).1⟩

end Pishoo.EventLoop
