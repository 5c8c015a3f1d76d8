import Pishoo.Machine

namespace Pishoo.AccessInitialization

open Machine

/-- The access database of an identity: the objects of the access service's own schema, their
policies, and the rows of the two capability tables. -/
structure Content (π ρ : Type) where
  service : Nat
  userVersion : Int
  policies : List π
  capabilities : Option (List ρ)

namespace Content

variable {π ρ : Type}

def blank : Content π ρ := ⟨0, 0, [], none⟩

def objects (c : Content π ρ) : Nat := c.service + if c.capabilities.isSome then 2 else 0

/-- The table `module` exists. -/
def complete (c : Content π ρ) : Bool := decide (0 < c.service)

def rows (c : Content π ρ) : List ρ := c.capabilities.getD []

end Content

variable {π ρ : Type}

abbrev File (π ρ : Type) := Option (Content π ρ)

def rowsOf (f : File π ρ) : List ρ := f.elim [] Content.rows

/-- The statements of `access_version` up to the one that finds the table `module`, with the number
of objects it has counted. What it reads afterwards never changes. -/
inductive Look
  | file
  | objects
  | userVersion (objects : Nat)
  | module (objects : Nat)
  | tables (objects : Nat)

/-- Where a call of `load_access` is. The first version check has no snapshot yet, the second one
has the snapshot that is ready. -/
inductive Stage (π ρ : Type)
  | checking (look : Look) (ready : Option (Content π ρ))
  | seeding
  | finding (working : Content π ρ)
  | probing (working : Content π ρ)
  | copying (working : Content π ρ)
  | placing (ready : Content π ρ)
  | restoring (ready : Content π ρ)
  | linking (ready : Content π ρ)
  | loading
  | failed

/-- `access_version` has answered `None`. -/
def unversioned : Option (Content π ρ) → Stage π ρ
  | none => .seeding
  | some ready => .placing ready

def look (ready : Option (Content π ρ)) (c : Content π ρ) : Look → Stage π ρ
  | .file => .checking .objects ready
  | .objects => .checking (.userVersion c.objects) ready
  | .userVersion objects =>
      if objects = 0 ∧ c.userVersion = 0 then unversioned ready else .checking (.module objects) ready
  | .module objects => if c.complete then .loading else .checking (.tables objects) ready
  | .tables objects => if c.capabilities.isSome ∧ objects = 2 then unversioned ready else .failed

/-- One statement of a call. The schema that the access service creates in the working file has
`objects + 1` objects and some user version. -/
def proceed (defaults : List π) (objects : Nat) (userVersion : Int) (file : File π ρ) :
    Stage π ρ → Option (Stage π ρ × File π ρ)
  | .checking at' ready => match file, at' with
      | none, .file => some (unversioned ready, file)
      | none, _ => some (.failed, file)
      | some c, at' => some (look ready c at', file)
  | .seeding => some (.finding ⟨objects + 1, userVersion, defaults, none⟩, file)
  | .finding working =>
      some (if file.isSome then .probing working else .checking .file (some working), file)
  | .probing working =>
      some (if (file.bind Content.capabilities).isSome then .copying working
        else .checking .file (some working), file)
  | .copying working => match file.bind Content.capabilities with
      | some rows => some (.checking .file (some { working with capabilities := some rows }), file)
      | none => some (.failed, file)
  | .placing ready => some (if file.isSome then .restoring ready else .linking ready, file)
  | .restoring ready => some (.loading, some ready)
  | .linking ready => some (.loading, if file.isSome then file else some ready)
  | .loading | .failed => none

/-- The next statement writes the file at the path. -/
def publishes (file : File π ρ) : Stage π ρ → Bool
  | .restoring _ => true
  | .linking _ => file.isNone
  | _ => false

/-- `published` counts the writes of initializers; `policies` and `rows` are what has been
committed at the path: the first publication, and the writes of the owner and of installations. -/
structure System (π ρ : Type) where
  file : File π ρ
  calls : List (Stage π ρ)
  published : Nat
  policies : List π
  rows : List ρ

def init (file : File π ρ) : System π ρ := ⟨file, [], 0, [], rowsOf file⟩

inductive Event (π ρ : Type)
  | load
  | advance (i objects : Nat) (userVersion : Int)
  | createFile
  | createTables
  | setPolicies (keep : π → Bool) (added : List π)
  | saveCapabilities (keep : ρ → Bool) (added : List ρ)

def step (defaults : List π) (s : System π ρ) : Event π ρ → Option (System π ρ)
  | .load => some { s with calls := s.calls ++ [.checking .file none] }
  | .advance i objects userVersion => match s.calls[i]? with
      | none => none
      | some stage => (proceed defaults objects userVersion s.file stage).map fun next => { s with
          file := next.2
          calls := s.calls.set i next.1
          published := s.published + if publishes s.file stage then 1 else 0
          policies := if publishes s.file stage ∧ s.published = 0 then defaults else s.policies }
  | .createFile => match s.file with
      | none => some { s with file := some .blank }
      | some _ => none
  | .createTables => match s.file with
      | some c => match c.capabilities with
          | none => some { s with file := some { c with capabilities := some [] } }
          | some _ => none
      | none => none
  | .setPolicies keep added => match s.file with
      | some c =>
          if c.complete then some { s with
            file := some { c with policies := c.policies.filter keep ++ added }
            policies := s.policies.filter keep ++ added }
          else none
      | none => none
  | .saveCapabilities keep added => match s.file with
      | some c => match c.capabilities with
          | some rows => some { s with
              file := some { c with capabilities := some (rows.filter keep ++ added) }
              rows := s.rows.filter keep ++ added }
          | none => none
      | none => none

/-- The file is missing, empty or holds only capability tables. -/
def Pending (f : File π ρ) : Prop := ∀ c ∈ f, c.service = 0 ∧ c.userVersion = 0 ∧ c.policies = []

/-- Nothing that was committed at the path has been lost or replaced. -/
structure Safe (s : System π ρ) : Prop where
  once : s.published ≤ 1
  policies : 0 < s.published → ∃ c, s.file = some c ∧ c.complete = true ∧ c.policies = s.policies
  rows : ∀ row ∈ s.rows, row ∈ rowsOf s.file

/-- The snapshot is about to be restored over a file that another initializer has completed, or that
holds a row the snapshot does not have. -/
def overtaken [DecidableEq ρ] : File π ρ → Stage π ρ → Bool
  | some c, .restoring ready => c.complete || c.rows.any (fun row => decide (row ∉ ready.rows))
  | _, _ => false

def Races [DecidableEq ρ] (s : System π ρ) : Event π ρ → Prop
  | .advance i _ _ => ∃ stage ∈ s.calls[i]?, overtaken s.file stage = true
  | _ => False

instance [DecidableEq ρ] (s : System π ρ) : (e : Event π ρ) → Decidable (Races s e)
  | .advance i _ _ =>
      inferInstanceAs (Decidable (∃ stage ∈ s.calls[i]?, overtaken s.file stage = true))
  | .load | .createFile | .createTables | .setPolicies _ _ | .saveCapabilities _ _ => .isFalse id

/-- The database that a call has built so far. -/
def Stage.content : Stage π ρ → Option (Content π ρ)
  | .checking _ ready => ready
  | .finding c | .probing c | .copying c | .placing c | .restoring c | .linking c => some c
  | .seeding | .loading | .failed => none

def Prepared (defaults : List π) (stage : Stage π ρ) : Prop :=
  ∀ c ∈ stage.content, c.complete = true ∧ c.policies = defaults

section

variable {defaults : List π} {n : Nat} {u : Int} {f file' : File π ρ} {stage stage' : Stage π ρ}
  {c : Content π ρ} {s s' : System π ρ} {e : Event π ρ}

theorem prepared_unversioned {ready : Option (Content π ρ)} {at' : Look}
    (h : Prepared defaults (.checking at' ready)) : Prepared defaults (unversioned ready) := by
  cases ready with
  | none => nofun
  | some c => exact h

theorem prepared_look {ready : Option (Content π ρ)} {at' : Look}
    (h : Prepared defaults (.checking at' ready)) : Prepared defaults (look ready c at') := by
  unfold look
  repeat' split
  all_goals first | exact h | exact prepared_unversioned h | nofun

theorem proceed_prepared (h : proceed defaults n u f stage = some (stage', file'))
    (hp : Prepared defaults stage) : Prepared defaults stage' := by
  unfold proceed at h
  split at h
  · split at h
    · cases h
      exact prepared_unversioned hp
    · cases h
      nofun
    · cases h
      exact prepared_look hp
  · cases h
    rintro c hc
    cases hc
    exact ⟨by simp [Content.complete], rfl⟩
  · split at h <;> cases h <;> exact hp
  · split at h <;> cases h <;> exact hp
  · split at h
    · cases h
      rename_i working _ rows hrows
      rintro c hc
      cases hc
      exact hp working rfl
    · cases h
      nofun
  · split at h <;> cases h <;> exact hp
  · cases h
    nofun
  · cases h
    nofun
  · cases h
  · cases h

/-- A statement of a call leaves the file alone or writes its snapshot. -/
theorem proceed_file (h : proceed defaults n u f stage = some (stage', file')) :
    file' = if publishes f stage then stage.content else f := by
  unfold proceed at h
  split at h
  · split at h <;> cases h <;> rfl
  · cases h; rfl
  · cases h; rfl
  · cases h; rfl
  · split at h <;> cases h <;> rfl
  · cases h; rfl
  · cases h; rfl
  · cases h
    cases f <;> rfl
  · cases h
  · cases h

theorem publishes_content (h : publishes f stage = true) : ∃ ready, stage.content = some ready := by
  cases stage <;> simp_all [publishes, Stage.content]

/-- What holds in every run. -/
structure Sound (defaults : List π) (s : System π ρ) : Prop where
  prepared : ∀ stage ∈ s.calls, Prepared defaults stage
  unpublished : s.published = 0 → (∀ c ∈ s.file, c.complete = false) ∧ rowsOf s.file = s.rows

/-- What a step of a call does. -/
theorem step_advance {i : Nat} (h : step defaults s (.advance i n u) = some s') :
    ∃ stage stage', s.calls[i]? = some stage ∧ s'.calls = s.calls.set i stage' ∧
      (Prepared defaults stage → Prepared defaults stage') ∧ s'.rows = s.rows ∧
      (publishes s.file stage = false ∧ s'.file = s.file ∧ s'.published = s.published ∧
          s'.policies = s.policies ∨
        publishes s.file stage = true ∧ s'.file = stage.content ∧ s'.published = s.published + 1 ∧
          s'.policies = if s.published = 0 then defaults else s.policies) := by
  simp only [step] at h
  split at h
  · cases h
  · rename_i stage hi
    obtain ⟨⟨stage', file'⟩, hp, rfl⟩ := Option.map_eq_some_iff.mp h
    refine ⟨stage, stage', hi, rfl, proceed_prepared hp, rfl, ?_⟩
    have hfile := proceed_file hp
    cases hpub : publishes s.file stage with
    | false => exact .inl ⟨rfl, by simpa [hpub] using hfile, by simp, by simp⟩
    | true => exact .inr ⟨rfl, by simpa [hpub] using hfile, by simp, by simp⟩

/-- A snapshot that is not overtaken replaces an unfinished file, whose rows it has. -/
theorem publishes_free [DecidableEq ρ] {ready : Content π ρ} (hpub : publishes f stage = true)
    (hready : stage.content = some ready) (hover : overtaken f stage = false) :
    (∀ c ∈ f, c.complete = false) ∧ ∀ row ∈ rowsOf f, row ∈ ready.rows := by
  cases f with
  | none => exact ⟨nofun, nofun⟩
  | some c =>
      cases stage with
      | restoring r =>
          cases hready
          rw [overtaken, Bool.or_eq_false_iff, List.any_eq_false] at hover
          obtain ⟨hcomplete, hrows⟩ := hover
          refine ⟨fun c' hc' => by cases hc'; exact hcomplete, fun row hrow => ?_⟩
          simpa using hrows row hrow
      | linking r => cases hpub
      | _ => cases hpub

/-- What the owner, an installation or the configuration writes. -/
theorem step_written (h : step defaults s e = some s') (he : ∀ i n u, e ≠ .advance i n u) :
    (∀ stage ∈ s'.calls, stage ∈ s.calls ∨ stage = .checking .file none) ∧
      s'.published = s.published ∧
      ((∀ c ∈ s.file, c.complete = false) → ∀ c ∈ s'.file, c.complete = false) ∧
      (rowsOf s.file = s.rows → rowsOf s'.file = s'.rows) ∧
      ((∀ row ∈ s.rows, row ∈ rowsOf s.file) → ∀ row ∈ s'.rows, row ∈ rowsOf s'.file) ∧
      ∀ c, s.file = some c → c.complete = true → c.policies = s.policies →
        ∃ c', s'.file = some c' ∧ c'.complete = true ∧ c'.policies = s'.policies := by
  cases e with
  | load =>
      cases h
      refine ⟨fun stage hstage => ?_, rfl, id, id, id, fun c hc ht hp => ⟨c, hc, ht, hp⟩⟩
      obtain hstage | hstage := List.mem_append.mp hstage
      · exact .inl hstage
      · exact .inr (List.mem_singleton.mp hstage)
  | advance i n u => exact absurd rfl (he i n u)
  | createFile =>
      simp only [step] at h
      split at h
      · rename_i hfile
        cases h
        rw [hfile]
        refine ⟨fun _ hstage => .inl hstage, rfl, fun _ c hc => ?_, id, id, nofun⟩
        cases hc
        rfl
      · cases h
  | createTables =>
      simp only [step] at h
      repeat' split at h
      all_goals cases h
      rename_i c hfile _ hnone
      have hrows : rowsOf s.file = [] := by simp [hfile, rowsOf, Content.rows, hnone]
      rw [hrows, hfile]
      refine ⟨fun _ hstage => .inl hstage, rfl, fun hf c' hc' => ?_, id, id, fun c' hc' ht hp => ?_⟩
      · cases hc'
        exact hf c rfl
      · cases hc'
        exact ⟨_, rfl, ht, hp⟩
  | setPolicies keep added =>
      simp only [step] at h
      repeat' split at h
      all_goals cases h
      rename_i c hfile hcomplete
      rw [hfile]
      refine ⟨fun _ hstage => .inl hstage, rfl, fun hf c' hc' => ?_, id, id, fun c' hc' ht hp => ?_⟩
      · cases hc'
        exact hf c rfl
      · cases hc'
        exact ⟨_, rfl, ht, by rw [hp]⟩
  | saveCapabilities keep added =>
      simp only [step] at h
      repeat' split at h
      all_goals cases h
      rename_i c hfile _ rows hrows
      have hr : rowsOf s.file = rows := by simp [hfile, rowsOf, Content.rows, hrows]
      rw [hr, hfile]
      refine ⟨fun _ hstage => .inl hstage, rfl, fun hf c' hc' => ?_, ?_, ?_, fun c' hc' ht hp => ?_⟩
      · cases hc'
        exact hf c rfl
      · rintro rfl
        rfl
      · intro hsub row hrow
        obtain hrow | hrow := List.mem_append.mp hrow
        · obtain ⟨hmem, hkeep⟩ := List.mem_filter.mp hrow
          exact List.mem_append_left _ (List.mem_filter.mpr ⟨hsub row hmem, hkeep⟩)
        · exact List.mem_append_right _ hrow
      · cases hc'
        exact ⟨_, rfl, ht, hp⟩

theorem sound_step (hs : Sound defaults s) (h : step defaults s e = some s') :
    Sound defaults s' := by
  by_cases he : ∃ i n u, e = .advance i n u
  · obtain ⟨i, n, u, rfl⟩ := he
    obtain ⟨stage, stage', hi, hcalls, hprepared, hrows, hwrite⟩ := step_advance h
    refine ⟨fun q hq => ?_, fun hp => ?_⟩
    · rw [hcalls] at hq
      obtain hq | rfl := List.mem_or_eq_of_mem_set hq
      · exact hs.prepared q hq
      · exact hprepared (hs.prepared stage (List.mem_of_getElem? hi))
    · obtain ⟨-, hfile, hpublished, -⟩ | ⟨-, -, hpublished, -⟩ := hwrite
      · rw [hfile, hrows]
        exact hs.unpublished (hpublished ▸ hp)
      · omega
  · have hne : ∀ i n u, e ≠ .advance i n u := fun i n u h => he ⟨i, n, u, h⟩
    obtain ⟨hcalls, hpublished, hincomplete, hrows, -⟩ := step_written h hne
    refine ⟨fun q hq => ?_, fun hp => ?_⟩
    · obtain hq | rfl := hcalls q hq
      · exact hs.prepared q hq
      · nofun
    · obtain ⟨hc, hr⟩ := hs.unpublished (hpublished ▸ hp)
      exact ⟨hincomplete hc, hrows hr⟩

theorem safe_step [DecidableEq ρ] (hs : Sound defaults s) (hsafe : Safe s) (hquiet : ¬Races s e)
    (h : step defaults s e = some s') : Safe s' := by
  by_cases he : ∃ i n u, e = .advance i n u
  · obtain ⟨i, n, u, rfl⟩ := he
    obtain ⟨stage, stage', hi, -, -, hrows, ⟨-, hfile, hpublished, hpolicies⟩ |
      ⟨hpub, hfile, hpublished, hpolicies⟩⟩ := step_advance h
    · refine ⟨hpublished ▸ hsafe.once, fun hp => ?_, ?_⟩
      · rw [hfile, hpolicies]
        exact hsafe.policies (hpublished ▸ hp)
      · rw [hfile, hrows]
        exact hsafe.rows
    · obtain ⟨ready, hready⟩ := publishes_content hpub
      obtain ⟨hcomplete, hdefaults⟩ := hs.prepared stage (List.mem_of_getElem? hi) ready hready
      have hover : overtaken s.file stage = false := by
        by_contra hover
        exact hquiet ⟨stage, hi, by simpa using hover⟩
      obtain ⟨hincomplete, hkept⟩ := publishes_free hpub hready hover
      have hzero : s.published = 0 := by
        by_contra hne
        obtain ⟨c, hc, htrue, -⟩ := hsafe.policies (by omega)
        rw [hincomplete c hc] at htrue
        cases htrue
      have hnew : s'.file = some ready := hfile.trans hready
      refine ⟨by omega, fun _ => ⟨ready, hnew, hcomplete, ?_⟩, ?_⟩
      · rw [hpolicies, if_pos hzero, hdefaults]
      · rw [hnew, hrows, ← (hs.unpublished hzero).2]
        exact hkept
  · have hne : ∀ i n u, e ≠ .advance i n u := fun i n u h => he ⟨i, n, u, h⟩
    obtain ⟨-, hpublished, -, -, hrows, hpolicies⟩ := step_written h hne
    refine ⟨hpublished ▸ hsafe.once, fun hp => ?_, hrows hsafe.rows⟩
    obtain ⟨c, hc, hcomplete, heq⟩ := hsafe.policies (hpublished ▸ hp)
    exact hpolicies c hc hcomplete heq

theorem sound_init (hf : Pending f) : Sound defaults (init f) :=
  ⟨nofun, fun _ => ⟨fun c hc => by simp [Content.complete, (hf c hc).1], rfl⟩⟩

theorem safe_init (f : File π ρ) : Safe (init f) :=
  ⟨Nat.zero_le 1, fun h => absurd h (Nat.lt_irrefl 0), fun _ h => h⟩

theorem sound_of_trace {guard : System π ρ → Event π ρ → Prop} {es : List (Event π ρ)}
    (hf : Pending f) (h : Trace (step defaults) guard (init f) es s) : Sound defaults s :=
  h.invariant (sound_init hf) fun _ _ _ hs _ hstep => sound_step hs hstep

theorem safe_of_trace [DecidableEq ρ] {es : List (Event π ρ)} (hf : Pending f)
    (h : Trace (step defaults) (fun s e => ¬Races s e) (init f) es s) : Safe s := by
  have hboth : Sound defaults s ∧ Safe s :=
    h.invariant (I := fun s => Sound defaults s ∧ Safe s) ⟨sound_init hf, safe_init f⟩
      fun _ _ _ hs hquiet hstep => ⟨sound_step hs.1 hstep, safe_step hs.1 hs.2 hquiet hstep⟩
  exact hboth.2

theorem races_unsafe [DecidableEq ρ] (hs : Sound defaults s) (hrace : Races s e)
    (h : step defaults s e = some s') : ¬Safe s' := by
  cases e with
  | advance i n u =>
      obtain ⟨stage, hi, hover⟩ := hrace
      obtain ⟨stage', -, hi', -, -, hrows, hwrite⟩ := step_advance h
      rw [Option.mem_def.mp hi] at hi'
      cases hi'
      obtain ⟨c, ready, hfile, rfl⟩ : ∃ c ready, s.file = some c ∧ stage = .restoring ready := by
        unfold overtaken at hover
        split at hover
        · exact ⟨_, _, ‹_›, rfl⟩
        · cases hover
      obtain ⟨hpub, -⟩ | ⟨-, hnew, hpublished, -⟩ := hwrite
      · cases hpub
      · rintro ⟨honce, -, hkept⟩
        have hzero : s.published = 0 := by omega
        obtain ⟨hincomplete, hsame⟩ := hs.unpublished hzero
        rw [hfile] at hover
        simp only [overtaken, hincomplete c hfile, Bool.false_or, List.any_eq_true,
          decide_eq_true_eq] at hover
        obtain ⟨row, hrow, hlost⟩ := hover
        refine hlost ?_
        have hmem : row ∈ s'.rows := by
          rw [hrows, ← hsame, hfile]
          exact hrow
        have hstill := hkept row hmem
        rw [hnew] at hstill
        exact hstill
  | load | createFile | createTables | setPolicies _ _ | saveCapabilities _ _ => exact hrace.elim

/-- Every state of a run is safe if and only if no initializer has been overtaken in it. -/
theorem access_safe_iff [DecidableEq ρ] {es : List (Event π ρ)} (hf : Pending f)
    (h : Trace (step defaults) Free (init f) es s) :
    (∀ before after t, es = before ++ after → Trace (step defaults) Free (init f) before t → Safe t) ↔
      ¬Happens (step defaults) Free Races (init f) es := by
  constructor
  · rintro hsafe ⟨before, e, after, t, rfl, ht, hrace⟩
    rw [← List.singleton_append, ← List.append_assoc] at h
    obtain ⟨t', ht', -⟩ := h.append_inv
    obtain ⟨v, hv, -, hstep⟩ := ht'.snoc_inv
    cases ht.unique hv
    refine races_unsafe (sound_of_trace hf ht) hrace hstep ?_
    exact hsafe (before ++ [e]) after t' (by simp) ht'
  · rintro hquiet before after t rfl ht
    obtain ⟨t', ht', -⟩ := h.append_inv
    cases ht.unique ht'
    refine safe_of_trace hf (ht.guarded fun hrace => hquiet ?_)
    obtain ⟨first, e, last, u, rfl, hu, hp⟩ := hrace
    exact ⟨first, e, last ++ after, u, by simp, hu, hp⟩

end

def greetings : List String := ["allow POST /std/contact"]

/-- Two initializers find an empty file. The second one restores its snapshot after the first one
has published and the owner has set a policy. -/
def racingRun : List (Event String String) :=
  [.load, .load] ++ List.replicate 10 (.advance 0 6 0) ++ List.replicate 10 (.advance 1 6 0) ++
    [.advance 0 6 0, .setPolicies (fun _ => true) ["deny GET /app/mail"], .advance 1 6 0]

theorem second_initializer_overwrites : ¬∀ (defaults : List String) (f : File String String)
    (es : List (Event String String)) (s : System String String), Pending f →
      Trace (step defaults) Free (init f) es s → Safe s := by
  intro h
  obtain ⟨s, hs⟩ : ∃ s, run (step greetings) Free (init (some .blank)) racingRun = some s :=
    Option.isSome_iff_exists.mp (by decide)
  have hpending : Pending (some (Content.blank : Content String String)) := by
    intro c hc
    cases hc
    exact ⟨rfl, rfl, rfl⟩
  have honce := (h greetings _ racingRun s hpending (trace_of_run hs)).once
  have htwice : s.published = 2 := by
    have heq : (run (step greetings) Free (init (some .blank)) racingRun).map System.published =
        some 2 := by decide
    rw [hs] at heq
    exact Option.some.inj heq
  omega

/-- An installation has declared a capability before the only initializer runs. -/
def pendingFile : File String String := some ⟨0, 0, [], some ["mail/Read"]⟩

def soleRun : List (Event String String) := .load :: List.replicate 16 (.advance 0 6 0)

theorem access_safe_sole : ∃ s, Trace (step greetings) Free (init pendingFile) soleRun s ∧
    s.published = 1 ∧ Safe s := by
  obtain ⟨s, hs⟩ : ∃ s, run (step greetings) (fun s e => ¬Races s e) (init pendingFile) soleRun =
      some s := Option.isSome_iff_exists.mp (by decide)
  have hguarded := trace_of_run hs
  have htrace : Trace (step greetings) Free (init pendingFile) soleRun s :=
    hguarded.mono fun _ _ _ => trivial
  have hpending : Pending pendingFile := by
    intro c hc
    cases hc
    exact ⟨rfl, rfl, rfl⟩
  refine ⟨s, htrace, ?_, ?_⟩
  · have heq : (run (step greetings) (fun s e => ¬Races s e) (init pendingFile) soleRun).map
        System.published = some 1 := by decide
    rw [hs] at heq
    exact Option.some.inj heq
  · exact (access_safe_iff hpending htrace).mpr hguarded.not_happens soleRun [] s (by simp) htrace

end Pishoo.AccessInitialization
