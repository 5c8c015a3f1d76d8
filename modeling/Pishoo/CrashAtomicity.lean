import Pishoo.CommitOutcome
import Pishoo.Recovery

namespace Pishoo.CrashAtomicity

open Result World Prog PackageFiles

variable {γ : Type}

/-- A transaction that changes the facts of a package, about to be written, while no journal is left
from another one. The ids of its entries have been checked. -/
structure Start (normalizeName : String → Option String) (w₀ : World γ) (n : String) (tx : Database)
    (entries : List (Id × String)) : Prop extends Ready w₀ n entries where
  batch : entries ≠ [] ∧ entries.length ≤ 100
  valid : ∀ e ∈ entries, validId normalizeName e.1 = .ok ()
  places : ∀ e ∈ entries, e.2 = e.1.name ∨ e.2 = "" ∧ entries.length = 1
  others : ∀ m, w₀.marker m = none
  changes : ∃ e ∈ entries,
    registrationFacts tx.registry e.1.name ≠ registrationFacts w₀.db.registry e.1.name

/-- What is left when the transaction, and any number of recoveries after it, are stopped anywhere. -/
inductive Reached (normalizeName : String → Option String) (size : List JournalEntry → Nat)
    (entries : List (Id × String)) (n : String) (tx : Database) (w₀ : World γ) : World γ → Prop
  | commit (fs : List (Fault (Leftover γ))) :
      Reached normalizeName size entries n tx w₀ (commitPackagesFiles size entries n tx fs w₀).2.1
  | recover {w : World γ} (h : Reached normalizeName size entries n tx w₀ w) (order : List String)
      (fs : List (Fault (Leftover γ))) :
      Reached normalizeName size entries n tx w₀ (recoverPackageFiles normalizeName size order fs w).2.1

structure Before (w₀ w : World γ) : Prop where
  db : w.db = w₀.db
  files : w.runtime = w₀.runtime

structure After (w₀ : World γ) (n : String) (tx : Database) (entries : List (Id × String))
    (w : World γ) : Prop where
  db : w.db = tx
  files : ∀ e ∈ entries, ∀ kind, w.runtime (slotOf e.1 kind) = w₀.candidate n e.2 kind
  rest : ∀ slot, (∀ e ∈ entries, ∀ kind, slotOf e.1 kind ≠ slot) → w.runtime slot = w₀.runtime slot

/-- Everything is old, or everything is new, and no journal is left. -/
def Settled (w₀ : World γ) (n : String) (tx : Database) (entries : List (Id × String))
    (w : World γ) : Prop :=
  (Before w₀ w ∨ After w₀ n tx entries w) ∧ ∀ m, w.marker m = none

/-- A recovery from `w` accepts the journal, it returns if nothing disturbs it, and whenever it
returns the transaction has been settled. -/
structure Recovers (normalizeName : String → Option String) (size : List JournalEntry → Nat)
    (w₀ : World γ) (n : String) (tx : Database) (entries : List (Id × String)) (order : List String)
    (w : World γ) : Prop where
  accepts : ∀ packages, w.marker n = some (.complete packages) →
    checkJournal normalizeName size packages = .ok ()
  returns : ∃ w', recoverPackageFiles normalizeName size order [] w = (.ok (), w', [])
  settles : ∀ fs w' gs, recoverPackageFiles normalizeName size order fs w = (.ok (), w', gs) →
    Settled w₀ n tx entries w'

section

variable {normalizeName : String → Option String} {size : List JournalEntry → Nat}
  {w₀ w w' : World γ} {n : String} {tx : Database} {entries : List (Id × String)}
  {packages : List JournalEntry} {order : List String} {goal : Slot → Option γ}

theorem checkEntries_accepts {count : Nat} {names : List String}
    (hvalid : ∀ e ∈ packages, validId normalizeName e.id = .ok ())
    (hnames : (packages.map fun e => e.id.name).Nodup) (hfresh : ∀ e ∈ packages, e.id.name ∉ names)
    (hplaces : ∀ e ∈ packages, e.directory = e.id.name ∨ e.directory = "" ∧ count = 1)
    (hkinds : ∀ e ∈ packages, e.resources.map JournalResource.kind = [.lib, .app]) :
    checkEntries normalizeName count names packages = .ok () := by
  induction packages generalizing names with
  | nil => rfl
  | cons e packages ih =>
      rw [List.map_cons, List.nodup_cons] at hnames
      have hkind := hkinds e List.mem_cons_self
      have hentry : checkEntry normalizeName count names e = .ok () := by
        have hlength : e.resources.length = 2 := by
          simpa using congrArg List.length hkind
        have hresources : checkResources e.resources = .ok () :=
          bind_eq_ok.mpr ⟨(), by simp [hlength], by simp [hkind]⟩
        refine bind_eq_ok.mpr ⟨(), hvalid e List.mem_cons_self,
          bind_eq_ok.mpr ⟨(), failIf_eq_ok.mpr ?_, hresources⟩⟩
        exact not_or.mpr ⟨hfresh e List.mem_cons_self, not_not.mpr (hplaces e List.mem_cons_self)⟩
      refine bind_eq_ok.mpr ⟨(), hentry, ih (fun e' he' => hvalid e' (List.mem_cons_of_mem _ he'))
        hnames.2 (fun e' he' hin => ?_) (fun e' he' => hplaces e' (List.mem_cons_of_mem _ he'))
          fun e' he' => hkinds e' (List.mem_cons_of_mem _ he')⟩
      obtain hname | hin := List.mem_cons.mp hin
      · exact hnames.1 (hname ▸ List.mem_map_of_mem he')
      · exact hfresh e' (List.mem_cons_of_mem _ he') hin

/-- The recovery accepts what the installer writes. -/
theorem Start.accepts (h : Start normalizeName w₀ n tx entries)
    (hsize : size (journal w₀ n tx entries) ≤ journalLimit) :
    checkJournal normalizeName size (journal w₀ n tx entries) = .ok () := by
  have hlength : (journal w₀ n tx entries).length = entries.length := List.length_map _
  refine bind_eq_ok.mpr ⟨(), failIf_eq_ok.mpr (not_lt.mpr hsize),
    bind_eq_ok.mpr ⟨(), failIf_eq_ok.mpr ?_, checkEntries_accepts ?_ ?_ (by simp) ?_ ?_⟩⟩
  · rw [hlength, ← List.length_eq_zero_iff, hlength, List.length_eq_zero_iff]
    exact not_or.mpr ⟨h.batch.1, not_lt.mpr h.batch.2⟩
  · exact List.forall_mem_map.mpr h.valid
  · rw [journal, List.map_map]
    exact h.names
  · rw [hlength]
    exact List.forall_mem_map.mpr h.places
  · exact List.forall_mem_map.mpr fun _ _ => rfl

theorem Start.uncommitted (h : Start normalizeName w₀ n tx entries) :
    committed w₀.db (journal w₀ n tx entries) = false := by
  obtain ⟨e, he, hne⟩ := h.changes
  rw [committed, List.all_eq_false]
  refine ⟨journalEntry w₀ n tx e, List.mem_map_of_mem he, fun hmatch => hne ?_⟩
  exact (Entry.matchesFacts_iff _ _ _).mp hmatch

theorem committed_journal : committed tx (journal w₀ n tx entries) = true := by
  rw [committed, List.all_eq_true]
  exact List.forall_mem_map.mpr fun e _ => (Entry.matchesFacts_iff _ _ _).mpr rfl

/-- The runtime files with the candidates of the stage in place. -/
def replaced (w₀ : World γ) (n : String) (packages : List JournalEntry) (slot : Slot) : Option γ :=
  match (targets packages).find? (fun t => t.slot == slot) with
  | some t => w₀.candidate n t.directory t.kind
  | none => w₀.runtime slot

/-- The one journal is that of the transaction, and undoing it brings back the old files before the
commit, and nothing but the new ones after it. -/
structure Phase (size : List JournalEntry → Nat) (w₀ : World γ) (n : String) (tx : Database)
    (entries : List (Id × String)) (w : World γ) : Prop where
  others : ∀ m, m ≠ n → w.marker m = none
  marker : ∀ packages, w.marker n = some (.complete packages) →
    packages = journal w₀ n tx entries ∧ size packages ≤ journalLimit ∧ Rooted packages w
  state : w.db = w₀.db ∧ Recoverable w₀.runtime w ∨
    w.db = tx ∧ Recoverable (replaced w₀ n (journal w₀ n tx entries)) w

theorem recoverable_of_runtime (h : w.runtime = goal) (hu : ∀ m ps, ¬Uncommitted w m ps) :
    Recoverable goal w :=
  ⟨fun m ps h' => absurd h' (hu m ps), fun m ps h' => absurd h' (hu m ps),
    fun slot => .inl (congrFun h slot)⟩

theorem Frame.others (hstart : Start normalizeName w₀ n tx entries)
    (h : Frame w₀ n packages w) (m : String) (hm : m ≠ n) : w.marker m = none :=
  (marker_of_stages (h.stages m hm)).trans (hstart.others m)

theorem Untouched.phase (hstart : Start normalizeName w₀ n tx entries)
    (h : Untouched w₀ n packages w) : Phase size w₀ n tx entries w := by
  refine ⟨Frame.others hstart h.frame, fun ps hps => absurd hps (h.marker ps),
    .inl ⟨h.db, recoverable_of_runtime h.runtime fun m ps hu => ?_⟩⟩
  by_cases hm : m = n
  · exact h.marker ps (hm ▸ hu.1)
  · have hnone := Frame.others hstart h.frame m hm
    rw [Uncommitted, hnone] at hu
    cases hu.1

theorem Switching.phase (hstart : Start normalizeName w₀ n tx entries)
    (hsize : size (journal w₀ n tx entries) ≤ journalLimit)
    (h : Switching w₀ n (journal w₀ n tx entries) w) : Phase size w₀ n tx entries w := by
  have huncommitted : Uncommitted w n (journal w₀ n tx entries) := by
    refine ⟨h.marker, ?_⟩
    rw [h.db]
    exact hstart.uncommitted
  have honly {m : String} {ps : List JournalEntry} (hu : Uncommitted w m ps) :
      m = n ∧ ps = journal w₀ n tx entries := by
    by_cases hm : m = n
    · subst hm
      have hps := hu.1.symm.trans h.marker
      cases hps
      exact ⟨rfl, rfl⟩
    · have hnone := Frame.others hstart h.frame m hm
      rw [Uncommitted, hnone] at hu
      cases hu.1
  refine ⟨Frame.others hstart h.frame, fun ps hps => ?_, .inl ⟨h.db, fun m ps hu t ht hb => ?_,
    fun m ps hu t ht ha => ?_, fun slot => ?_⟩⟩
  · have hps := hps.symm.trans h.marker
    cases hps
    exact ⟨rfl, hsize, h.roots⟩
  · obtain ⟨rfl, rfl⟩ := honly hu
    exact (h.restores t ht).backup hb
  · obtain ⟨rfl, rfl⟩ := honly hu
    exact (h.restores t ht).backup_eq ha
  · by_cases hslot : ∃ t ∈ targets (journal w₀ n tx entries), t.slot = slot
    · obtain ⟨t, ht, rfl⟩ := hslot
      cases hacts : (w.swap n t).acts t.old t.new with
      | true => exact .inr ⟨n, _, t, huncommitted, ht, rfl, hacts⟩
      | false => exact .inl ((h.restores t ht).live_eq hacts)
    · push Not at hslot
      exact .inl (h.frame.runtime slot hslot)

theorem Done.phase (hstart : Start normalizeName w₀ n tx entries)
    (hsize : size (journal w₀ n tx entries) ≤ journalLimit)
    (h : Done w₀ n tx (journal w₀ n tx entries) w) : Phase size w₀ n tx entries w := by
  refine ⟨Frame.others hstart h.frame, fun ps hps => ?_,
    .inr ⟨h.db, recoverable_of_runtime (funext fun slot => ?_) fun m ps hu => ?_⟩⟩
  · obtain hnone | ⟨hmarker, hroots, -⟩ := h.marker
    · rw [hnone] at hps
      cases hps
    · have hps := hps.symm.trans hmarker
      cases hps
      exact ⟨rfl, hsize, hroots⟩
  · unfold replaced
    split
    · rename_i t hfind
      have hslot : t.slot = slot := by simpa using List.find?_some hfind
      rw [← hslot, h.runtime t (List.mem_of_find?_eq_some hfind)]
      rfl
    · rename_i hfind
      refine h.frame.runtime slot fun t ht hslot => ?_
      have hnot := List.find?_eq_none.mp hfind t ht
      simp [hslot] at hnot
  · by_cases hm : m = n
    · subst hm
      obtain hnone | ⟨hmarker, -⟩ := h.marker
      · rw [Uncommitted, hnone] at hu
        cases hu.1
      · obtain ⟨hps, hc⟩ := hu
        have hps := hps.symm.trans hmarker
        cases hps
        rw [h.db, committed_journal] at hc
        cases hc
    · have hnone := Frame.others hstart h.frame m hm
      rw [Uncommitted, hnone] at hu
      cases hu.1

theorem Rooting.untouched {done : List (Id × Kind)} (hready : Ready w₀ n entries)
    (h : Rooting w₀ done w) : Untouched w₀ n (journal w₀ n tx entries) w := by
  have hfresh : Fresh w₀ n (journal w₀ n tx entries) w := h.fresh hready
  refine ⟨hfresh.frame, hfresh.db, fun ps => ?_, hfresh.runtime⟩
  have hnone : w.marker n = none := by
    have hstages : w.stages = w₀.stages := by rw [← h.same]
    rw [World.marker, hstages]
    exact hready.marker
  simp [hnone]

theorem Untouched.reduced (h : Untouched w₀ n packages w) (hr : Reduced n w w') :
    Untouched w₀ n packages w' := by
  refine ⟨h.frame.reduced hr, hr.db.trans h.db, fun ps => ?_, hr.runtime.trans h.runtime⟩
  obtain hnone | hsame := hr.marker
  · simp [hnone]
  · rw [hsame]
    exact h.marker ps

/-- A journal that is too large is never written. -/
theorem commitPackagesFiles_oversize (hready : Ready w₀ n entries)
    (hsize : journalLimit < size (journal w₀ n tx entries)) :
    Triple (fun w => w = w₀) (commitPackagesFiles size entries n tx) (fun _ _ => False)
      (fun _ => Untouched w₀ n (journal w₀ n tx entries))
      (Untouched w₀ n (journal w₀ n tx entries)) := by
  have hcut (done : List (Id × Kind)) (w : World γ) (h : Rooting w₀ done w) :
      Untouched w₀ n (journal w₀ n tx entries) w := Rooting.untouched hready h
  have hpublish : Triple (fun w => w = w₀) (publish size entries n tx) (fun _ _ => False)
      (fun _ => Untouched w₀ n (journal w₀ n tx entries))
      (Untouched w₀ n (journal w₀ n tx entries)) := by
    refine Triple.pre (Triple.bind (triple_sync (hcut [])) fun _ =>
      Triple.bind (prepareAll_triple hcut) fun _ => Triple.get fun w hw => ?_) ?_
    · have hpackages : entries.map (journalEntry w n tx) = journal w₀ n tx entries := by
        rw [journal, ← hw.same]
        rfl
      simp only [hpackages]
      refine Triple.bind (R := fun _ _ => False) (Triple.ofExcept ?_ ?_) fun _ => Triple.of_false
      · exact fun _ _ hok _ => failIf_eq_ok.mp hok hsize
      · rintro _ _ - rfl
        exact hcut _ _ hw
    · rintro _ rfl
      exact ⟨rfl, by simp⟩
  refine Triple.bind (Triple.onError hpublish fun e => ?_) fun _ => Triple.of_false
  exact removeStage_triple (fun w w' h hr => Untouched.reduced h hr)
    fun w w' h hr _ => Untouched.reduced h hr

theorem commit_phase (hstart : Start normalizeName w₀ n tx entries)
    (fs : List (Fault (Leftover γ))) :
    Phase size w₀ n tx entries (commitPackagesFiles size entries n tx fs w₀).2.1 := by
  by_cases hsize : size (journal w₀ n tx entries) ≤ journalLimit
  · cases commitPackagesFiles_outcome hstart.toReady fs with
    | untouched h => exact Untouched.phase hstart h
    | switching h => exact Switching.phase hstart hsize h
    | done h => exact Done.phase hstart hsize h
  · exact ((commitPackagesFiles_oversize hstart.toReady (not_le.mp hsize)).conseq (fun _ => id)
      (fun _ _ h => h.elim) (fun _ _ h => Untouched.phase hstart h)
        fun _ h => Untouched.phase hstart h).state fs rfl

theorem Phase.shrinks (h : Phase size w₀ n tx entries w) (hs : Shrinks w w')
    (hr : ∀ goal : Slot → Option γ, Recoverable goal w → Recoverable goal w') :
    Phase size w₀ n tx entries w' := by
  refine ⟨fun m hm => ?_, fun ps hps => ?_, ?_⟩
  · obtain hnone | ⟨hsame, -⟩ := hs.marker m
    · exact hnone
    · exact hsame.trans (h.others m hm)
  · obtain hnone | ⟨hsame, -⟩ := hs.marker n
    · rw [hnone] at hps
      cases hps
    · obtain ⟨heq, hlimit, hroots⟩ := h.marker ps (hsame ▸ hps)
      refine ⟨heq, hlimit, ?_⟩
      rw [Rooted, hs.roots]
      exact hroots
  · rw [hs.db]
    exact h.state.imp (And.imp_right (hr _)) (And.imp_right (hr _))

theorem Phase.recoverable (h : Phase size w₀ n tx entries w) : ∃ goal, Recoverable goal w :=
  h.state.elim (fun h => ⟨_, h.2⟩) fun h => ⟨_, h.2⟩

theorem recover_phase (h : Phase size w₀ n tx entries w) (order : List String)
    (fs : List (Fault (Leftover γ))) :
    Phase size w₀ n tx entries (recoverPackageFiles normalizeName size order fs w).2.1 := by
  have hstate {goal : Slot → Option γ} (hw : Recoverable goal w) :
      Resumable goal w (recoverPackageFiles normalizeName size order fs w).2.1 :=
    ((recoverPackageFiles_triple hw).post fun _ _ h => h.1).state fs rfl
  obtain ⟨goal, hw⟩ := h.recoverable
  exact h.shrinks (hstate hw).2 fun _ hw => (hstate hw).1

theorem Reached.phase (hstart : Start normalizeName w₀ n tx entries)
    (h : Reached normalizeName size entries n tx w₀ w) : Phase size w₀ n tx entries w := by
  induction h with
  | commit fs => exact commit_phase hstart fs
  | recover _ order fs ih => exact recover_phase ih order fs

/-- With the journals gone the transaction has been settled. -/
theorem Phase.settled (hstart : Start normalizeName w₀ n tx entries)
    (h : Phase size w₀ n tx entries w) (hnone : ∀ m, w.marker m = none) :
    Settled w₀ n tx entries w := by
  refine ⟨h.state.imp (fun ⟨hdb, hw⟩ => ⟨hdb, hw.files_of_none hnone⟩) fun ⟨hdb, hw⟩ => ?_, hnone⟩
  have hfiles (slot : Slot) : w.runtime slot = replaced w₀ n (journal w₀ n tx entries) slot :=
    congrFun (hw.files_of_none hnone) slot
  refine ⟨hdb, fun e he kind => ?_, fun slot hslot => ?_⟩
  · have ht : targetOf w₀ n e kind ∈ targets (journal w₀ n tx entries) :=
      mem_targets_journal.mpr ⟨e, he, kind, rfl⟩
    rw [hfiles, replaced]
    cases hfind : (targets (journal w₀ n tx entries)).find?
        (fun t => t.slot == slotOf e.1 kind) with
    | none =>
        have hnot := List.find?_eq_none.mp hfind _ ht
        simp [Target.slot, targetOf] at hnot
    | some t =>
        have hslot : t.slot = slotOf e.1 kind := by simpa using List.find?_some hfind
        have heq : t = targetOf w₀ n e kind := by
          by_contra hne
          exact ((targets_separate hstart.toReady).forall (List.mem_of_find?_eq_some hfind) ht
            hne).1 hslot
        rw [heq]
        rfl
  · rw [hfiles, replaced]
    cases hfind : (targets (journal w₀ n tx entries)).find? (fun t => t.slot == slot) with
    | none => rfl
    | some t =>
        obtain ⟨e, he, kind, rfl⟩ := mem_targets_journal.mp (List.mem_of_find?_eq_some hfind)
        have hfound : (targetOf w₀ n e kind).slot = slot := by simpa using List.find?_some hfind
        exact absurd hfound (hslot e he kind)

end

section

variable {normalizeName : String → Option String} {size : List JournalEntry → Nat}
  {w : World γ} {n : String} {packages : List JournalEntry} {order : List String} {t : Target}

theorem sync_returns {P : World γ → Prop} : Returns P sync fun _ => P :=
  Returns.step fun w hw => ⟨w, rfl, hw⟩

theorem removeTarget_returns {P : World γ → Prop} : Returns P (removeTarget t) fun _ _ => True :=
  Returns.step fun _ _ => ⟨_, rfl, trivial⟩

theorem renameBack_returns {P : World γ → Prop}
    (h : ∀ w, P w → (w.backup n t.directory t.kind).isSome = true) :
    Returns P (renameBack n t) fun _ _ => True := by
  refine Returns.step fun w hw => ?_
  obtain ⟨c, hc⟩ := Option.isSome_iff_exists.mp (h w hw)
  simp [hc]

/-- The journal is there, with all directories that it speaks about. -/
structure Standing (n : String) (packages : List JournalEntry) (w : World γ) : Prop where
  marker : w.marker n = some (.complete packages)
  roots : Rooted packages w
  members : ∀ e ∈ packages, (w.member n e.directory).isSome = true

theorem Standing.moved {f : Swap γ → Swap γ} {w' : World γ} (h : Standing n packages w)
    (hm : Moved n t f w w') : Standing n packages w' := by
  refine ⟨(hm.marker n).trans h.marker, ?_, fun e he => ?_⟩
  · rw [Rooted, hm.roots]
    exact h.roots
  · rw [hm.members]
    exact h.members e he

theorem recoverTarget_returns :
    Returns (Standing (γ := γ) n packages) (recoverTarget n t) fun _ => Standing n packages := by
  have hremove {P : World γ → Prop} (hP : ∀ w, P w → Standing n packages w) :
      Returns P (removeTarget t) fun _ w' => ∃ w, P w ∧ Moved n t (Swap.discard none) w w' :=
    Returns.of_triple (removeTarget_triple (n := n) (R := fun _ => True) (fun _ _ _ _ _ => trivial)
      fun w w' h hm => ⟨w, h, hm⟩) removeTarget_returns
  refine Returns.get fun w hw => ?_
  have hstart (w' : World γ) (h : w' = w) : Standing n packages w' := h ▸ hw
  refine Returns.bind (R := fun _ => Standing n packages) (Returns.doIf (fun hb => ?_)
    fun _ => hstart) fun _ => Returns.doIf (fun _ => ?_) fun _ _ => id
  · refine Returns.bind (R := fun _ w' => Standing n packages w' ∧
      (w'.backup n t.directory t.kind).isSome = true) ((hremove hstart).conseq (fun _ => id) ?_)
        fun _ => ?_
    · rintro _ w' ⟨w₁, rfl, hm⟩
      refine ⟨hw.moved hm, ?_⟩
      have hsame : w'.backup n t.directory t.kind = w₁.backup n t.directory t.kind :=
        (hm.discard_pieces n t).1
      rw [hsame]
      exact hb
    · exact Returns.of_triple (renameBack_triple (R := fun _ => True) (fun _ _ => trivial)
        fun w₁ w₂ h hm => h.1.moved hm) (renameBack_returns fun w₁ h => h.2)
  · exact (hremove fun _ => id).conseq (fun _ => id) fun _ w' ⟨w₁, h, hm⟩ => h.moved hm

theorem recoverEntry_returns {e : JournalEntry} (he : e ∈ packages) :
    Returns (Standing (γ := γ) n packages) (recoverEntry n e) fun _ => Standing n packages := by
  have hresource (t : Target) (ht : t ∈ targets [e]) :
      Returns (Standing (γ := γ) n packages) (recoverResource n t) fun _ => Standing n packages := by
    have htarget : t ∈ targets packages := by
      obtain ⟨before, after, rfl⟩ := List.append_of_mem he
      rw [targets_append, targets_cons]
      exact List.mem_append_right _ (List.mem_append_left _ ht)
    refine Returns.get fun w hw => Returns.bind (R := fun _ => Standing n packages)
      (Returns.ofExcept (a := ()) (failIf_eq_ok.mpr ?_) ?_) fun _ =>
        Returns.bind recoverTarget_returns fun _ => sync_returns
    · simp [hw.roots t htarget]
    · rintro _ rfl
      exact hw
  refine Returns.get fun w hw => Returns.bind (R := fun _ => Standing n packages)
    (Returns.ofExcept (a := ()) (failIf_eq_ok.mpr ?_) ?_) fun _ =>
      Returns.bind (Returns.forEach hresource) fun _ => sync_returns
  · simp [hw.members e he]
  · rintro _ rfl
    exact hw

theorem unlinkMarker_returns {P : World γ → Prop} (h : ∀ w, P w → (w.marker n).isSome = true) :
    Returns P (unlinkMarker n) fun _ _ => True := by
  refine Returns.step fun w hw => ?_
  obtain ⟨marker, hmarker⟩ := Option.isSome_iff_exists.mp (h w hw)
  simp [hmarker]

theorem removeStage_returns {P : World γ → Prop} : Returns P (removeStage n) fun _ _ => True :=
  Returns.step fun _ _ => ⟨_, rfl, trivial⟩

/-- Nothing but a fault stops the recovery of an accepted journal whose directories are there. -/
theorem recoverStage_returns (hmarker : w.marker n = some (.complete packages))
    (haccepts : checkJournal normalizeName size packages = .ok ()) (hroots : Rooted packages w)
    (hmembers : committed w.db packages = false →
      ∀ e ∈ packages, (w.member n e.directory).isSome = true) :
    Returns (fun w' => w' = w) (recoverStage normalizeName size n) fun _ _ => True := by
  have hrest : Returns (fun w' : World γ => w'.marker n = some (.complete packages))
      (do unlinkMarker n; sync; removeStage n; sync) fun _ _ => True :=
    Returns.bind (unlinkMarker_returns fun w h => by simp [h]) fun _ =>
      Returns.bind sync_returns fun _ => Returns.bind removeStage_returns fun _ => sync_returns
  refine Returns.get fun w' hw' => ?_
  subst hw'
  simp only [hmarker]
  refine Returns.bind (R := fun _ w => w = w') (Returns.ofExcept (a := ()) (by rw [haccepts]; rfl)
    fun _ => id) fun _ => Returns.bind sync_returns fun _ =>
      Returns.bind (R := fun _ w => w.marker n = some (.complete packages))
        (Returns.doIf (fun hc => ?_) fun _ => ?_) fun _ => hrest
  · refine (Returns.forEach fun e he => recoverEntry_returns he).conseq ?_ fun _ w h => h.marker
    rintro _ rfl
    exact ⟨hmarker, hroots, hmembers (by simpa using hc)⟩
  · rintro _ rfl
    exact hmarker

theorem recoverStage_of_none (h : w.marker n = none) (fs : List (Fault (Leftover γ))) :
    recoverStage normalizeName size n fs w = (.ok (), w, fs) := by
  rw [recoverStage, get_bind, h]
  rfl

theorem recoverPackageFiles_of_none (h : ∀ m ∈ order, w.marker m = none)
    (fs : List (Fault (Leftover γ))) :
    recoverPackageFiles normalizeName size order fs w = (.ok (), w, fs) := by
  induction order with
  | nil => rfl
  | cons m order ih =>
      rw [List.forall_mem_cons] at h
      exact (bind_of_ok (recoverStage_of_none h.1 fs)).trans (ih h.2)

/-- The recovery deals with the only journal there is. -/
theorem recoverPackageFiles_eq {goal : Slot → Option γ} (hw : Recoverable goal w)
    (hothers : ∀ m, m ≠ n → w.marker m = none) (hn : n ∈ order) (fs : List (Fault (Leftover γ))) :
    recoverPackageFiles normalizeName size order fs w = recoverStage normalizeName size n fs w := by
  obtain ⟨before, after, rfl, hbefore⟩ := List.eq_append_cons_of_mem hn
  have hskip : recoverPackageFiles normalizeName size before fs w = (.ok (), w, fs) :=
    recoverPackageFiles_of_none (fun m hm => hothers m fun h => hbefore (h ▸ hm)) fs
  have hends := (recoverStage_triple hw : Triple _ (recoverStage normalizeName size n) _ _ _) fs w rfl
  refine (forEach_append before (n :: after) _ fs w).trans ((bind_of_ok hskip).trans ?_)
  change andThen (recoverStage normalizeName size n)
    (fun _ => recoverPackageFiles normalizeName size after) fs w = _
  rw [andThen]
  revert hends
  obtain ⟨x, w', gs⟩ := recoverStage normalizeName size n fs w
  cases x with
  | err e => exact fun _ => rfl
  | crashed => exact fun _ => rfl
  | ok _ =>
      rintro ⟨⟨⟨-, hshrinks⟩, hnone⟩, -⟩
      refine recoverPackageFiles_of_none (fun m _ => ?_) gs
      by_cases hm : m = n
      · exact hm ▸ hnone
      · obtain hmarker | ⟨hmarker, -⟩ := hshrinks.marker m
        · exact hmarker
        · exact hmarker.trans (hothers m hm)

theorem Phase.standing {w₀ : World γ} {tx : Database} {entries : List (Id × String)}
    (h : Phase size w₀ n tx entries w) (hreadable : Readable w n) :
    w.marker n = none ∨ ∃ packages, w.marker n = some (.complete packages) ∧
      packages = journal w₀ n tx entries ∧ size packages ≤ journalLimit ∧ Rooted packages w ∧
      (committed w.db packages = false → ∀ e ∈ packages, (w.member n e.directory).isSome = true) := by
  cases hmarker : w.marker n with
  | none => exact .inl rfl
  | some marker =>
      cases marker with
      | torn => exact absurd hmarker hreadable.marker
      | complete packages =>
          obtain ⟨heq, hlimit, hroots⟩ := h.marker packages hmarker
          exact .inr ⟨packages, rfl, heq, hlimit, hroots, fun hc =>
            hreadable.members packages ⟨hmarker, hc⟩⟩

theorem lists_of_marker (h : Lists order w) (hmarker : w.marker n ≠ none) : n ∈ order := by
  obtain ⟨marker, hsome⟩ := Option.ne_none_iff_exists'.mp hmarker
  exact h n (stages_of_marker hsome)

end

/-- Stopped anywhere, a transaction of package files is recovered, and settled, exactly if the journal
is not half written and the directories of an uncommitted one are still there. -/
theorem crash_atomic_iff {normalizeName : String → Option String} {size : List JournalEntry → Nat}
    {w₀ w : World γ} {n : String} {tx : Database} {entries : List (Id × String)}
    {order : List String} (hstart : Start normalizeName w₀ n tx entries)
    (hreach : Reached normalizeName size entries n tx w₀ w) (horder : Lists order w) :
    Recovers normalizeName size w₀ n tx entries order w ↔ Readable w n := by
  have hphase : Phase size w₀ n tx entries w := hreach.phase hstart
  obtain ⟨goal, hw⟩ := hphase.recoverable
  have hnone (m : String) (hn : w.marker n = none) : w.marker m = none := by
    by_cases hm : m = n
    · exact hm ▸ hn
    · exact hphase.others m hm
  constructor
  · rintro ⟨-, ⟨w', hreturns⟩, -⟩
    by_cases hn : w.marker n = none
    · refine ⟨by simp [hn], fun packages hu => ?_⟩
      rw [Uncommitted, hn] at hu
      cases hu.1
    · rw [recoverPackageFiles_eq hw hphase.others (lists_of_marker horder hn)] at hreturns
      exact ((recoverStage_triple hw).result rfl hreturns).2
  · intro hreadable
    refine ⟨fun packages hmarker => ?_, ?_, fun fs w' gs hreturns => ?_⟩
    · obtain ⟨rfl, hlimit, -⟩ := hphase.marker packages hmarker
      exact hstart.accepts hlimit
    · obtain hn | ⟨packages, hmarker, rfl, hlimit, hroots, hmembers⟩ := hphase.standing hreadable
      · exact ⟨w, recoverPackageFiles_of_none (fun m _ => hnone m hn) []⟩
      · have hn : n ∈ order := lists_of_marker horder (by simp [hmarker])
        rw [recoverPackageFiles_eq hw hphase.others hn]
        obtain ⟨_, w', hreturns, -⟩ := recoverStage_returns hmarker (hstart.accepts hlimit) hroots
          hmembers w rfl
        exact ⟨w', hreturns⟩
    · have hphase' : Phase size w₀ n tx entries w' := by
        have hrecover : Phase size w₀ n tx entries
            (recoverPackageFiles normalizeName size order fs w).2.1 := recover_phase hphase order fs
        rwa [hreturns] at hrecover
      refine hphase'.settled hstart fun m => ?_
      by_cases hn : w.marker n = none
      · rw [recoverPackageFiles_of_none (fun m _ => hnone m hn)] at hreturns
        cases hreturns
        exact hnone m hn
      · have horder' : n ∈ order := lists_of_marker horder hn
        by_cases hm : m = n
        · exact hm ▸ ((recoverPackageFiles_triple hw).result rfl hreturns).2 n horder'
        · exact hphase'.others m hm

/-- One staged library. -/
def stagedLibrary : World String where
  db := ⟨.empty, fun _ => none⟩
  runtime := fun _ => none
  roots := fun _ => false
  stages m := if m = ".pishoo-1" then some ⟨none, fun d => if d = "base" then
      some ⟨fun kind => if kind = .lib then some "base 1.0.0" else none, fun _ => none⟩
    else if d = "" then some .empty else none⟩ else none
  sandbox := .empty

def registeredLibrary : Database where
  registry := ⟨⟨[Registry.fresh (Registration.sampleRelease "base" "1.0.0" []).row 100], [], [], []⟩,
    by decide⟩
  releases name := if name = "base" then some (Registration.sampleRelease "base" "1.0.0" []) else none

def libraryEntries : List (Id × String) := [(⟨some "alice.example", "base"⟩, "base")]

def journalSize (packages : List JournalEntry) : Nat := 512 * packages.length

/-- The world if the process stops after so many steps. -/
def stoppedAfter (steps : Nat) : World String :=
  (commitPackagesFiles journalSize libraryEntries ".pishoo-1" registeredLibrary
    (List.replicate steps .proceed ++ [.crash ⟨none, true, fun _ => none⟩]) stagedLibrary).2.1

theorem stagedLibrary_start :
    Start some stagedLibrary ".pishoo-1" registeredLibrary libraryEntries where
  marker := rfl
  members := by
    intro e he
    rw [List.mem_singleton.mp he]
    exact ⟨_, rfl, fun _ => rfl⟩
  names := by decide
  directories := by decide
  batch := by decide
  valid := by decide
  places := by decide
  others m := by
    by_cases hm : m = ".pishoo-1" <;> simp [World.marker, stagedLibrary, hm]
  changes := by decide

theorem stoppedAfter_reached (steps : Nat) :
    Reached some journalSize libraryEntries ".pishoo-1" registeredLibrary stagedLibrary
      (stoppedAfter steps) :=
  .commit _

theorem lists_stoppedAfter (steps : Nat) : Lists [".pishoo-1"] (stoppedAfter steps) := by
  intro m hm
  rw [List.mem_singleton]
  by_contra hne
  have houtcome : Outcome stagedLibrary ".pishoo-1" registeredLibrary
      (journal stagedLibrary ".pishoo-1" registeredLibrary libraryEntries) (stoppedAfter steps) :=
    commitPackagesFiles_outcome stagedLibrary_start.toReady _
  have hstage : (stoppedAfter steps).stages m = none :=
    (houtcome.frame.stages m hne).trans (if_neg hne)
  rw [hstage] at hm
  cases hm

/-- Between the rename of the candidate and the commit. -/
theorem crash_atomic_iff_renamed :
    Recovers some journalSize stagedLibrary ".pishoo-1" registeredLibrary libraryEntries
      [".pishoo-1"] (stoppedAfter 16) := by
  refine (crash_atomic_iff stagedLibrary_start (stoppedAfter_reached 16)
    (lists_stoppedAfter 16)).mpr ⟨by decide, fun packages hu e he => ?_⟩
  have hmarker : (stoppedAfter 16).marker ".pishoo-1" =
      some (.complete (journal stagedLibrary ".pishoo-1" registeredLibrary libraryEntries)) := by
    decide
  have hpackages := hu.1.symm.trans hmarker
  cases hpackages
  rw [List.mem_singleton.mp he]
  decide

/-- Between the creation of the journal and the write of its contents. -/
theorem crash_not_atomic :
    Start some stagedLibrary ".pishoo-1" registeredLibrary libraryEntries ∧
      Reached some journalSize libraryEntries ".pishoo-1" registeredLibrary stagedLibrary
        (stoppedAfter 8) ∧ Lists [".pishoo-1"] (stoppedAfter 8) ∧
      ¬Recovers some journalSize stagedLibrary ".pishoo-1" registeredLibrary libraryEntries
        [".pishoo-1"] (stoppedAfter 8) := by
  refine ⟨stagedLibrary_start, stoppedAfter_reached 8, lists_stoppedAfter 8, ?_⟩
  rintro ⟨-, ⟨w', hreturns⟩, -⟩
  have hfails : (recoverPackageFiles some journalSize [".pishoo-1"] [] (stoppedAfter 8)).1 =
      .err jsonError := by
    rfl
  rw [hreturns] at hfails
  cases hfails

end Pishoo.CrashAtomicity
