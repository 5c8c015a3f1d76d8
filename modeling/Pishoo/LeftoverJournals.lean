import Pishoo.Machine
import Pishoo.Recovery
import Pishoo.Releases

namespace Pishoo.LeftoverJournals

open Result World Prog PackageFiles Registry Registration Installation Machine

variable {γ : Type}

/-- Undoing the journal of the stage would change no file. -/
def Idle (w : World γ) (m : String) : Prop :=
  ∀ packages, w.marker m = some (.complete packages) → ∀ t ∈ targets packages, ¬Acts w m t

/-- The journals that name one of the packages are idle. -/
def Cleared (w : World γ) (names : List String) : Prop :=
  ∀ m packages, w.marker m = some (.complete packages) → (∃ e ∈ packages, e.id.name ∈ names) →
    ∀ t ∈ targets packages, ¬Acts w m t

def StageIs (m : String) (stage : Option (Stage γ)) (w : World γ) : Prop := w.stages m = stage

section

variable {w w' : World γ} {n m : String} {t : Target} {packages : List JournalEntry}
  {stage : Option (Stage γ)} {normalizeName : String → Option String}
  {size : List JournalEntry → Nat} {files : Slot → Option γ}

theorem acts_of_stages (h : w'.stages m = w.stages m) : Acts w' m t ↔ Acts w m t := by
  have hmember := member_of_stages h
  refine acts_congr ?_ ?_
  · simp only [World.swap, World.backup, hmember]
  · simp only [World.swap, World.candidate, hmember]

theorem backup_of_stages (h : w'.stages m = w.stages m) :
    (w'.swap m t).backup = (w.swap m t).backup := by
  simp only [World.swap, World.backup, member_of_stages h]

theorem Idle.of_stages (hi : Idle w m) (h : w'.stages m = w.stages m) : Idle w' m := by
  intro ps hm t ht ha
  rw [marker_of_stages h] at hm
  exact hi ps hm t ht ((acts_of_stages h).mp ha)

theorem recoverTarget_stages (hm : m ≠ n) :
    Triple (StageIs m stage) (recoverTarget n t) (fun _ => StageIs m stage)
      (fun _ => StageIs m stage) (StageIs m stage) := by
  have hmoved {f : Swap γ → Swap γ} (w w' : World γ) (h : StageIs m stage w)
      (h' : Moved n t f w w') : StageIs m stage w' := (h'.stages m hm).trans h
  have hremove : Triple (StageIs m stage) (removeTarget t) (fun _ => StageIs m stage)
      (fun _ => StageIs m stage) (StageIs m stage) :=
    removeTarget_triple (n := n) (fun w w' _ => hmoved w w') hmoved
  refine Triple.get fun w hw => Triple.pre (Triple.bind (R := fun _ => StageIs m stage)
    (Triple.doIf (fun _ => ?_) fun _ _ h => h) fun _ => Triple.doIf (fun _ => hremove)
      fun _ _ h => h) fun _ h => h ▸ hw
  exact Triple.bind hremove fun _ => renameBack_triple (fun _ h => h) hmoved

theorem recoverEntry_stages (hm : m ≠ n) (e : JournalEntry) :
    Triple (StageIs (γ := γ) m stage) (recoverEntry n e) (fun _ => StageIs m stage)
      (fun _ => StageIs m stage) (StageIs m stage) := by
  refine Triple.get fun w hw => Triple.pre (Triple.bind (R := fun _ => StageIs m stage)
    (Triple.ofExcept (fun _ _ _ h => h) fun _ _ _ h => h) fun _ => Triple.bind
      (R := fun _ => StageIs m stage) (Triple.forEach (I := fun _ _ => StageIs m stage)
        fun _ t _ _ => ?_) fun _ => triple_sync fun _ h => h) fun _ h => h ▸ hw
  refine Triple.get fun w hw => Triple.pre (Triple.bind (R := fun _ => StageIs m stage)
    (Triple.ofExcept (fun _ _ _ h => h) fun _ _ _ h => h) fun _ => Triple.bind
      (recoverTarget_stages hm) fun _ => triple_sync fun _ h => h) fun _ h => h ▸ hw

theorem recoverStage_stages (hm : m ≠ n) :
    Triple (StageIs (γ := γ) m stage) (recoverStage normalizeName size n)
      (fun _ => StageIs m stage) (fun _ => StageIs m stage) (StageIs m stage) := by
  refine Triple.get fun w hw => Triple.pre (P := StageIs m stage) ?_ fun _ h => h ▸ hw
  cases w.marker n with
  | none => exact Triple.pure fun _ h => h
  | some marker =>
      cases marker with
      | torn => exact Triple.throw fun _ h => h
      | complete packages =>
          refine Triple.bind (R := fun _ => StageIs m stage) (Triple.ofExcept (fun _ _ _ h => h)
            fun _ _ _ h => h) fun _ => Triple.bind (triple_sync fun _ h => h) fun _ =>
              Triple.bind (R := fun _ => StageIs m stage) (Triple.doIf (fun _ => Triple.forEach
                (I := fun _ _ => StageIs m stage) fun _ e _ _ => recoverEntry_stages hm e)
                fun _ _ h => h) fun _ => ?_
          have hmarked (w w' : World γ) (h : StageIs m stage w) (h' : Marked n none w w') :
              StageIs m stage w' := (h'.stages m hm).trans h
          have hreduced (w w' : World γ) (h : StageIs m stage w) (h' : Reduced n w w') :
              StageIs m stage w' := (h'.stages m hm).trans h
          exact Triple.bind (unlinkMarker_triple (fun _ h => h) hmarked) fun _ =>
            Triple.bind (triple_sync fun _ h => h) fun _ => Triple.bind (removeStage_triple hreduced
              fun w w' h h' _ => hreduced w w' h h') fun _ => triple_sync fun _ h => h

theorem recoverTarget_idle (ht : ¬Acts w n t) :
    Triple (fun w' => w' = w) (recoverTarget n t) (fun _ w' => w' = w) (fun _ w' => w' = w)
      fun w' => w' = w := by
  rw [Acts, Swap.acts, Bool.or_eq_true, not_or] at ht
  refine Triple.get ?_
  rintro w rfl
  refine Triple.bind (R := fun _ w' => w' = w) (Triple.doIf (fun hb => absurd hb ht.1)
    fun _ _ h => h) fun _ => Triple.doIf (fun hnew => absurd ?_ ht.2) fun _ _ h => h
  rw [Bool.and_eq_true] at hnew
  exact hnew.2

theorem recoverEntries_idle (hidle : ∀ t ∈ targets packages, ¬Acts w n t) :
    Triple (fun w' => w' = w) (forEach packages (recoverEntry n)) (fun _ w' => w' = w)
      (fun _ w' => w' = w) fun w' => w' = w := by
  refine Triple.forEach (I := fun _ _ w' => w' = w) fun before e after hl => Triple.get ?_
  rintro w rfl
  refine Triple.bind (R := fun _ w' => w' = w) (Triple.ofExcept (fun _ _ _ h => h)
    fun _ _ _ h => h) fun _ => Triple.bind (Triple.forEach (I := fun _ _ w' => w' = w)
      fun before' t after' hl' => Triple.get ?_) fun _ => triple_sync fun _ h => h
  rintro w rfl
  refine Triple.bind (R := fun _ w' => w' = w) (Triple.ofExcept (fun _ _ _ h => h)
    fun _ _ _ h => h) fun _ => Triple.bind (recoverTarget_idle (hidle t ?_)) fun _ =>
      triple_sync fun _ h => h
  rw [hl, targets_append, targets_cons, hl']
  simp

/-- A recovery that meets an idle journal at most removes it. -/
theorem recoverStage_idle (hidle : Idle w n) :
    Triple (fun w' => w' = w) (recoverStage normalizeName size n)
      (fun _ w' => w'.runtime = w.runtime ∧ Idle w' n)
      (fun _ w' => w'.runtime = w.runtime ∧ Idle w' n)
      fun w' => w'.runtime = w.runtime ∧ Idle w' n := by
  have hstart (w' : World γ) (h : w' = w) : w'.runtime = w.runtime ∧ Idle w' n := by
    subst h
    exact ⟨rfl, hidle⟩
  have hgone {w' : World γ} (h : w'.marker n = none) : Idle w' n := fun ps hps => by
    rw [h] at hps
    cases hps
  refine Triple.get ?_
  rintro w rfl
  cases hmarker : w.marker n with
  | none => exact Triple.pure hstart
  | some marker =>
      cases marker with
      | torn => exact Triple.throw hstart
      | complete packages =>
          refine Triple.bind (R := fun _ w' => w' = w) (Triple.ofExcept (fun _ _ _ h => h)
            fun _ w' _ => hstart w') fun _ => Triple.bind (triple_sync hstart) fun _ =>
              Triple.bind (R := fun _ w' => w' = w) (Triple.doIf (fun _ =>
                (recoverEntries_idle (hidle packages hmarker)).conseq (fun _ h => h) (fun _ _ h => h)
                  (fun _ => hstart) hstart) fun _ _ h => h) fun _ => ?_
          refine Triple.bind (R := fun _ w' => w'.runtime = w.runtime ∧ w'.marker n = none)
            (unlinkMarker_triple hstart ?_) fun _ => Triple.bind (triple_sync fun w' h =>
              ⟨h.1, hgone h.2⟩) fun _ => Triple.bind (R := fun _ w' => w'.runtime = w.runtime ∧
                w'.marker n = none) (removeStage_triple ?_ ?_) fun _ => (triple_sync fun w' h =>
                  ⟨h.1, hgone h.2⟩).post fun _ w' h => ⟨h.1, hgone h.2⟩
          · rintro _ w' rfl h
            exact ⟨h.runtime, h.marker⟩
          · rintro w₁ w₂ ⟨hr, hnone⟩ h
            exact ⟨h.runtime.trans hr, hgone (h.marker.elim (fun h' => h') fun h' => h'.trans hnone)⟩
          · rintro w₁ w₂ ⟨hr, hnone⟩ h _
            exact ⟨h.runtime.trans hr, h.marker.elim (fun h' => h') fun h' => h'.trans hnone⟩

theorem recoverPackageFiles_idle {order : List String} :
    Triple (fun w : World γ => Idle w m) (recoverPackageFiles normalizeName size order)
      (fun _ w => Idle w m) (fun _ w => Idle w m) fun w => Idle w m := by
  refine Triple.forEach (I := fun _ _ w => Idle w m) fun _ n _ _ => Triple.intro fun w hw => ?_
  by_cases hmn : m = n
  · subst hmn
    exact (recoverStage_idle hw).conseq (fun _ h => h) (fun _ _ h => h.2) (fun _ _ h => h.2)
      fun _ h => h.2
  · refine ((recoverStage_stages hmn : Triple (fun v => v.stages m = w.stages m) _ _ _ _)).conseq ?_ ?_ ?_ ?_
    · rintro _ rfl
      rfl
    · exact fun _ _ h => hw.of_stages h
    · exact fun _ _ h => hw.of_stages h
    · exact fun _ h => hw.of_stages h

end

/-- `w'` has the files, the rows and the journals of `w`. -/
structure Beside (w w' : World γ) : Prop where
  db : w'.db = w.db
  runtime : w'.runtime = w.runtime
  stages : ∀ m packages, w.marker m = some (.complete packages) ∨
    w'.marker m = some (.complete packages) → w'.stages m = w.stages m

section

variable {w₀ ws w w' : World γ} {n m : String} {goal : Slot → Option γ} {call : Call}
  {packages : List JournalEntry} {entries : List (Id × String)} {tx : Database} {t : Target}
  {inst : Installer γ} {names : List String}

theorem Beside.trans {w'' : World γ} (h : Beside w w') (h' : Beside w' w'') : Beside w w'' := by
  refine ⟨h'.db.trans h.db, h'.runtime.trans h.runtime, fun m ps hm => ?_⟩
  have hmiddle : w'.marker m = some (.complete ps) := by
    obtain hm | hm := hm
    · rw [marker_of_stages (h.stages m ps (.inl hm))]
      exact hm
    · rw [← marker_of_stages (h'.stages m ps (.inr hm))]
      exact hm
  exact (h'.stages m ps (.inl hmiddle)).trans (h.stages m ps (.inr hmiddle))

theorem Recoverable.beside (h : Recoverable goal w) (hb : Beside w w') : Recoverable goal w' := by
  have hback {m : String} {ps : List JournalEntry} (hu : Uncommitted w' m ps) :
      Uncommitted w m ps := by
    have hstage := hb.stages m ps (.inr hu.1)
    rw [Uncommitted, ← marker_of_stages hstage, ← hb.db]
    exact hu
  refine ⟨fun m ps hu t ht hbackup => ?_, fun m ps hu t ht ha => ?_, fun slot => ?_⟩
  · rw [backup_of_stages (hb.stages m ps (.inr hu.1))] at hbackup
    exact h.backups m ps (hback hu) t ht hbackup
  · have hstage := hb.stages m ps (.inr hu.1)
    rw [backup_of_stages hstage]
    exact h.undo m ps (hback hu) t ht ((acts_of_stages hstage).mp ha)
  · rw [hb.runtime]
    obtain hfile | ⟨m, ps, t, hu, ht, hslot, ha⟩ := h.files slot
    · exact .inl hfile
    · have hstage := hb.stages m ps (.inl hu.1)
      refine .inr ⟨m, ps, t, ?_, ht, hslot, (acts_of_stages hstage).mpr ha⟩
      rw [Uncommitted, marker_of_stages hstage, hb.db]
      exact hu

theorem Cleared.beside (h : Cleared w names) (hb : Beside w w') : Cleared w' names := by
  intro m ps hm hnamed t ht ha
  have hstage := hb.stages m ps (.inr hm)
  rw [marker_of_stages hstage] at hm
  exact h m ps hm hnamed t ht ((acts_of_stages hstage).mp ha)

theorem beside_opened (hp : Placed w.db.registry) (h : Opened w w') : Beside w w' := by
  refine ⟨?_, h.runtime, fun m _ _ => by rw [h.stages]⟩
  have hregistry := migrateRegistration_eq hp h.registry
  have hreleases := h.releases
  cases hdb : w'.db
  cases hdb' : w.db
  rw [hdb, hdb'] at hregistry hreleases
  cases hregistry
  cases hreleases
  rfl

theorem beside_of_none (hn : ∀ ps, w.marker n ≠ some (.complete ps))
    (hn' : ∀ ps, w'.marker n ≠ some (.complete ps)) (hdb : w'.db = w.db)
    (hruntime : w'.runtime = w.runtime) (hstages : ∀ m, m ≠ n → w'.stages m = w.stages m) :
    Beside w w' := by
  refine ⟨hdb, hruntime, fun m ps hm => hstages m ?_⟩
  rintro rfl
  obtain hm | hm := hm
  · exact hn ps hm
  · exact hn' ps hm

theorem beside_quiet (hfree : w.stages n = none) (h : Quiet w n w') : Beside w w' := by
  refine beside_of_none (n := n) ?_ ?_ h.db h.runtime h.stages
  · simp [World.marker, hfree]
  · simp [h.marker]

theorem beside_before (hp : Placed w.db.registry) (h : Before w n w') : Beside w w' := by
  cases h with
  | unopened h =>
      subst h
      exact ⟨rfl, rfl, fun _ _ _ => rfl⟩
  | opened h => exact beside_opened hp h
  | staging w₁ ho hfree hq => exact (beside_opened hp ho).trans (beside_quiet hfree hq)

theorem beside_plan (hp : Placed w.db.registry) (h : Plan inst w n call ws entries tx) :
    Beside w ws := by
  obtain ⟨w₁, ho, hfree, hq⟩ := h.opened
  exact (beside_opened hp ho).trans (beside_quiet hfree hq)

theorem beside_untouched (hn : ws.marker n = none) (h : Untouched ws n packages w) : Beside ws w :=
  beside_of_none (by simp [hn]) h.marker h.db h.runtime h.frame.stages

theorem exists_entry_of_target (ht : t ∈ targets packages) : ∃ e ∈ packages, e.id = t.id := by
  obtain ⟨e, he, ht⟩ := List.mem_flatMap.mp ht
  obtain ⟨x, -, rfl⟩ := List.mem_map.mp ht
  exact ⟨e, he, rfl⟩

theorem Cleared.not_acts (h : Cleared w names) (hm : w.marker m = some (.complete packages))
    (ht : t ∈ targets packages) (hslot : t.slot.name ∈ names) : ¬Acts w m t := by
  obtain ⟨e, he, hid⟩ := exists_entry_of_target ht
  refine h m packages hm ⟨e, he, ?_⟩ t ht
  rw [hid]
  exact hslot

/-- The files of the packages in question are in place. -/
theorem runtime_of_cleared (h : Recoverable goal w) (hc : Cleared w names) {slot : Slot}
    (hslot : slot.name ∈ names) : w.runtime slot = goal slot := by
  obtain hfile | ⟨m, ps, t, hu, ht, rfl, ha⟩ := h.files slot
  · exact hfile
  · exact absurd ha (hc.not_acts hu.1 ht hslot)

theorem slot_name_of_journal (ht : t ∈ targets (journal ws n tx entries)) :
    t.slot.name ∈ namesOf entries := by
  obtain ⟨e, he, kind, rfl⟩ := mem_targets_journal.mp ht
  exact List.mem_map_of_mem he

/-- Before its commit a transaction can be undone beside the journals that are left over. -/
theorem switching_recoverable (h : Recoverable goal ws) (hn : ws.marker n = none)
    (hc : Cleared ws (namesOf entries)) (hfacts : committed ws.db (journal ws n tx entries) = false)
    (hs : Switching ws n (journal ws n tx entries) w) : Recoverable goal w := by
  have hthis : Uncommitted w n (journal ws n tx entries) := ⟨hs.marker, by rw [hs.db, hfacts]⟩
  have hother {m : String} {ps : List JournalEntry} (hm : m ≠ n) :
      Uncommitted w m ps ↔ Uncommitted ws m ps := by
    rw [Uncommitted, Uncommitted, marker_of_stages (hs.frame.stages m hm), hs.db]
  have hsame {ps : List JournalEntry} (hu : Uncommitted w n ps) :
      ps = journal ws n tx entries := by
    have hps := hu.1.symm.trans hs.marker
    simpa using hps
  have hgoal {t : Target} (ht : t ∈ targets (journal ws n tx entries)) :
      ws.runtime t.slot = goal t.slot := runtime_of_cleared h hc (slot_name_of_journal ht)
  refine ⟨fun m ps hu t ht hb => ?_, fun m ps hu t ht ha => ?_, fun slot => ?_⟩
  · by_cases hm : m = n
    · subst hm
      rw [hsame hu] at ht
      exact (hs.restores t ht).backup hb
    · rw [backup_of_stages (hs.frame.stages m hm)] at hb
      exact h.backups m ps ((hother hm).mp hu) t ht hb
  · by_cases hm : m = n
    · subst hm
      rw [hsame hu] at ht
      exact ((hs.restores t ht).backup_eq ha).trans (hgoal ht)
    · have hstage := hs.frame.stages m hm
      rw [backup_of_stages hstage]
      exact h.undo m ps ((hother hm).mp hu) t ht ((acts_of_stages hstage).mp ha)
  · by_cases hslot : ∃ t ∈ targets (journal ws n tx entries), t.slot = slot
    · obtain ⟨t, ht, rfl⟩ := hslot
      by_cases ha : Acts w n t
      · exact .inr ⟨n, _, t, hthis, ht, rfl, ha⟩
      · have hlive := (hs.restores t ht).live_eq (Bool.not_eq_true _ ▸ ha)
        exact .inl (hlive.trans (hgoal ht))
    · have hruntime := hs.frame.runtime slot fun t ht heq => hslot ⟨t, ht, heq⟩
      obtain hfile | ⟨m, ps, t, hu, ht, hts, ha⟩ := h.files slot
      · exact .inl (hruntime.trans hfile)
      · have hm : m ≠ n := by
          rintro rfl
          rw [Uncommitted, hn] at hu
          cases hu.1
        exact .inr ⟨m, ps, t, (hother hm).mpr hu, ht, hts,
          (acts_of_stages (hs.frame.stages m hm)).mpr ha⟩

theorem committed_congr {db db' : Database}
    (h : ∀ e ∈ packages, db'.registry.entry e.id.name = db.registry.entry e.id.name) :
    committed db' packages = committed db packages := by
  rw [committed, committed, Bool.eq_iff_iff, List.all_eq_true, List.all_eq_true]
  refine forall₂_congr fun e he => ?_
  rw [matchesFacts, matchesFacts, registrationFacts, registrationFactsV3, Entry.factsWith_eq,
    Entry.factsWith_eq, Entry.factsWith_eq, Entry.factsWith_eq, h e he]

theorem committed_journal_tx : committed tx (journal ws n tx entries) = true := by
  rw [committed, List.all_eq_true]
  intro e he
  obtain ⟨x, -, rfl⟩ := List.mem_map.mp he
  simp [journalEntry, matchesFacts]

/-- After its commit the transaction's own journal is no obstacle, and the journals of its packages
that are left over are idle. -/
theorem done_recoverable (h : Recoverable (filesOf inst ws.db.releases) ws) (hn : ws.marker n = none)
    (hl : Linked ws.db) (htx : Transaction inst ws n call entries tx)
    (hc : Cleared ws (namesOf entries)) (hd : Done ws n tx (journal ws n tx entries) w) :
    Recoverable (filesOf inst tx.releases) w := by
  have hne {m : String} {ps : List JournalEntry} (hu : Uncommitted w m ps) : m ≠ n := by
    rintro rfl
    obtain hnone | ⟨hmarker, -⟩ := hd.marker
    · rw [Uncommitted, hnone] at hu
      cases hu.1
    · have hps : ps = journal ws m tx entries := by simpa using hu.1.symm.trans hmarker
      have hcommitted := hu.2
      rw [hps, hd.db, committed_journal_tx] at hcommitted
      cases hcommitted
  have hmarker {m : String} (hm : m ≠ n) : w.marker m = ws.marker m :=
    marker_of_stages (hd.frame.stages m hm)
  have hback {m : String} {ps : List JournalEntry} {t : Target} (hu : Uncommitted w m ps)
      (ht : t ∈ targets ps) (ha : Acts w m t) :
      Uncommitted ws m ps ∧ ∀ e ∈ ps, e.id.name ∉ namesOf entries := by
    have hm := hne hu
    have hps : ws.marker m = some (.complete ps) := (hmarker hm).symm.trans hu.1
    have hunnamed (e : JournalEntry) (he : e ∈ ps) : e.id.name ∉ namesOf entries := fun hin =>
      hc m ps hps ⟨e, he, hin⟩ t ht ((acts_of_stages (hd.frame.stages m hm)).mp ha)
    refine ⟨⟨hps, ?_⟩, hunnamed⟩
    rw [← committed_congr fun e he => htx.entry_other (hunnamed e he), ← hd.db]
    exact hu.2
  have hgoal {slot : Slot} (hslot : slot.name ∉ namesOf entries) :
      filesOf inst tx.releases slot = filesOf inst ws.db.releases slot :=
    filesOf_congr (htx.releases_other hslot)
  have hslot {ps : List JournalEntry} {t : Target} (ht : t ∈ targets ps)
      (hunnamed : ∀ e ∈ ps, e.id.name ∉ namesOf entries) : t.slot.name ∉ namesOf entries := by
    obtain ⟨e, he, hid⟩ := exists_entry_of_target ht
    have hname := hunnamed e he
    rw [hid] at hname
    exact hname
  refine ⟨fun m ps hu t ht hb => ?_, fun m ps hu t ht ha => ?_, fun slot => ?_⟩
  · have hws := (hback hu ht (Swap.acts_of_backup hb)).1
    rw [backup_of_stages (hd.frame.stages m (hne hu))] at hb
    exact h.backups m ps hws t ht hb
  · obtain ⟨hws, hunnamed⟩ := hback hu ht ha
    have hstage := hd.frame.stages m (hne hu)
    rw [backup_of_stages hstage, hgoal (hslot ht hunnamed)]
    exact h.undo m ps hws t ht ((acts_of_stages hstage).mp ha)
  · by_cases hin : slot.name ∈ namesOf entries
    · refine .inl ?_
      by_cases hplace : ∃ e ∈ entries, ∃ kind, slotOf e.1 kind = slot
      · obtain ⟨e, he, kind, rfl⟩ := hplace
        have hlive := hd.runtime _ (mem_targets_journal.mpr ⟨e, he, kind, rfl⟩)
        exact hlive.trans (htx.candidate he kind)
      · have hruntime : w.runtime slot = ws.runtime slot := by
          refine hd.frame.runtime slot fun t ht heq => hplace ?_
          obtain ⟨e, he, kind, rfl⟩ := mem_targets_journal.mp ht
          exact ⟨e, he, kind, heq⟩
        obtain ⟨e, he, hname⟩ := List.mem_map.mp hin
        obtain ⟨hbefore, hafter⟩ := htx.files_none hl he hname.symm fun kind heq =>
          hplace ⟨e, he, kind, heq⟩
        rw [hruntime, runtime_of_cleared h hc hin, hbefore, hafter]
    · have hruntime : w.runtime slot = ws.runtime slot := by
        refine hd.frame.runtime slot fun t ht heq => hin ?_
        rw [← heq]
        exact slot_name_of_journal ht
      rw [hruntime, hgoal hin]
      obtain hfile | ⟨m, ps, t, hu, ht, rfl, ha⟩ := h.files slot
      · exact .inl hfile
      · have hm : m ≠ n := by
          rintro rfl
          rw [Uncommitted, hn] at hu
          cases hu.1
        have hunnamed (e : JournalEntry) (he : e ∈ ps) : e.id.name ∉ namesOf entries := fun hin' =>
          hc m ps hu.1 ⟨e, he, hin'⟩ t ht ha
        refine .inr ⟨m, ps, t, ⟨(hmarker hm).trans hu.1, ?_⟩, ht, rfl,
          (acts_of_stages (hd.frame.stages m hm)).mpr ha⟩
        rw [hd.db, committed_congr fun e he => htx.entry_other (hunnamed e he)]
        exact hu.2

end

/-- What a run keeps between its calls and restarts. -/
structure Sane (inst : Installer γ) (w : World γ) : Prop where
  linked : Linked w.db
  placed : Placed w.db.registry
  recoverable : Recoverable (filesOf inst w.db.releases) w

def operation (w : World γ) : Call → CommitDiscriminator.Operation
  | .install items now => .install w.sandbox items now
  | .remove id => .remove id

/-- The call can get a transaction for these packages ready. -/
def Prepares (inst : Installer γ) (w : World γ) (call : Call) (ids : List Id) : Prop :=
  ∃ r, CommitDiscriminator.prepared inst.normalizeName w.db.registry (operation w call) = .ok (ids, r)

/-- The call repeats no installation of the same second, and each journal that is left over for one
of its packages is idle. -/
def Undisturbed (inst : Installer γ) (w : World γ) (call : Call) : Prop :=
  ∀ ids, Prepares inst w call ids →
    ¬CommitDiscriminator.Repeated w.db.registry (operation w call) ∧ Cleared w (ids.map Id.name)

/-- Where a call leaves the world, whether it returns, fails or is stopped. -/
def Landed (inst : Installer γ) (w₀ : World γ) (n : String) (call : Call) (w : World γ) : Prop :=
  ∃ w' sandbox, Stopped inst w₀ n call w' ∧ w = { w' with sandbox := sandbox }

section

variable {inst : Installer γ} {w₀ ws w : World γ} {n m : String} {call : Call}
  {entries : List (Id × String)} {tx : Database}

theorem transaction_prepared (h : Transaction inst w n call entries tx) :
    CommitDiscriminator.prepared inst.normalizeName w.db.registry (operation w call) =
      .ok (entries.map Prod.fst, tx.registry) := by
  cases h with
  | install haccept htx _ =>
      refine bind_eq_ok.mpr ⟨_, haccept, bind_eq_ok.mpr ⟨_, htx, ?_⟩⟩
      simp [entriesOf, Function.comp_def]
  | remove _ hregistered htx _ =>
      refine bind_eq_ok.mpr ⟨(), failIf_eq_ok.mpr ?_, bind_eq_ok.mpr ⟨_, htx, rfl⟩⟩
      exact Option.ne_none_iff_isSome.mpr hregistered

/-- The journal of a transaction that is not committed is taken as uncommitted. -/
theorem transaction_uncommitted (h : Transaction inst w n call entries tx)
    (hr : ¬CommitDiscriminator.Repeated w.db.registry (operation w call)) :
    committed w.db (journal w n tx entries) = false := by
  have hsame : committed w.db (journal w n tx entries) =
      CommitDiscriminator.committed w.db.registry tx.registry (entries.map Prod.fst) := by
    rw [committed, CommitDiscriminator.committed, journal, List.all_map, List.all_map]
    rfl
  rw [hsame]
  cases h with
  | install haccept htx _ =>
      obtain ⟨hexamine, hsave⟩ := examineAll_of_installTx htx
      have hsound := (CommitDiscriminator.install_sound_iff hexamine hsave).mpr hr
      simpa [entriesOf, Function.comp_def] using hsound.2
  | remove _ hregistered htx _ =>
      obtain ⟨p, hp⟩ := Option.isSome_iff_exists.mp hregistered
      exact (CommitDiscriminator.remove_sound hp htx).2

theorem Sane.beside (h : Sane inst w₀) (hb : Beside w₀ w) : Sane inst w := by
  refine ⟨hb.db ▸ h.linked, hb.db ▸ h.placed, ?_⟩
  rw [hb.db]
  exact Recoverable.beside h.recoverable hb

theorem plan_opened (hp : Placed w₀.db.registry) (h : Plan inst w₀ n call ws entries tx) :
    ws.db = w₀.db ∧ ws.sandbox = w₀.sandbox := by
  obtain ⟨w₁, ho, -, hq⟩ := h.opened
  exact ⟨hq.db.trans (beside_opened hp ho).db, hq.sandbox.trans ho.sandbox⟩

theorem operation_congr (hsandbox : ws.sandbox = w₀.sandbox) : operation ws call = operation w₀ call := by
  cases call with
  | install items now => rw [operation, operation, hsandbox]
  | remove id => rfl

/-- Wherever a call is stopped, a recovery brings about what the registry asks for. -/
theorem stopped_sane (h : Sane inst w₀) (hu : Undisturbed inst w₀ call)
    (hs : Stopped inst w₀ n call w) : Sane inst w := by
  obtain hbefore | ⟨ws, entries, tx, hplan, houtcome⟩ := hs
  · exact h.beside (beside_before h.placed hbefore)
  · have hb := beside_plan h.placed hplan
    obtain ⟨hdb, hsandbox⟩ := plan_opened h.placed hplan
    have hws := h.beside hb
    obtain ⟨hr, hc⟩ := hu (entries.map Prod.fst) ⟨tx.registry, by
      rw [← hdb, ← operation_congr hsandbox]
      exact transaction_prepared hplan.transaction⟩
    have hc : Cleared ws (namesOf entries) := by
      rw [List.map_map] at hc
      exact hc.beside hb
    rw [← hdb, ← operation_congr hsandbox] at hr
    cases houtcome with
    | untouched hout => exact hws.beside (beside_untouched hplan.ready.marker hout)
    | switching hout =>
        refine ⟨hout.db ▸ hws.linked, hout.db ▸ hws.placed, ?_⟩
        rw [hout.db]
        exact switching_recoverable hws.recoverable hplan.ready.marker hc
          (transaction_uncommitted hplan.transaction hr) hout
    | done hout =>
        refine ⟨hout.db ▸ hplan.transaction.linked hws.linked,
          hout.db ▸ hplan.transaction.placed hws.placed, ?_⟩
        rw [hout.db]
        exact done_recoverable hws.recoverable hplan.ready.marker hws.linked hplan.transaction hc hout

theorem before_others (h : Before w₀ n w) (hm : m ≠ n) : w.stages m = w₀.stages m := by
  cases h with
  | unopened h => rw [h]
  | opened h => rw [h.stages]
  | staging w₁ ho _ hq => rw [hq.stages m hm, ho.stages]

theorem plan_others (h : Plan inst w₀ n call ws entries tx) (hm : m ≠ n) :
    ws.stages m = w₀.stages m := by
  obtain ⟨w₁, ho, -, hq⟩ := h.opened
  rw [hq.stages m hm, ho.stages]

/-- A call has to do with its own stage only. -/
theorem stopped_others (hs : Stopped inst w₀ n call w) (hm : m ≠ n) : w.stages m = w₀.stages m := by
  obtain h | ⟨ws, entries, tx, hplan, houtcome⟩ := hs
  · exact before_others h hm
  · rw [houtcome.frame.stages m hm, plan_others hplan hm]

/-- A call leaves the stages with a journal alone. -/
theorem stopped_stages (hs : Stopped inst w₀ n call w) (hm : w₀.marker m ≠ none) :
    w.stages m = w₀.stages m := by
  by_cases hmn : m = n
  · subst hmn
    have hstage : w₀.stages m ≠ none := fun hnone => hm (by simp [World.marker, hnone])
    obtain h | ⟨ws, entries, tx, hplan, -⟩ := hs
    · cases h with
      | unopened h => rw [h]
      | opened h => rw [h.stages]
      | staging w₁ ho hfree _ => exact absurd (ho.stages ▸ hfree) hstage
    · obtain ⟨w₁, ho, hfree, -⟩ := hplan.opened
      exact absurd (ho.stages ▸ hfree) hstage
  · exact stopped_others hs hmn

theorem perform_landed : Triple (fun w => w = w₀) (perform inst n call)
    (fun _ => Landed inst w₀ n call) (fun _ => Landed inst w₀ n call) (Landed inst w₀ n call) := by
  have hstopped (w : World γ) (h : Stopped inst w₀ n call w) : Landed inst w₀ n call w :=
    ⟨w, w.sandbox, h, rfl⟩
  cases call with
  | install items now =>
      refine installPackages_triple.conseq (fun _ h => h) ?_ (fun _ w h => hstopped w h.stopped)
        hstopped
      rintro _ w ⟨ws, changed, r, wd, hplan, -, hdone, rfl⟩
      exact ⟨wd, _, .inr ⟨ws, _, _, hplan, .done hdone⟩, rfl⟩
  | remove id =>
      refine removePackage_triple.conseq (fun _ h => h) ?_ (fun _ w h => hstopped w h.stopped)
        hstopped
      rintro _ w (⟨ho, -⟩ | ⟨ws, entries, tx, hplan, hdone⟩)
      · exact hstopped w (.inl (.opened ho))
      · exact hstopped w (.inr ⟨ws, entries, tx, hplan, .done hdone⟩)

theorem beside_sandbox (sandbox : Sandbox) : Beside w { w with sandbox := sandbox } :=
  ⟨rfl, rfl, fun _ _ _ => rfl⟩

theorem landed_sane (h : Sane inst w₀) (hu : Undisturbed inst w₀ call)
    (hw : Landed inst w₀ n call w) : Sane inst w := by
  obtain ⟨w', sandbox, hs, rfl⟩ := hw
  exact (stopped_sane h hu hs).beside (beside_sandbox sandbox)

theorem landed_stages (hw : Landed inst w₀ n call w) (hm : w₀.marker m ≠ none) :
    w.stages m = w₀.stages m := by
  obtain ⟨w', sandbox, hs, rfl⟩ := hw
  have hstages : w'.stages m = w₀.stages m := stopped_stages hs hm
  exact hstages

end

inductive Event (γ : Type)
  | call (call : Call) (n : String) (fs : List (Fault (Leftover γ)))
  | restart (order : List String) (sandbox : Sandbox) (fs : List (Fault (Leftover γ)))

/-- The world with the stages whose journal is older than a transaction for one of its packages. -/
structure History (γ : Type) where
  world : World γ
  superseded : String → Prop

/-- The journal of the stage names a package of the transaction that the call can get ready. -/
def Supersedes (inst : Installer γ) (w : World γ) (call : Call) (m : String) : Prop :=
  ∃ ids packages, Prepares inst w call ids ∧ w.marker m = some (.complete packages) ∧
    ∃ e ∈ packages, e.id.name ∈ ids.map Id.name

def restarted (inst : Installer γ) (order : List String) (sandbox : Sandbox)
    (fs : List (Fault (Leftover γ))) (w : World γ) :
    Exit Failure Unit × World γ × List (Fault (Leftover γ)) :=
  recoverPackageFiles inst.normalizeName inst.size order fs { w with sandbox := sandbox }

def step (inst : Installer γ) (h : History γ) : Event γ → Option (History γ)
  | .call call n fs => some ⟨(perform inst n call fs h.world).2.1, fun m =>
      (h.superseded m ∨ Supersedes inst h.world call m) ∧ h.world.marker m ≠ none⟩
  | .restart order sandbox fs => some ⟨(restarted inst order sandbox fs h.world).2.1, h.superseded⟩

/-- The condition under which the journals that are left over do no harm. -/
def Clear (inst : Installer γ) (h : History γ) : Event γ → Prop
  | .call call _ _ => Undisturbed inst h.world call
  | .restart _ _ _ => True

/-- A new identity. -/
structure Fresh (w : World γ) : Prop where
  registry : w.db.registry = .empty
  releases : w.db.releases = fun _ => none
  runtime : w.runtime = fun _ => none
  stages : w.stages = fun _ => none

def born (w : World γ) : History γ := ⟨w, fun _ => False⟩

/-- Each registered package has exactly the files of its release, and there are no others. -/
structure Faithful (inst : Installer γ) (w : World γ) : Prop where
  registered : ∀ p ∈ w.db.registry.packages, ∃ rel, Registers p rel ∧ ∀ kind,
    w.runtime (slotOf p.id kind) = if rel.has kind = true then some (inst.contents rel kind) else none
  others : ∀ slot, w.runtime slot ≠ none →
    ∃ p ∈ w.db.registry.packages, ∃ kind, slotOf p.id kind = slot

section

variable {inst : Installer γ} {w₀ w : World γ} {h h' : History γ} {e : Event γ} {es : List (Event γ)}
  {order : List String} {sandbox : Sandbox} {fs gs : List (Fault (Leftover γ))}

theorem fresh_sane (hw : Fresh w) : Sane inst w := by
  have hnone (m : String) : w.marker m = none := by simp [World.marker, hw.stages]
  have hfiles (slot : Slot) : filesOf inst w.db.releases slot = none :=
    filesOf_eq_none fun rel hrel => absurd hrel (by simp [hw.releases])
  refine ⟨⟨fun name p hp => ?_, fun name _ => by rw [hw.releases]⟩, fun o ho => ?_,
    ⟨fun m ps hu => ?_, fun m ps hu => ?_, fun slot => .inl ?_⟩⟩
  · rw [hw.registry] at hp
    exact absurd (package_eq_some.mp hp).1 List.not_mem_nil
  · rw [hw.registry] at ho
    exact absurd ho List.not_mem_nil
  · rw [Uncommitted, hnone] at hu
    cases hu.1
  · rw [Uncommitted, hnone] at hu
    cases hu.1
  · rw [hw.runtime, hfiles]

/-- The invariant of a run. -/
structure Harmless (inst : Installer γ) (h : History γ) : Prop extends Sane inst h.world where
  idle : ∀ m, h.superseded m → Idle h.world m

theorem supersedes_idle {call : Call} {m : String} (hu : Undisturbed inst w call)
    (hs : Supersedes inst w call m) : Idle w m := by
  obtain ⟨ids, packages, hprepares, hmarker, hnamed⟩ := hs
  intro ps hps
  have hsame : ps = packages := by simpa using hps.symm.trans hmarker
  exact (hu ids hprepares).2 m ps hps (hsame ▸ hnamed)

theorem step_harmless (hi : Harmless inst h) (hc : Clear inst h e) (hs : step inst h e = some h') :
    Harmless inst h' := by
  cases e with
  | call call n fs =>
      cases hs
      have hlanded : Landed inst h.world n call (perform inst n call fs h.world).2.1 :=
        perform_landed.state fs rfl
      refine ⟨landed_sane hi.toSane hc hlanded, fun m hm => ?_⟩
      refine Idle.of_stages ?_ (landed_stages hlanded hm.2)
      obtain hold | hnew := hm.1
      · exact hi.idle m hold
      · exact supersedes_idle hc hnew
  | restart order sandbox fs =>
      cases hs
      have hsane := hi.toSane.beside (beside_sandbox sandbox)
      have hresumable : Resumable (filesOf inst h.world.db.releases)
          { h.world with sandbox := sandbox } (restarted inst order sandbox fs h.world).2.1 :=
        ((recoverPackageFiles_triple hsane.recoverable).post fun _ _ hr => hr.1).state fs rfl
      have hdb := hresumable.2.db
      refine ⟨⟨?_, ?_, ?_⟩, fun m hm => ?_⟩
      · rw [hdb]
        exact hi.linked
      · rw [hdb]
        exact hi.placed
      · rw [hdb]
        exact hresumable.1
      · exact recoverPackageFiles_idle.state fs (hi.idle m hm)

theorem sane_faithful (hw : Sane inst w) (hnone : ∀ m, w.marker m = none) : Faithful inst w := by
  have hruntime := hw.recoverable.files_of_none hnone
  refine ⟨fun p hp => ?_, fun slot hslot => ?_⟩
  · obtain ⟨rel, hrel, hregisters⟩ := hw.linked.registered p.name p (package_eq_some.mpr ⟨hp, rfl⟩)
    refine ⟨rel, hregisters, fun kind => ?_⟩
    rw [hruntime, hregisters.id, filesOf_slotOf]
    rw [← hregisters.id]
    exact hrel
  · by_contra hno
    apply hslot
    rw [hruntime]
    refine filesOf_eq_none fun rel hrel kind heq => hno ?_
    cases hp : w.db.registry.package slot.name with
    | none =>
        rw [hw.linked.unregistered _ hp] at hrel
        cases hrel
    | some p =>
        obtain ⟨rel', hrel', hregisters⟩ := hw.linked.registered _ p hp
        rw [hrel] at hrel'
        cases hrel'
        exact ⟨p, (package_eq_some.mp hp).1, kind, hregisters.id ▸ heq⟩

end

/-- In a run in which no call is disturbed, a recovery touches no file for a journal that is older
than a transaction for one of its packages, and when it returns the files are those of the registered
releases. -/
theorem leftover_journals {inst : Installer γ} {w₀ : World γ} {es : List (Event γ)} {h : History γ}
    (hfresh : Fresh w₀) (hrun : Trace (step inst) (Clear inst) (born w₀) es h)
    (order : List String) (sandbox : Sandbox) (fs gs : List (Fault (Leftover γ))) (w : World γ)
    (hreturns : restarted inst order sandbox fs h.world = (.ok (), w, gs)) :
    (∀ m, h.superseded m →
      (recoverStage inst.normalizeName inst.size m gs w).2.1.runtime = w.runtime) ∧
    (Lists order h.world → Faithful inst w) := by
  have hi : Harmless inst h := hrun.invariant (I := Harmless inst)
    ⟨fresh_sane hfresh, fun _ hm => hm.elim⟩ fun _ _ _ => step_harmless
  have hsane := hi.toSane.beside (beside_sandbox sandbox)
  obtain ⟨⟨hrecoverable, hshrinks⟩, hgone⟩ :=
    (recoverPackageFiles_triple hsane.recoverable).result rfl hreturns
  refine ⟨fun m hm => ?_, fun hlists => ?_⟩
  · have hstart : Idle { h.world with sandbox := sandbox } m := hi.idle m hm
    have hidle : Idle w m := recoverPackageFiles_idle.result hstart hreturns
    exact (recoverStage_idle hidle).state gs rfl |>.1
  · have hw : Sane inst w := by
      refine ⟨?_, ?_, ?_⟩
      · rw [hshrinks.db]
        exact hi.linked
      · rw [hshrinks.db]
        exact hi.placed
      · rw [hshrinks.db]
        exact hrecoverable
    refine sane_faithful hw fun m => ?_
    by_cases hm : m ∈ order
    · exact hgone m hm
    · obtain hnone | ⟨hmarker, -⟩ := hshrinks.marker m
      · exact hnone
      · have hstage : h.world.stages m = none :=
          Option.not_isSome_iff_eq_none.mp fun hsome => hm (hlists m hsome)
        rw [hmarker]
        simp [World.marker, hstage]

def sampleInstall (version : String) (now : Int) : Call :=
  .install [sampleItem "base" version []] fun _ => now

/-- One step fails. After the commit of a first installation the 31st step unlinks the journal, and
after that of an upgrade the 32nd one does. -/
def failAt (steps : Nat) : List (Fault (Leftover String)) :=
  List.replicate steps .proceed ++ [.fail ⟨none, true, fun _ => none⟩]

def called (w : World String) (call : Call) (n : String) (fs : List (Fault (Leftover String))) :
    World String :=
  (perform sampleInstaller n call fs w).2.1

theorem called_landed (w : World String) (call : Call) (n : String)
    (fs : List (Fault (Leftover String))) :
    Landed sampleInstaller w n call (called w call n fs) :=
  perform_landed.state fs rfl

/-- The history after one more call. -/
def calledAt (h : History String) (call : Call) (n : String) (fs : List (Fault (Leftover String))) :
    History String :=
  ⟨called h.world call n fs, fun m =>
    (h.superseded m ∨ Supersedes sampleInstaller h.world call m) ∧ h.world.marker m ≠ none⟩

theorem step_calledAt (h : History String) (call : Call) (n : String)
    (fs : List (Fault (Leftover String))) :
    step sampleInstaller h (.call call n fs) = some (calledAt h call n fs) :=
  rfl

theorem fresh_emptyWorld : Fresh emptyWorld := ⟨rfl, rfl, rfl, rfl⟩

theorem undisturbed_emptyWorld (version : String) (now : Int) :
    Undisturbed sampleInstaller emptyWorld (sampleInstall version now) := by
  refine fun ids _ => ⟨fun hr => ?_, fun m ps hm => ?_⟩
  · obtain ⟨hlast, -⟩ | hrepeats := hr.1 _ rfl
    · exact hlast rfl
    · obtain ⟨p, hp, -⟩ := hrepeats.row
      cases hp
  · cases hm

/-- A first installation whose journal is left over. -/
def leftOver : History String :=
  calledAt (born emptyWorld) (sampleInstall "1.0.0" 100) ".pishoo-1" (failAt 31)

theorem calledAt_others {h : History String} {call : Call} {n m : String}
    {fs : List (Fault (Leftover String))} (hm : m ≠ n) :
    (calledAt h call n fs).world.stages m = h.world.stages m := by
  obtain ⟨w', sandbox, hs, hw⟩ := called_landed h.world call n fs
  have hstages : w'.stages m = h.world.stages m := stopped_others hs hm
  change (called h.world call n fs).stages m = _
  rw [hw]
  exact hstages

theorem leftOver_eq : leftOver =
    calledAt (born emptyWorld) (sampleInstall "1.0.0" 100) ".pishoo-1" (failAt 31) :=
  rfl

theorem lists_leftOver : Lists [".pishoo-1"] leftOver.world := by
  intro m hm
  rw [List.mem_singleton]
  by_contra hne
  rw [leftOver_eq, calledAt_others hne] at hm
  cases hm

/-- The restart after a run that has left one stage. -/
def recovery (n : String) (h : History String) :
    Exit Failure Unit × World String × List (Fault (Leftover String)) :=
  restarted sampleInstaller [n] .empty [] h.world

theorem recovery_returns {n : String} {h : History String} (hok : (recovery n h).1 = .ok ()) :
    restarted sampleInstaller [n] .empty [] h.world =
      (.ok (), (recovery n h).2.1, (recovery n h).2.2) :=
  Prod.ext hok rfl

/-- The journal is left over, and the recovery removes it. -/
theorem leftover_journals_run : leftOver.world.marker ".pishoo-1" ≠ none ∧
    Faithful sampleInstaller (recovery ".pishoo-1" leftOver).2.1 := by
  refine ⟨by decide +kernel, ?_⟩
  have hok : (recovery ".pishoo-1" leftOver).1 = .ok () := by decide +kernel
  have hrun : Trace (step sampleInstaller) (Clear sampleInstaller) (born emptyWorld)
      [.call (sampleInstall "1.0.0" 100) ".pishoo-1" (failAt 31)] leftOver :=
    Trace.nil.snoc (undisturbed_emptyWorld "1.0.0" 100) (step_calledAt _ _ _ _)
  exact (leftover_journals fresh_emptyWorld hrun _ _ _ _ _ (recovery_returns hok)).2 lists_leftOver

def installedOnce : History String :=
  calledAt (born emptyWorld) (sampleInstall "1.0.0" 100) ".pishoo-1" []

/-- An upgrade whose journal is left over. -/
def upgradedOnce : History String :=
  calledAt installedOnce (sampleInstall "1.1.0" 200) ".pishoo-2" (failAt 32)

def upgradedTwice : History String := calledAt upgradedOnce (sampleInstall "1.2.0" 300) ".pishoo-3" []

def disturbedRun : List (Event String) :=
  [.call (sampleInstall "1.0.0" 100) ".pishoo-1" [],
    .call (sampleInstall "1.1.0" 200) ".pishoo-2" (failAt 32),
    .call (sampleInstall "1.2.0" 300) ".pishoo-3" []]

theorem lists_upgradedTwice : Lists [".pishoo-2"] upgradedTwice.world := by
  intro m hm
  rw [List.mem_singleton]
  by_contra hne
  have h1 : upgradedTwice.world.stages ".pishoo-1" = none := by decide +kernel
  have h3 : upgradedTwice.world.stages ".pishoo-3" = none := by decide +kernel
  by_cases hm1 : m = ".pishoo-1"
  · rw [hm1, h1] at hm
    cases hm
  · by_cases hm3 : m = ".pishoo-3"
    · rw [hm3, h3] at hm
      cases hm
    · rw [upgradedTwice, calledAt_others hm3, upgradedOnce, calledAt_others hne, installedOnce,
        calledAt_others hm1] at hm
      cases hm

def namesIn : Marker → List String
  | .torn => []
  | .complete packages => packages.map fun e => e.id.name

theorem supersedes_upgradedOnce :
    Supersedes sampleInstaller upgradedOnce.world (sampleInstall "1.2.0" 300) ".pishoo-2" := by
  have hnames : (CommitDiscriminator.prepared sampleInstaller.normalizeName
      upgradedOnce.world.db.registry (operation upgradedOnce.world (sampleInstall "1.2.0" 300))).map
        (fun out => out.1.map Id.name) = .ok ["base"] := by
    decide +kernel
  have hjournal : (upgradedOnce.world.marker ".pishoo-2").map namesIn = some ["base"] := by
    decide +kernel
  cases hprepared : CommitDiscriminator.prepared sampleInstaller.normalizeName
      upgradedOnce.world.db.registry (operation upgradedOnce.world (sampleInstall "1.2.0" 300)) with
  | error e =>
      rw [hprepared] at hnames
      cases hnames
  | ok out =>
      rw [hprepared] at hnames
      have hids : out.1.map Id.name = ["base"] := Except.ok.inj hnames
      cases hmarker : upgradedOnce.world.marker ".pishoo-2" with
      | none =>
          rw [hmarker] at hjournal
          cases hjournal
      | some marker =>
          rw [hmarker] at hjournal
          cases marker with
          | torn => cases hjournal
          | complete packages =>
              have hpackages : packages.map (fun e => e.id.name) = ["base"] :=
                Option.some.inj hjournal
              have hbase : "base" ∈ packages.map fun e => e.id.name := by
                rw [hpackages]
                exact List.mem_singleton_self _
              obtain ⟨e, he, hname⟩ := List.mem_map.mp hbase
              refine ⟨out.1, packages, ⟨out.2, hprepared⟩, hmarker, e, he, ?_⟩
              rw [hname, hids]
              exact List.mem_singleton_self _

/-- The journal of the first upgrade is committed until the second one changes the facts. Then the
recovery brings back what it has replaced. -/
theorem leftover_disturbs :
    Trace (step sampleInstaller) Free (born emptyWorld) disturbedRun upgradedTwice ∧
      Lists [".pishoo-2"] upgradedTwice.world ∧ upgradedTwice.superseded ".pishoo-2" ∧
      (recovery ".pishoo-2" upgradedTwice).1 = .ok () ∧
      upgradedTwice.world.runtime ⟨.lib, "base"⟩ = some "1.2.0" ∧
      (recovery ".pishoo-2" upgradedTwice).2.1.runtime ⟨.lib, "base"⟩ = some "1.0.0" ∧
      ¬Faithful sampleInstaller (recovery ".pishoo-2" upgradedTwice).2.1 := by
  have hmarker : upgradedOnce.world.marker ".pishoo-2" ≠ none := by decide +kernel
  have hruntime : (recovery ".pishoo-2" upgradedTwice).2.1.runtime ⟨.lib, "base"⟩ = some "1.0.0" := by
    decide +kernel
  refine ⟨((Trace.nil.snoc trivial (step_calledAt _ _ _ _)).snoc trivial
    (step_calledAt _ _ _ _)).snoc trivial (step_calledAt _ _ _ _), lists_upgradedTwice,
      ⟨.inr supersedes_upgradedOnce, hmarker⟩, by decide +kernel, by decide +kernel, hruntime, ?_⟩
  intro hfaithful
  have hrow : (recovery ".pishoo-2" upgradedTwice).2.1.db.registry.packages.map
      (fun p => (p.id, p.version, p.hasLib)) = [(⟨some "alice.example", "base"⟩, "1.2.0", true)] := by
    decide +kernel
  obtain ⟨p, hp, heq⟩ : ∃ p ∈ (recovery ".pishoo-2" upgradedTwice).2.1.db.registry.packages,
      (p.id, p.version, p.hasLib) = ((⟨some "alice.example", "base"⟩ : Id), "1.2.0", true) := by
    refine List.mem_map.mp ?_
    rw [hrow]
    exact List.mem_singleton_self _
  obtain ⟨rel, hregisters, hfiles⟩ := hfaithful.registered p hp
  simp only [Prod.mk.injEq] at heq
  have hlib : rel.has .lib = true := hregisters.hasLib.symm.trans heq.2.2
  have hversion : rel.version = "1.2.0" := hregisters.version.symm.trans heq.2.1
  have hlive := hfiles .lib
  rw [if_pos hlib, heq.1] at hlive
  have hslot : slotOf ⟨some "alice.example", "base"⟩ .lib = ⟨.lib, "base"⟩ := by decide
  rw [hslot, hruntime] at hlive
  have hcontents : "1.0.0" = rel.version := Option.some.inj hlive
  rw [hversion] at hcontents
  revert hcontents
  decide

end Pishoo.LeftoverJournals
