import Mathlib.Data.List.Pairwise
import Pishoo.CommitFiles

namespace Pishoo.PackageFiles

open Result World Prog

variable {γ : Type}

/-- What `commit_packages_files` is called with: a stage without a journal, in which each entry
has a directory without backups. -/
structure Ready (w : World γ) (n : String) (entries : List (Id × String)) : Prop where
  marker : w.marker n = none
  members : ∀ e ∈ entries, ∃ m, w.member n e.2 = some m ∧ ∀ kind, m.old kind = none
  names : (entries.map (fun e => e.1.name)).Nodup
  directories : (entries.map Prod.snd).Nodup

def journal (w : World γ) (n : String) (tx : Database) (entries : List (Id × String)) :
    List JournalEntry :=
  entries.map (journalEntry w n tx)

def targetOf (w : World γ) (n : String) (e : Id × String) (kind : Kind) : Target :=
  ⟨e.1, e.2, kind, (w.runtime (slotOf e.1 kind)).isSome, (w.candidate n e.2 kind).isSome⟩

section

variable {w₀ w w' : World γ} {n : String} {tx : Database} {entries : List (Id × String)}
  {packages : List JournalEntry} {t : Target} {f : Swap γ → Swap γ}

theorem targets_journal : targets (journal w₀ n tx entries) =
    entries.flatMap (fun e => [Kind.lib, Kind.app].map (targetOf w₀ n e)) := by
  simp [targets, journal, List.flatMap_map, journalEntry, targetOf]

theorem mem_targets_journal : t ∈ targets (journal w₀ n tx entries) ↔
    ∃ e ∈ entries, ∃ kind, t = targetOf w₀ n e kind := by
  rw [targets_journal, List.mem_flatMap]
  refine exists_congr fun e => and_congr_right fun _ => ?_
  rw [List.mem_map]
  constructor
  · rintro ⟨kind, -, rfl⟩
    exact ⟨kind, rfl⟩
  · rintro ⟨kind, rfl⟩
    exact ⟨kind, by cases kind <;> simp, rfl⟩

theorem targets_separate (h : Ready w₀ n entries) :
    (targets (journal w₀ n tx entries)).Pairwise Separate := by
  rw [targets_journal, List.pairwise_flatMap]
  constructor
  · intro e _
    have hslot : slotOf e.1 .lib ≠ slotOf e.1 .app := fun heq =>
      rootOf_ne (congrArg Slot.root heq)
    simp [Separate, targetOf, Target.slot, hslot]
  · have hnames : entries.Pairwise fun e e' => e.1.name ≠ e'.1.name := List.pairwise_map.mp h.names
    have hdirs : entries.Pairwise fun e e' => e.2 ≠ e'.2 := List.pairwise_map.mp h.directories
    refine (hnames.and hdirs).imp fun {e e'} hne => ?_
    simp only [List.mem_map]
    rintro _ ⟨kind, -, rfl⟩ _ ⟨kind', -, rfl⟩
    exact ⟨fun hslot => hne.1 (congrArg Slot.name hslot), fun hd => hne.2 hd.1⟩

theorem flags_of_mem (ht : t ∈ targets (journal w₀ n tx entries)) :
    t.old = (w₀.swap n t).live.isSome ∧ t.new = (w₀.swap n t).candidate.isSome := by
  obtain ⟨e, -, kind, rfl⟩ := mem_targets_journal.mp ht
  exact ⟨rfl, rfl⟩

theorem Ready.backup_eq (h : Ready w₀ n entries) (ht : t ∈ targets (journal w₀ n tx entries)) :
    (w₀.swap n t).backup = none := by
  obtain ⟨e, he, kind, rfl⟩ := mem_targets_journal.mp ht
  obtain ⟨m, hm, hold⟩ := h.members e he
  have : w₀.backup n e.2 kind = none := by simp [backup, hm, hold]
  exact this

theorem Ready.member_isSome (h : Ready w₀ n entries)
    (ht : t ∈ targets (journal w₀ n tx entries)) : (w₀.member n t.directory).isSome = true := by
  obtain ⟨e, he, kind, rfl⟩ := mem_targets_journal.mp ht
  obtain ⟨m, hm, -⟩ := h.members e he
  simp [targetOf, hm]

/-- What a transaction with its stage `n` leaves alone. -/
structure Frame (w₀ : World γ) (n : String) (packages : List JournalEntry) (w : World γ) : Prop where
  sandbox : w.sandbox = w₀.sandbox
  stages : ∀ m, m ≠ n → w.stages m = w₀.stages m
  runtime : ∀ slot, (∀ t ∈ targets packages, t.slot ≠ slot) → w.runtime slot = w₀.runtime slot

def Rooted (packages : List JournalEntry) (w : World γ) : Prop :=
  ∀ t ∈ targets packages, w.roots (rootOf t.id t.kind) = true

def Staged (n : String) (packages : List JournalEntry) (w : World γ) : Prop :=
  ∀ t ∈ targets packages, (w.member n t.directory).isSome = true

/-- Without a journal nothing has been touched. -/
structure Untouched (w₀ : World γ) (n : String) (packages : List JournalEntry) (w : World γ) :
    Prop where
  frame : Frame w₀ n packages w
  db : w.db = w₀.db
  marker : ∀ ps, w.marker n ≠ some (.complete ps)
  runtime : w.runtime = w₀.runtime

/-- With the journal, and before the commit, each replacement can be undone. -/
structure Switching (w₀ : World γ) (n : String) (packages : List JournalEntry) (w : World γ) :
    Prop where
  frame : Frame w₀ n packages w
  db : w.db = w₀.db
  marker : w.marker n = some (.complete packages)
  roots : Rooted packages w
  restores : ∀ t ∈ targets packages, (w.swap n t).Restores t.old t.new (w₀.runtime t.slot)

/-- After the commit all runtime files are the new ones. -/
structure Done (w₀ : World γ) (n : String) (tx : Database) (packages : List JournalEntry)
    (w : World γ) : Prop where
  frame : Frame w₀ n packages w
  db : w.db = tx
  marker : w.marker n = none ∨
    w.marker n = some (.complete packages) ∧ Rooted packages w ∧ Staged n packages w
  runtime : ∀ t ∈ targets packages, w.runtime t.slot = (w₀.swap n t).candidate

inductive Outcome (w₀ : World γ) (n : String) (tx : Database) (packages : List JournalEntry)
    (w : World γ) : Prop
  | untouched (h : Untouched w₀ n packages w)
  | switching (h : Switching w₀ n packages w)
  | done (h : Done w₀ n tx packages w)

/-- The old files are back, or were never moved. -/
inductive Old (w₀ : World γ) (n : String) (packages : List JournalEntry) (w : World γ) : Prop
  | untouched (h : Untouched w₀ n packages w)
  | switching (h : Switching w₀ n packages w) (hruntime : w.runtime = w₀.runtime)

theorem Old.outcome (h : Old w₀ n packages w) : Outcome w₀ n tx packages w := by
  cases h with
  | untouched h => exact .untouched h
  | switching h _ => exact .switching h

theorem Frame.moved (h : Frame w₀ n packages w) (ht : t ∈ targets packages)
    (hm : Moved n t f w w') : Frame w₀ n packages w' where
  sandbox := hm.sandbox.trans h.sandbox
  stages m hne := (hm.stages m hne).trans (h.stages m hne)
  runtime slot hs := (hm.runtime slot (hs t ht).symm).trans (h.runtime slot hs)

theorem Rooted.moved (h : Rooted packages w) (hm : Moved n t f w w') : Rooted packages w' := by
  intro t' ht'
  rw [hm.roots]
  exact h t' ht'

theorem Staged.moved (h : Staged n packages w) (hm : Moved n t f w w') : Staged n packages w' := by
  intro t' ht'
  rw [hm.members]
  exact h t' ht'

/-- The switch has done the targets `before` and has not begun with `after`. -/
structure Ongoing (w₀ : World γ) (n : String) (packages : List JournalEntry)
    (before after : List Target) (w : World γ) : Prop where
  frame : Frame w₀ n packages w
  db : w.db = w₀.db
  marker : w.marker n = some (.complete packages)
  roots : Rooted packages w
  staged : Staged n packages w
  switched : ∀ t ∈ before, w.swap n t = (w₀.swap n t).moveOut.moveIn
  waiting : ∀ t ∈ after, w.swap n t = w₀.swap n t

theorem Ongoing.moved {before after : List Target} (h : Ongoing w₀ n packages before after w)
    (ht : t ∈ targets packages) (hm : Moved n t f w w')
    (hb : ∀ t' ∈ before, Separate t t') (ha : ∀ t' ∈ after, Separate t t') :
    Ongoing w₀ n packages before after w' where
  frame := h.frame.moved ht hm
  db := hm.db.trans h.db
  marker := (hm.marker n).trans h.marker
  roots := h.roots.moved hm
  staged := h.staged.moved hm
  switched t' ht' := (hm.other (hb t' ht')).trans (h.switched t' ht')
  waiting t' ht' := (hm.other (ha t' ht')).trans (h.waiting t' ht')

section

variable {before after : List Target}

theorem Ongoing.switching (hready : Ready w₀ n entries)
    (h : Ongoing w₀ n (journal w₀ n tx entries) before after w)
    (hl : targets (journal w₀ n tx entries) = before ++ t :: after)
    (hx : (w.swap n t).Restores t.old t.new (w₀.runtime t.slot)) :
    Switching w₀ n (journal w₀ n tx entries) w := by
  refine ⟨h.frame, h.db, h.marker, h.roots, fun t' ht' => ?_⟩
  obtain ⟨hold, hnew⟩ := flags_of_mem ht'
  have hbackup := hready.backup_eq ht'
  rw [hl] at ht'
  obtain hb | hta := List.mem_append.mp ht'
  · rw [h.switched t' hb]
    exact Swap.restores_replaced rfl hold hnew
  · obtain rfl | ha := List.mem_cons.mp hta
    · exact hx
    · rw [h.waiting t' ha]
      exact Swap.restores_of_old hbackup rfl hold

theorem switchTarget_triple (hready : Ready w₀ n entries)
    (hl : targets (journal w₀ n tx entries) = before ++ t :: after) :
    Triple (Ongoing w₀ n (journal w₀ n tx entries) before (t :: after)) (switchTarget n t)
      (fun _ => Ongoing w₀ n (journal w₀ n tx entries) (before ++ [t]) after)
      (fun _ => Switching w₀ n (journal w₀ n tx entries))
      (Switching w₀ n (journal w₀ n tx entries)) := by
  have ht : t ∈ targets (journal w₀ n tx entries) := by simp [hl]
  obtain ⟨hold, hnew⟩ := flags_of_mem ht
  have hbackup := hready.backup_eq ht
  have hsep : (targets (journal w₀ n tx entries)).Pairwise Separate := targets_separate hready
  rw [hl, List.pairwise_append, List.pairwise_cons] at hsep
  have hb : ∀ t' ∈ before, Separate t t' := fun t' ht' =>
    (hsep.2.2 t' ht' t List.mem_cons_self).symm
  have ha : ∀ t' ∈ after, Separate t t' := hsep.2.1.1
  let At (x : Swap γ) (w : World γ) : Prop :=
    Ongoing w₀ n (journal w₀ n tx entries) before after w ∧ w.swap n t = x
  have hat {x : Swap γ} (hx : x.Restores t.old t.new (w₀.runtime t.slot)) (w : World γ)
      (h : At x w) : Switching w₀ n (journal w₀ n tx entries) w :=
    h.1.switching hready hl (h.2 ▸ hx)
  have hinitial : (w₀.swap n t).Restores t.old t.new (w₀.runtime t.slot) :=
    Swap.restores_of_old hbackup rfl hold
  have hend : (w₀.swap n t).moveOut.moveIn.Restores t.old t.new (w₀.runtime t.slot) :=
    Swap.restores_replaced rfl hold hnew
  have hmiddle : (w₀.swap n t).moveOut.Restores t.old t.new (w₀.runtime t.slot) :=
    Swap.restores_moveOut rfl hold
  have hout : Triple (At (w₀.swap n t)) (renameOut n t) (fun _ => At (w₀.swap n t).moveOut)
      (fun _ => Switching w₀ n (journal w₀ n tx entries))
      (Switching w₀ n (journal w₀ n tx entries)) :=
    renameOut_triple (hat hinitial) fun w w' hw hm => ⟨hw.1.moved ht hm hb ha, hw.2 ▸ hm.swap⟩
  have hin : Triple (At (w₀.swap n t).moveOut) (renameIn n t)
      (fun _ => At (w₀.swap n t).moveOut.moveIn)
      (fun _ => Switching w₀ n (journal w₀ n tx entries))
      (Switching w₀ n (journal w₀ n tx entries)) :=
    renameIn_triple (hat hmiddle) fun w w' hw hm => ⟨hw.1.moved ht hm hb ha, hw.2 ▸ hm.swap⟩
  refine (Triple.bind (Triple.doIf (R := At (w₀.swap n t).moveOut) (fun _ => hout) ?_) fun _ =>
    Triple.bind (Triple.doIf (R := At (w₀.swap n t).moveOut.moveIn) (fun _ => ?_) ?_) fun _ =>
      Triple.bind (triple_sync (hat hend)) fun _ => triple_sync (hat hend)).conseq ?_ ?_
        (fun _ _ => id) fun _ => id
  · intro hnone w hw
    have hlive : (w₀.swap n t).live = none := by simpa [hold] using hnone
    rwa [Swap.moveOut_of_none hlive hbackup]
  · exact Triple.bind (triple_sync (hat hmiddle)) fun _ => Triple.bind hin fun _ =>
      Triple.doIf (fun _ => triple_sync (hat hend)) fun _ _ => id
  · intro hnone w hw
    have hc : (w₀.swap n t).moveOut.candidate = none := by
      simpa [hnew, Swap.moveOut] using hnone
    rwa [Swap.moveIn_of_none rfl hc]
  · exact fun w hw => ⟨⟨hw.frame, hw.db, hw.marker, hw.roots, hw.staged, hw.switched,
      fun t' ht' => hw.waiting t' (List.mem_cons_of_mem _ ht')⟩, hw.waiting t List.mem_cons_self⟩
  · rintro _ w ⟨hw, hx⟩
    refine ⟨hw.frame, hw.db, hw.marker, hw.roots, hw.staged, fun t' ht' => ?_, hw.waiting⟩
    obtain ht' | ht' := List.mem_append.mp ht'
    · exact hw.switched t' ht'
    · rw [List.mem_singleton.mp ht']
      exact hx

theorem switchAll_triple (hready : Ready w₀ n entries) :
    Triple (Ongoing w₀ n (journal w₀ n tx entries) [] (targets (journal w₀ n tx entries)))
      (switchAll n (targets (journal w₀ n tx entries)) tx)
      (fun _ => Done w₀ n tx (journal w₀ n tx entries))
      (fun _ => Switching w₀ n (journal w₀ n tx entries))
      (Switching w₀ n (journal w₀ n tx entries)) := by
  have hswitching (w : World γ)
      (h : Ongoing w₀ n (journal w₀ n tx entries) (targets (journal w₀ n tx entries)) [] w) :
      Switching w₀ n (journal w₀ n tx entries) w := by
    refine ⟨h.frame, h.db, h.marker, h.roots, fun t ht => ?_⟩
    obtain ⟨hold, hnew⟩ := flags_of_mem ht
    rw [h.switched t ht]
    exact Swap.restores_replaced rfl hold hnew
  refine Triple.bind (Triple.forEach
    (I := fun before after => Ongoing w₀ n (journal w₀ n tx entries) before after)
    fun before t after hl => switchTarget_triple hready hl) fun _ =>
      Triple.bind (triple_sync hswitching) fun _ => triple_change hswitching ?_
  intro w w' h hact
  cases hact
  refine ⟨⟨h.frame.sandbox, h.frame.stages, h.frame.runtime⟩, rfl,
    .inr ⟨h.marker, h.roots, h.staged⟩, fun t ht => ?_⟩
  exact congrArg Swap.live (h.switched t ht)

end

section

theorem Switching.moved (h : Switching w₀ n packages w) (ht : t ∈ targets packages)
    (hm : Moved n t f w w') (hx : (w'.swap n t).Restores t.old t.new (w₀.runtime t.slot))
    (hsep : (targets packages).Pairwise Separate) : Switching w₀ n packages w' := by
  refine ⟨h.frame.moved ht hm, hm.db.trans h.db, (hm.marker n).trans h.marker, h.roots.moved hm,
    fun t' ht' => ?_⟩
  by_cases heq : t' = t
  · subst heq
    exact hx
  · have hne : Separate t t' := hsep.forall ht ht' (Ne.symm heq)
    rw [hm.other hne]
    exact h.restores t' ht'

/-- The rollback has brought back the files of the targets `before`. -/
structure Reverting (w₀ : World γ) (n : String) (packages : List JournalEntry)
    (before : List Target) (w : World γ) : Prop extends Switching w₀ n packages w where
  reverted : ∀ t ∈ before, w.runtime t.slot = w₀.runtime t.slot

theorem rollbackTarget_triple (hsep : (targets packages).Pairwise Separate)
    {before after : List Target} (hl : targets packages = before ++ t :: after) :
    Triple (Reverting w₀ n packages before) (rollbackTarget n t)
      (fun _ => Reverting w₀ n packages (before ++ [t]))
      (fun _ => Switching w₀ n packages) (Switching w₀ n packages) := by
  have ht : t ∈ targets packages := by simp [hl]
  have hb : ∀ t' ∈ before, t'.slot ≠ t.slot := by
    intro t' ht'
    rw [hl, List.pairwise_append] at hsep
    exact (hsep.2.2 t' ht' t List.mem_cons_self).1
  have hstep {f : Swap γ → Swap γ} {w w' : World γ} (h : Reverting w₀ n packages before w)
      (hm : Moved n t f w w') (hx : (f (w.swap n t)).Restores t.old t.new (w₀.runtime t.slot)) :
      Reverting w₀ n packages before w' :=
    ⟨h.toSwitching.moved ht hm (hm.swap ▸ hx) hsep, fun t' ht' =>
      (hm.runtime _ (hb t' ht')).trans (h.reverted t' ht')⟩
  have hdone (w : World γ) (h : Reverting w₀ n packages (before ++ [t]) w) :
      Switching w₀ n packages w := h.toSwitching
  refine Triple.get fun w hw => ?_
  have hx := hw.restores t ht
  let Removed (w' : World γ) : Prop := Reverting w₀ n packages before w' ∧
    (w'.swap n t).backup = (w.swap n t).backup ∧
    ((w.swap n t).backup = none → w'.runtime t.slot = w₀.runtime t.slot)
  refine Triple.bind (R := fun _ => Removed) (Triple.doIf (fun hacts => ?_) fun hacts => ?_) fun _ =>
    Triple.bind (R := fun _ => Reverting w₀ n packages (before ++ [t]))
      (Triple.doIf (fun hbackup => ?_) fun hbackup => ?_) fun _ =>
        Triple.bind (triple_sync hdone) fun _ => triple_sync hdone
  · refine removeTarget_triple (n := n) ?_ ?_
    · rintro w w' rest rfl hm
      exact (hstep hw hm (hx.discard hacts rest)).toSwitching
    · rintro w w' rfl hm
      have hsame : (w'.swap n t).backup = (w.swap n t).backup := by
        rw [hm.swap]
        rfl
      refine ⟨hstep hw hm (hx.discard hacts none), hsame, fun hnone => ?_⟩
      have hgoal := hx.backup_eq hacts
      have hlive : w'.runtime t.slot = none := congrArg Swap.live hm.swap
      rw [hlive, ← hgoal, hnone]
  · rintro w rfl
    exact ⟨hw, rfl, fun _ => hx.live_eq hacts⟩
  · refine renameBack_triple (fun w' h => h.1.toSwitching) ?_
    rintro w₁ w₂ ⟨hr, hsame, -⟩ hm
    have hsome : (w₁.swap n t).backup.isSome = true := by
      rw [hsame]
      exact hbackup
    obtain ⟨hx₂, hlive, -⟩ := (hr.restores t ht).moveBack hsome
    have hr₂ := hstep hr hm hx₂
    refine ⟨hr₂.toSwitching, fun t' ht' => ?_⟩
    obtain ht' | ht' := List.mem_append.mp ht'
    · exact hr₂.reverted t' ht'
    · rw [List.mem_singleton.mp ht']
      exact (congrArg Swap.live hm.swap).trans hlive
  · rintro w' ⟨hr, -, hlive⟩
    refine ⟨hr.toSwitching, fun t' ht' => ?_⟩
    obtain ht' | ht' := List.mem_append.mp ht'
    · exact hr.reverted t' ht'
    · rw [List.mem_singleton.mp ht']
      have hnone : w.backup n t.directory t.kind = none := by simpa using hbackup
      exact hlive hnone

theorem rollback_triple (hsep : (targets packages).Pairwise Separate) :
    Triple (Switching w₀ n packages) (forEach (targets packages) (rollbackTarget n))
      (fun _ w => Switching w₀ n packages w ∧ w.runtime = w₀.runtime)
      (fun _ => Switching w₀ n packages) (Switching w₀ n packages) := by
  refine (Triple.forEach (I := fun before _ => Reverting w₀ n packages before)
    fun before t after hl => rollbackTarget_triple hsep hl).conseq
      (fun w h => ⟨h, by simp⟩) ?_ (fun _ _ => id) fun _ => id
  intro _ w h
  refine ⟨h.toSwitching, funext fun slot => ?_⟩
  by_cases hslot : ∃ t ∈ targets packages, t.slot = slot
  · obtain ⟨t, ht, rfl⟩ := hslot
    exact h.reverted t ht
  · push Not at hslot
    exact h.frame.runtime slot hslot

end

section

/-- No file has been moved yet, and the stage has no backup. -/
structure Fresh (w₀ : World γ) (n : String) (packages : List JournalEntry) (w : World γ) : Prop where
  frame : Frame w₀ n packages w
  db : w.db = w₀.db
  runtime : w.runtime = w₀.runtime
  marker : (∀ ps, w.marker n ≠ some (.complete ps)) ∨
    w.marker n = some (.complete packages) ∧ Rooted packages w
  backup : ∀ t ∈ targets packages, w.backup n t.directory t.kind = none

theorem Fresh.old (h : Fresh w₀ n (journal w₀ n tx entries) w) :
    Old w₀ n (journal w₀ n tx entries) w := by
  obtain hmarker | ⟨hmarker, hroots⟩ := h.marker
  · exact .untouched ⟨h.frame, h.db, hmarker, h.runtime⟩
  · refine .switching ⟨h.frame, h.db, hmarker, hroots, fun t ht => ?_⟩ h.runtime
    exact Swap.restores_of_old (h.backup t ht) (congrFun h.runtime t.slot) (flags_of_mem ht).1

theorem Frame.marked {marker : Option Marker} (h : Frame w₀ n packages w)
    (hm : Marked n marker w w') : Frame w₀ n packages w' where
  sandbox := hm.sandbox.trans h.sandbox
  stages m hne := (hm.stages m hne).trans (h.stages m hne)
  runtime slot hs := (congrFun hm.runtime slot).trans (h.runtime slot hs)

theorem Frame.reduced (h : Frame w₀ n packages w) (hr : Reduced n w w') :
    Frame w₀ n packages w' where
  sandbox := hr.sandbox.trans h.sandbox
  stages m hne := (hr.stages m hne).trans (h.stages m hne)
  runtime slot hs := (congrFun hr.runtime slot).trans (h.runtime slot hs)

theorem Fresh.unlinked (h : Fresh w₀ n packages w) (hm : Marked n none w w') :
    Fresh w₀ n packages w' := by
  refine ⟨h.frame.marked hm, hm.db.trans h.db, hm.runtime.trans h.runtime, .inl ?_, fun t ht => ?_⟩
  · simp [hm.marker]
  · rw [World.backup, hm.member]
    exact h.backup t ht

theorem Fresh.reduced (h : Fresh w₀ n packages w) (hr : Reduced n w w') :
    Fresh w₀ n packages w' := by
  refine ⟨h.frame.reduced hr, hr.db.trans h.db, hr.runtime.trans h.runtime, ?_, fun t ht =>
    hr.backup _ _ (h.backup t ht)⟩
  obtain hnone | hsame := hr.marker
  · exact .inl (by simp [hnone])
  · rw [hsame, Rooted, hr.roots]
    exact h.marker

/-- Everything is staged, and nothing has been touched except the journal. -/
structure Waiting (w₀ : World γ) (n : String) (packages : List JournalEntry)
    (marker : Option Marker) (w : World γ) : Prop where
  frame : Frame w₀ n packages w
  db : w.db = w₀.db
  runtime : w.runtime = w₀.runtime
  roots : Rooted packages w
  member : ∀ d, w.member n d = w₀.member n d
  marker : w.marker n = marker

theorem Waiting.marked {marker marker' : Option Marker} (h : Waiting w₀ n packages marker w)
    (hm : Marked n marker' w w') : Waiting w₀ n packages marker' w' := by
  refine ⟨h.frame.marked hm, hm.db.trans h.db, hm.runtime.trans h.runtime, ?_, fun d =>
    (hm.member n d).trans (h.member d), hm.marker⟩
  rw [Rooted, hm.roots]
  exact h.roots

theorem Waiting.fresh {marker : Option Marker} (hready : Ready w₀ n entries)
    (h : Waiting w₀ n (journal w₀ n tx entries) marker w)
    (hmarker : ∀ ps, marker = some (.complete ps) → ps = journal w₀ n tx entries) :
    Fresh w₀ n (journal w₀ n tx entries) w := by
  refine ⟨h.frame, h.db, h.runtime, ?_, fun t ht => ?_⟩
  · by_cases hcomplete : ∃ ps, marker = some (.complete ps)
    · obtain ⟨ps, hps⟩ := hcomplete
      rw [h.marker, hps, hmarker ps hps]
      exact .inr ⟨rfl, h.roots⟩
    · push Not at hcomplete
      rw [h.marker]
      exact .inl hcomplete
  · rw [World.backup, h.member]
    exact hready.backup_eq ht

theorem Waiting.ongoing (hready : Ready w₀ n entries)
    (h : Waiting w₀ n (journal w₀ n tx entries) (some (.complete (journal w₀ n tx entries))) w) :
    Ongoing w₀ n (journal w₀ n tx entries) [] (targets (journal w₀ n tx entries)) w := by
  refine ⟨h.frame, h.db, h.marker, h.roots, fun t ht => ?_, by simp, fun t _ => ?_⟩
  · rw [h.member]
    exact hready.member_isSome ht
  · simp only [World.swap, World.backup, World.candidate, h.runtime, h.member]

theorem writeComponent_triple (hready : Ready w₀ n entries) :
    Triple (Waiting w₀ n (journal w₀ n tx entries) none)
      (writeComponent n (journal w₀ n tx entries))
      (fun _ => Waiting w₀ n (journal w₀ n tx entries) (some (.complete (journal w₀ n tx entries))))
      (fun _ => Fresh w₀ n (journal w₀ n tx entries)) (Fresh w₀ n (journal w₀ n tx entries)) := by
  have hnone (w : World γ) (h : Waiting w₀ n (journal w₀ n tx entries) none w) :=
    h.fresh hready fun _ => by simp
  have htorn (w : World γ) (h : Waiting w₀ n (journal w₀ n tx entries) (some .torn) w) :=
    h.fresh hready fun _ => by simp
  have hcomplete (w : World γ) (h : Waiting w₀ n (journal w₀ n tx entries)
      (some (.complete (journal w₀ n tx entries))) w) := h.fresh hready fun ps hps => by
    cases hps
    rfl
  refine Triple.bind (createMarker_triple hnone fun w w' h hm => h.marked hm) fun _ =>
    Triple.onError (F := fun _ => Fresh w₀ n (journal w₀ n tx entries)) ?_ fun _ => ?_
  · exact Triple.bind (writeMarker_triple htorn (fun w h => h.marker) fun w w' h hm => h.marked hm)
      fun _ => Triple.bind (triple_sync hcomplete) fun _ => triple_sync hcomplete
  · exact unlinkMarker_triple (fun _ h => h) fun w w' h hm => h.unlinked hm

/-- Of the world at most some root directories have been created. -/
structure Rooting (w₀ : World γ) (done : List (Id × Kind)) (w : World γ) : Prop where
  same : { w with roots := w₀.roots } = w₀
  roots : ∀ p ∈ done, w.roots (rootOf p.1 p.2) = true

theorem Rooting.fresh {done : List (Id × Kind)} (hready : Ready w₀ n entries)
    (h : Rooting w₀ done w) : Fresh w₀ n (journal w₀ n tx entries) w := by
  obtain ⟨roots, rfl⟩ : ∃ roots, w = { w₀ with roots := roots } := ⟨w.roots, by rw [← h.same]⟩
  refine ⟨⟨rfl, fun _ _ => rfl, fun _ _ => rfl⟩, rfl, rfl, .inl fun ps => ?_, fun t ht =>
    hready.backup_eq ht⟩
  have hnone : ({ w₀ with roots := roots } : World γ).marker n = none := hready.marker
  simp [hnone]

theorem ensureRoot_triple {done : List (Id × Kind)} {root : Root} {R : World γ → Prop}
    (hcut : ∀ w, Rooting w₀ done w → R w) :
    Triple (Rooting w₀ done) (ensureRoot root)
      (fun _ w => Rooting w₀ done w ∧ w.roots root = true) (fun _ => R) R := by
  refine triple_change hcut fun w w' h hact => ?_
  cases hact
  refine ⟨⟨h.same, fun p hp => ?_⟩, Function.update_self _ _ _⟩
  by_cases heq : rootOf p.1 p.2 = root
  · simp [heq]
  · simp [heq, h.roots p hp]

theorem prepareTarget_triple {done : List (Id × Kind)} {id : Id} {kind : Kind} {R : World γ → Prop}
    (hcut : ∀ done w, Rooting w₀ done w → R w) :
    Triple (Rooting w₀ done) (prepareTarget id kind)
      (fun _ => Rooting w₀ (done ++ [(id, kind)])) (fun _ => R) R := by
  refine Triple.bind (ensureRoot_triple (hcut done)) fun _ => Triple.bind
    ((ensureRoot_triple (hcut done)).pre fun w h => h.1) fun _ => ?_
  refine (triple_sync (P := Rooting w₀ (done ++ [(id, kind)])) (hcut _)).pre ?_
  rintro w ⟨h, hroot⟩
  refine ⟨h.same, fun p hp => ?_⟩
  obtain hp | hp := List.mem_append.mp hp
  · exact h.roots p hp
  · rw [List.mem_singleton.mp hp]
    exact hroot

def prepared (before : List (Id × String)) : List (Id × Kind) :=
  before.flatMap fun e => [Kind.lib, Kind.app].map fun kind => (e.1, kind)

theorem prepareAll_triple {R : World γ → Prop} (hcut : ∀ done w, Rooting w₀ done w → R w) :
    Triple (Rooting w₀ [])
      (forEach entries fun e => forEach [Kind.lib, Kind.app] fun kind => prepareTarget e.1 kind)
      (fun _ => Rooting w₀ (prepared entries)) (fun _ => R) R := by
  refine Triple.forEach (I := fun before _ => Rooting w₀ (prepared before)) fun before e after _ => ?_
  refine (Triple.forEach (I := fun kinds _ =>
    Rooting w₀ (prepared before ++ kinds.map fun kind => (e.1, kind))) fun kinds kind rest _ => ?_).conseq
      (fun w h => by simpa using h) (fun _ w h => ?_) (fun _ _ => id) fun _ => id
  · refine (prepareTarget_triple hcut).post fun _ w h => ?_
    simpa using h
  · simpa [prepared] using h

theorem Rooting.waiting (hready : Ready w₀ n entries) (h : Rooting w₀ (prepared entries) w) :
    Waiting w₀ n (journal w₀ n tx entries) none w := by
  have hroots : Rooted (journal w₀ n tx entries) w := by
    intro t ht
    obtain ⟨e, he, kind, rfl⟩ := mem_targets_journal.mp ht
    refine h.roots (e.1, kind) (List.mem_flatMap.mpr ⟨e, he, List.mem_map.mpr ⟨kind, ?_, rfl⟩⟩)
    cases kind <;> simp
  have hfresh : Fresh w₀ n (journal w₀ n tx entries) w := h.fresh hready
  have hstages : w.stages = w₀.stages := by rw [← h.same]
  refine ⟨hfresh.frame, hfresh.db, hfresh.runtime, hroots, fun d => ?_, ?_⟩
  · rw [World.member, hstages, World.member]
  · rw [World.marker, hstages]
    exact hready.marker

theorem publish_triple {size : List JournalEntry → Nat} (hready : Ready w₀ n entries) :
    Triple (fun w => w = w₀) (publish size entries n tx)
      (fun packages w => packages = journal w₀ n tx entries ∧
        size packages ≤ journalLimit ∧ Waiting w₀ n packages (some (.complete packages)) w)
      (fun _ => Fresh w₀ n (journal w₀ n tx entries)) (Fresh w₀ n (journal w₀ n tx entries)) := by
  have hcut (done : List (Id × Kind)) (w : World γ) (h : Rooting w₀ done w) :
      Fresh w₀ n (journal w₀ n tx entries) w := h.fresh hready
  have hstart (w : World γ) (h : w = w₀) : Rooting w₀ [] w := by
    subst h
    exact ⟨rfl, by simp⟩
  refine Triple.pre (Triple.bind (triple_sync (hcut [])) fun _ =>
    Triple.bind (prepareAll_triple hcut) fun _ => Triple.get fun w hw => ?_) hstart
  have hpackages : entries.map (journalEntry w n tx) = journal w₀ n tx entries := by
    rw [journal, ← hw.same]
    rfl
  have hcomplete (w : World γ) (h : Waiting w₀ n (journal w₀ n tx entries)
      (some (.complete (journal w₀ n tx entries))) w) := h.fresh hready fun ps hps => by
    cases hps
    rfl
  simp only [hpackages]
  refine Triple.bind (R := fun _ w => size (journal w₀ n tx entries) ≤ journalLimit ∧
    Waiting w₀ n (journal w₀ n tx entries) none w) (Triple.ofExcept ?_ ?_) fun _ => ?_
  · rintro _ _ hlimit rfl
    exact ⟨not_lt.mp (failIf_eq_ok.mp hlimit), hw.waiting hready⟩
  · rintro _ _ - rfl
    exact hw.fresh hready
  refine Triple.intro fun w' hw' => ?_
  refine (Triple.bind (writeComponent_triple hready) fun _ => Triple.bind (triple_sync hcomplete)
    fun _ => Triple.bind (triple_sync hcomplete) fun _ => Triple.pure fun w h => ?_).pre ?_
  · exact ⟨rfl, hw'.1, h⟩
  · rintro _ rfl
    exact hw'.2

theorem cleanup_triple {X : World γ → Prop} {E : Failure → World γ → Prop}
    (hunlink : ∀ w w', X w → Marked n none w w' → X w')
    (hremove : ∀ w w', X w → w.marker n = none → Reduced n w w' → X w') :
    Triple X (ignore (cleanup n)) (fun _ => X) E X := by
  refine Triple.ignore ((Triple.bind (R := fun _ w => X w ∧ w.marker n = none)
    (unlinkMarker_triple (fun _ h => h) fun w w' h hm => ⟨hunlink w w' h hm, hm.marker⟩) fun _ =>
      Triple.bind (triple_sync fun _ h => h.1) fun _ => Triple.bind
        (removeStage_triple (fun w w' h hr => hremove w w' h.1 h.2 hr)
          fun w w' h hr _ => hremove w w' h.1 h.2 hr) fun _ => triple_sync fun _ h => h))

theorem Done.unlinked (h : Done w₀ n tx packages w) (hm : Marked n none w w') :
    Done w₀ n tx packages w' := by
  refine ⟨h.frame.marked hm, hm.db.trans h.db, .inl hm.marker, fun t ht => ?_⟩
  rw [hm.runtime]
  exact h.runtime t ht

theorem Done.reduced (h : Done w₀ n tx packages w) (hnone : w.marker n = none)
    (hr : Reduced n w w') : Done w₀ n tx packages w' := by
  refine ⟨h.frame.reduced hr, hr.db.trans h.db, .inl ?_, fun t ht => ?_⟩
  · obtain hmarker | hmarker := hr.marker
    · exact hmarker
    · rw [hmarker, hnone]
  · rw [hr.runtime]
    exact h.runtime t ht

theorem Old.runtime_eq (h : Old w₀ n packages w) : w.runtime = w₀.runtime := by
  cases h with
  | untouched h => exact h.runtime
  | switching _ h => exact h

theorem Old.unlinked (h : Old w₀ n packages w) (hm : Marked n none w w') :
    Old w₀ n packages w' := by
  refine .untouched ⟨?_, ?_, fun ps => by simp [hm.marker], hm.runtime.trans h.runtime_eq⟩
  · cases h with
    | untouched h => exact h.frame.marked hm
    | switching h _ => exact h.frame.marked hm
  · cases h with
    | untouched h => exact hm.db.trans h.db
    | switching h _ => exact hm.db.trans h.db

theorem Old.reduced (h : Old w₀ n packages w) (hnone : w.marker n = none) (hr : Reduced n w w') :
    Old w₀ n packages w' := by
  have hmarker : w'.marker n = none := by
    obtain hmarker | hmarker := hr.marker
    · exact hmarker
    · rw [hmarker, hnone]
  cases h with
  | untouched h =>
      exact .untouched ⟨h.frame.reduced hr, hr.db.trans h.db, fun ps => by simp [hmarker],
        hr.runtime.trans h.runtime⟩
  | switching h _ =>
      rw [h.marker] at hnone
      cases hnone

/-- A failed call has left the old files, unless its own rollback has failed. -/
inductive Failed (w₀ : World γ) (n : String) (packages : List JournalEntry) (f : Failure)
    (w : World γ) : Prop
  | old (h : Old w₀ n packages w)
  | rollback (h : Switching w₀ n packages w) (hf : f.rolledBack = false)

/-- Where a transaction of package files ends, whatever steps of it fail or are cut short. -/
theorem commitPackagesFiles_triple {size : List JournalEntry → Nat} (hready : Ready w₀ n entries) :
    Triple (fun w => w = w₀) (commitPackagesFiles size entries n tx)
      (fun _ => Done w₀ n tx (journal w₀ n tx entries))
      (Failed w₀ n (journal w₀ n tx entries)) (Outcome w₀ n tx (journal w₀ n tx entries)) := by
  refine Triple.bind (Triple.onError (F := fun _ => Fresh w₀ n (journal w₀ n tx entries))
    ((publish_triple hready).conseq (fun _ => id) (fun _ _ => id) (fun _ _ => id)
      fun w h => h.old.outcome) fun e => ?_) fun packages => ?_
  · exact (removeStage_triple (fun w w' h hr => h.reduced hr)
      fun w w' h hr _ => h.reduced hr).conseq (fun _ => id) (fun _ w h => .old h.old)
        (fun _ w h => .old h.old) fun w h => h.old.outcome
  refine Triple.intro ?_
  rintro w₁ ⟨rfl, -, hwaiting⟩
  refine Triple.bind (Triple.attempt ((switchAll_triple hready).conseq ?_ (fun _ _ => id)
    (fun _ _ => id) fun w h => .switching h)) fun x => ?_
  · rintro _ rfl
    exact hwaiting.ongoing hready
  cases x with
  | ok _ =>
      exact (cleanup_triple (fun w w' h hm => Done.unlinked h hm)
        fun w w' h hnone hr => Done.reduced h hnone hr).conseq (fun _ => id) (fun _ _ => id)
          (fun _ _ => id) fun w h => .done h
  | error e =>
      refine Triple.bind (Triple.attempt (Q := fun _ => Old w₀ n (journal w₀ n tx entries))
        ((rollback_triple (targets_separate hready)).conseq (fun _ => id)
          (fun _ w h => .switching h.1 h.2) (fun _ _ => id) fun w h => .switching h)) fun x => ?_
      cases x with
      | ok _ =>
          refine Triple.bind ((cleanup_triple (fun w w' h hm => Old.unlinked h hm)
            fun w w' h hnone hr => Old.reduced h hnone hr).conseq (fun _ => id) (fun _ _ => id)
              (fun _ _ => id) fun w h => h.outcome) fun _ => Triple.throw fun w h => .old h
      | error _ => exact Triple.throw fun w h => .rollback h rfl

theorem Failed.outcome {e : Failure} (h : Failed w₀ n packages e w) :
    Outcome w₀ n tx packages w := by
  cases h with
  | old h => exact h.outcome
  | rollback h _ => exact .switching h

theorem Outcome.frame (h : Outcome w₀ n tx packages w) : Frame w₀ n packages w := by
  cases h with
  | untouched h => exact h.frame
  | switching h => exact h.frame
  | done h => exact h.frame

theorem commitPackagesFiles_outcome {size : List JournalEntry → Nat} (hready : Ready w₀ n entries)
    (fs : List (Fault (Leftover γ))) :
    Outcome w₀ n tx (journal w₀ n tx entries) (commitPackagesFiles size entries n tx fs w₀).2.1 :=
  ((commitPackagesFiles_triple hready).conseq (fun _ => id) (fun _ _ h => .done h)
    (fun _ _ h => h.outcome) fun _ => id).state fs rfl

end

end

end Pishoo.PackageFiles
