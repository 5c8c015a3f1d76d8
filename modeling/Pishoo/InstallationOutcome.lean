import Pishoo.CommitDiscriminator
import Pishoo.Installation

namespace Pishoo.Installation

open Result World Prog PackageFiles Registration

variable {γ : Type}

section

variable {w w' : World γ} {n d : String} {P Q R : World γ → Prop}

/-- `w'` differs from `w` only in one member of the stage. -/
structure Touched (n d : String) (w w' : World γ) : Prop where
  db : w'.db = w.db
  sandbox : w'.sandbox = w.sandbox
  runtime : w'.runtime = w.runtime
  stages : ∀ m, m ≠ n → w'.stages m = w.stages m
  stage : (w'.stages n).isSome = (w.stages n).isSome
  marker : w'.marker n = w.marker n
  members : ∀ e, e ≠ d → w'.member n e = w.member n e

theorem touched_updateMember (f : Member γ → Member γ) : Touched n d w (w.updateMember n d f) := by
  refine ⟨rfl, rfl, rfl, fun m hm => ?_, ?_, marker_updateMember n, fun e he => ?_⟩
  · exact (stages_updateStage m).trans (if_neg hm)
  · rw [updateMember, stages_updateStage, if_pos rfl, Option.isSome_map]
  · rw [member_updateMember, if_neg fun h => he h.2]

theorem makeMember_triple (hcut : ∀ w, P w → R w) (hstage : ∀ w, P w → (w.stages n).isSome = true)
    (hok : ∀ w w', P w → Touched n d w w' → w'.member n d = some .empty → Q w') :
    Triple P (makeMember n d) (fun _ => Q) (fun _ => R) R := by
  refine triple_change hcut fun w w' hw h => ?_
  obtain ⟨s, hs⟩ := Option.isSome_iff_exists.mp (hstage w hw)
  split at h
  · cases h
    have hstages : (w.updateStage n fun s => { s with
        members := Function.update s.members d (some .empty) }).stages n =
        some { s with members := Function.update s.members d (some .empty) } := by
      rw [stages_updateStage, if_pos rfl, hs]
      rfl
    refine hok w _ hw ⟨rfl, rfl, rfl, fun m hm => ?_, ?_, ?_, fun e he => ?_⟩ ?_
    · exact (stages_updateStage m).trans (if_neg hm)
    · rw [hstages, hs]
      rfl
    · rw [World.marker, World.marker, hstages, hs]
      rfl
    · rw [World.member, World.member, hstages, hs]
      exact Function.update_of_ne he _ _
    · rw [World.member, hstages]
      exact Function.update_self _ _ _
  · cases h

theorem writeNew_triple {kind : Kind} {c : γ} (hcut : ∀ w w', P w → Touched n d w w' → R w')
    (hok : ∀ w w', P w → Touched n d w w' → w'.member n d =
      (w.member n d).map (fun m => { m with new := Function.update m.new kind (some c) }) → Q w') :
    Triple P (writeNew n d kind c) (fun _ => Q) (fun _ => R) R := by
  refine Triple.step (fun w hw l => ?_) (fun w w' hw h => ?_) fun w e _ h => by cases h
  · exact ⟨hcut w _ hw (touched_updateMember _), hcut w _ hw (touched_updateMember _)⟩
  · cases h
    refine hok w _ hw (touched_updateMember _) ?_
    rw [member_updateMember, if_pos ⟨rfl, rfl⟩]

/-- Only the new stage `n` has been made, and it has no journal. -/
structure Quiet (w₁ : World γ) (n : String) (w : World γ) : Prop where
  db : w.db = w₁.db
  sandbox : w.sandbox = w₁.sandbox
  runtime : w.runtime = w₁.runtime
  stages : ∀ m, m ≠ n → w.stages m = w₁.stages m
  marker : w.marker n = none

theorem Quiet.touched {w₁ : World γ} (h : Quiet w₁ n w) (ht : Touched n d w w') :
    Quiet w₁ n w' :=
  ⟨ht.db.trans h.db, ht.sandbox.trans h.sandbox, ht.runtime.trans h.runtime,
    fun m hm => (ht.stages m hm).trans (h.stages m hm), ht.marker.trans h.marker⟩

theorem Quiet.reduced {w₁ : World γ} (h : Quiet w₁ n w) (hr : Reduced n w w') : Quiet w₁ n w' := by
  refine ⟨hr.db.trans h.db, hr.sandbox.trans h.sandbox, hr.runtime.trans h.runtime,
    fun m hm => (hr.stages m hm).trans (h.stages m hm), ?_⟩
  obtain hnone | hsame := hr.marker
  · exact hnone
  · exact hsame.trans h.marker

end

section

variable {inst : Installer γ} {w₁ w : World γ} {n : String} {changed done : List Release}
  {rel : Release}

/-- The member of a release, with the files of the kinds that have been written. -/
def Holds (inst : Installer γ) (n : String) (rel : Release) (kinds : List Kind) (w : World γ) :
    Prop :=
  ∃ m, w.member n rel.id.name = some m ∧ (∀ kind, m.old kind = none) ∧
    ∀ kind, m.new kind =
      if kind ∈ kinds ∧ rel.has kind = true then some (inst.contents rel kind) else none

/-- The releases `done` have been staged. -/
structure Filled (inst : Installer γ) (w₁ : World γ) (n : String) (done : List Release)
    (w : World γ) : Prop extends Quiet w₁ n w where
  stage : (w.stages n).isSome = true
  holds : ∀ rel ∈ done, Holds inst n rel [.lib, .app] w

theorem Holds.touched {kinds : List Kind} {d : String} {w' : World γ}
    (h : Holds inst n rel kinds w) (ht : Touched n d w w') (hd : rel.id.name ≠ d) :
    Holds inst n rel kinds w' := by
  rw [Holds, ht.members _ hd]
  exact h

theorem Filled.touched {d : String} {w' : World γ} (h : Filled inst w₁ n done w)
    (ht : Touched n d w w') (hd : ∀ rel ∈ done, rel.id.name ≠ d) : Filled inst w₁ n done w' :=
  ⟨h.toQuiet.touched ht, ht.stage.trans h.stage, fun rel hrel =>
    (h.holds rel hrel).touched ht (hd rel hrel)⟩

theorem stageKind_triple {kinds : List Kind} {kind : Kind} (hkind : kind ∉ kinds)
    (hd : ∀ rel' ∈ done, rel'.id.name ≠ rel.id.name) :
    Triple (fun w => Filled inst w₁ n done w ∧ Holds inst n rel kinds w)
      (stageKind inst n rel kind)
      (fun _ w => Filled inst w₁ n done w ∧ Holds inst n rel (kinds ++ [kind]) w)
      (fun _ => Quiet w₁ n) (Quiet w₁ n) := by
  have hquiet (w : World γ) (h : Filled inst w₁ n done w ∧ Holds inst n rel (kinds ++ [kind]) w) :
      Quiet w₁ n w := h.1.toQuiet
  refine Triple.doIf (fun hhas => ?_) fun hhas w h => ?_
  · refine Triple.bind (writeNew_triple (fun w w' h ht => h.1.toQuiet.touched ht)
      fun w w' h ht hmember => ⟨h.1.touched ht hd, ?_⟩) fun _ => triple_sync hquiet
    obtain ⟨m, hm, hold, hnew⟩ := h.2
    refine ⟨_, hmember.trans (congrArg _ hm), hold, fun kind' => ?_⟩
    by_cases hk : kind' = kind
    · subst hk
      simp [hhas]
    · simp [hnew, hk]
  · obtain ⟨hfilled, m, hm, hold, hnew⟩ := h
    refine ⟨hfilled, m, hm, hold, fun kind' => ?_⟩
    rw [hnew]
    refine if_congr ⟨fun hin => ⟨List.mem_append_left _ hin.1, hin.2⟩, fun hin => ⟨?_, hin.2⟩⟩ rfl rfl
    obtain hin' | hlast := List.mem_append.mp hin.1
    · exact hin'
    · rw [List.mem_singleton.mp hlast, hhas] at hin
      cases hin.2

theorem stagePackage_triple (hd : ∀ rel' ∈ done, rel'.id.name ≠ rel.id.name) :
    Triple (Filled inst w₁ n done) (stagePackage inst n rel)
      (fun _ => Filled inst w₁ n (done ++ [rel])) (fun _ => Quiet w₁ n) (Quiet w₁ n) := by
  have hquiet (w : World γ) (h : Filled inst w₁ n done w) : Quiet w₁ n w := h.toQuiet
  refine Triple.bind (R := fun _ w => Filled inst w₁ n done w ∧ Holds inst n rel [] w)
    (makeMember_triple hquiet (fun w h => h.stage) fun w w' h ht hmember => ⟨h.touched ht hd, ?_⟩)
      fun _ => Triple.bind (Triple.forEach (I := fun kinds _ w => Filled inst w₁ n done w ∧
        Holds inst n rel kinds w) fun kinds kind rest hl => ?_) fun _ => ?_
  · exact ⟨.empty, hmember, fun _ => rfl, fun _ => by simp [Member.empty]⟩
  · refine stageKind_triple ?_ hd
    have hnodup : (kinds ++ kind :: rest).Nodup := by
      rw [← hl]
      decide
    exact fun hin => (List.nodup_append.mp hnodup).2.2 kind hin kind List.mem_cons_self rfl
  · refine (triple_sync (P := Filled inst w₁ n (done ++ [rel])) fun w h => h.toQuiet).pre ?_
    rintro w ⟨h, hrel⟩
    refine ⟨h.toQuiet, h.stage, fun rel' hrel' => ?_⟩
    obtain hin | hin := List.mem_append.mp hrel'
    · exact h.holds rel' hin
    · rw [List.mem_singleton.mp hin]
      exact hrel

theorem stagePackages_triple (hnames : (changed.map fun rel => rel.id.name).Nodup) :
    Triple (Filled inst w₁ n []) (forEach changed (stagePackage inst n))
      (fun _ => Filled inst w₁ n changed) (fun _ => Quiet w₁ n) (Quiet w₁ n) := by
  refine Triple.forEach (I := fun done _ => Filled inst w₁ n done) fun done rel rest hl =>
    stagePackage_triple fun rel' hrel' heq => ?_
  rw [hl, List.map_append, List.map_cons] at hnames
  exact (List.nodup_append.mp hnames).2.2 _ (List.mem_map_of_mem hrel') _ List.mem_cons_self heq

theorem Filled.ready (h : Filled inst w₁ n changed w)
    (hnames : (changed.map fun rel => rel.id.name).Nodup) : Ready w n (entriesOf changed) := by
  refine ⟨h.marker, fun e he => ?_, ?_, ?_⟩
  · obtain ⟨rel, hrel, rfl⟩ := List.mem_map.mp he
    obtain ⟨m, hm, hold, -⟩ := h.holds rel hrel
    exact ⟨m, hm, hold⟩
  · simpa [entriesOf, Function.comp_def] using hnames
  · simpa [entriesOf, Function.comp_def] using hnames

theorem Filled.candidate (h : Filled inst w₁ n changed w) (hrel : rel ∈ changed) (kind : Kind) :
    w.candidate n rel.id.name kind =
      if rel.has kind = true then some (inst.contents rel kind) else none := by
  obtain ⟨m, hm, -, hnew⟩ := h.holds rel hrel
  rw [World.candidate, hm, Option.bind_some, hnew]
  cases kind <;> simp

end

inductive Call
  | install (items : List Item) (now : String → Int)
  | remove (id : Id)

def perform (inst : Installer γ) (n : String) : Call → Op γ Unit
  | .install items now => installPackages inst items now n
  | .remove id => removePackage inst id n

/-- The transaction of a call with its staged files in the world `w`. -/
inductive Transaction (inst : Installer γ) (w : World γ) (n : String) :
    Call → List (Id × String) → Database → Prop
  | install {items : List Item} {now : String → Int} {changed : List Release} {r : Registry}
      (haccept : acceptBatch w.sandbox items = .ok ())
      (htx : installTx inst.normalizeName w.db.registry w.sandbox items now = .ok (changed, r))
      (hcandidate : ∀ rel ∈ changed, ∀ kind, w.candidate n rel.id.name kind =
        if rel.has kind = true then some (inst.contents rel kind) else none) :
      Transaction inst w n (.install items now) (entriesOf changed)
        ⟨r, installedReleases changed w.db.releases⟩
  | remove {id : Id} {r : Registry} (hvalid : validId inst.normalizeName id = .ok ())
      (hregistered : (w.db.registry.registered id).isSome = true)
      (htx : removeTx w.db.registry id = .ok r) (hcandidate : ∀ kind, w.candidate n "" kind = none) :
      Transaction inst w n (.remove id) [(id, "")] ⟨r, removedReleases id w.db.releases⟩

/-- The database has been opened, which migrates the registry. -/
structure Opened (w₀ w : World γ) : Prop where
  registry : migrateRegistration w₀.db.registry = .ok w.db.registry
  releases : w.db.releases = w₀.db.releases
  sandbox : w.sandbox = w₀.sandbox
  runtime : w.runtime = w₀.runtime
  stages : w.stages = w₀.stages

/-- Before a call writes its journal it has at most opened the database and made its stage. -/
inductive Before (w₀ : World γ) (n : String) (w : World γ) : Prop
  | unopened (h : w = w₀)
  | opened (h : Opened w₀ w)
  | staging (w₁ : World γ) (ho : Opened w₀ w₁) (hfree : w₁.stages n = none) (h : Quiet w₁ n w)

/-- A call in the world `w₀` is about to commit in the world `w`. -/
structure Plan (inst : Installer γ) (w₀ : World γ) (n : String) (call : Call) (w : World γ)
    (entries : List (Id × String)) (tx : Database) : Prop where
  opened : ∃ w₁, Opened w₀ w₁ ∧ w₁.stages n = none ∧ Quiet w₁ n w
  ready : Ready w n entries
  transaction : Transaction inst w n call entries tx

/-- Where a call ends that fails. -/
def Failing (inst : Installer γ) (w₀ : World γ) (n : String) (call : Call) (f : Failure)
    (w : World γ) : Prop :=
  Before w₀ n w ∨ ∃ ws entries tx, Plan inst w₀ n call ws entries tx ∧
    Failed ws n (journal ws n tx entries) f w

/-- Where a call may be stopped. -/
def Stopped (inst : Installer γ) (w₀ : World γ) (n : String) (call : Call) (w : World γ) : Prop :=
  Before w₀ n w ∨ ∃ ws entries tx, Plan inst w₀ n call ws entries tx ∧
    Outcome ws n tx (journal ws n tx entries) w

section

variable {inst : Installer γ} {w₀ w₁ w : World γ} {n : String} {call : Call} {f : Failure}
  {items : List Item} {now : String → Int} {id : Id}

theorem Failing.stopped (h : Failing inst w₀ n call f w) : Stopped inst w₀ n call w :=
  h.imp_right fun ⟨ws, entries, tx, hplan, hfailed⟩ => ⟨ws, entries, tx, hplan, hfailed.outcome⟩

theorem openDatabase_triple {R : World γ → Prop} (hcut : ∀ w, w = w₀ ∨ Opened w₀ w → R w) :
    Triple (fun w => w = w₀) openDatabase (fun _ => Opened w₀) (fun _ => R) R := by
  refine Triple.bind (triple_sync fun w h => hcut w (.inl h)) fun _ => Triple.bind
    (triple_change (Q := Opened w₀) (fun w h => hcut w (.inl h)) fun w w' h hact => ?_) fun _ =>
      triple_sync fun w h => hcut w (.inr h)
  subst h
  split at hact
  · rename_i r hr
    cases hact
    exact ⟨hr, rfl, rfl, rfl, rfl⟩
  · cases hact

theorem makeStage_triple {P Q R : World γ → Prop} (hcut : ∀ w, P w → R w)
    (hok : ∀ w, P w → w.stages n = none →
      Q { w with stages := Function.update w.stages n (some .empty) }) :
    Triple P (makeStage n) (fun _ => Q) (fun _ => R) R := by
  refine triple_change hcut fun w w' hw h => ?_
  split at h
  · rename_i hs
    cases h
    exact hok w hw hs
  · cases h

theorem filled_makeStage (w : World γ) :
    Filled inst w n [] { w with stages := Function.update w.stages n (some .empty) } := by
  refine ⟨⟨rfl, rfl, rfl, fun m hm => Function.update_of_ne hm _ _, ?_⟩, ?_, by simp⟩
  · simp [World.marker, Stage.empty]
  · simp

theorem examineAll_nodup {normalizeName : String → Option String} {r r' : Registry}
    {s : Sandbox} {changed : List Release}
    (h : installTx normalizeName r s items now = .ok (changed, r')) :
    (changed.map fun rel => rel.id.name).Nodup := by
  obtain ⟨changed', hexamine, h⟩ := bind_eq_ok.mp h
  obtain ⟨_, -, h⟩ := bind_eq_ok.mp h
  cases h
  exact (CommitDiscriminator.examineAll_names hexamine).1

/-- Where an installation ends. -/
theorem installPackages_triple :
    Triple (fun w => w = w₀) (installPackages inst items now n)
      (fun _ w => ∃ ws changed r wd, Plan inst w₀ n (.install items now) ws (entriesOf changed)
          ⟨r, installedReleases changed ws.db.releases⟩ ∧
        installTx inst.normalizeName ws.db.registry ws.sandbox items now = .ok (changed, r) ∧
        Done ws n ⟨r, installedReleases changed ws.db.releases⟩
          (journal ws n ⟨r, installedReleases changed ws.db.releases⟩ (entriesOf changed)) wd ∧
        w = { wd with sandbox := switched inst changed wd.sandbox })
      (Failing inst w₀ n (.install items now)) (Stopped inst w₀ n (.install items now)) := by
  have hearly {α : Type} {P : World γ → Prop} {p : Op γ α} {Q : α → World γ → Prop}
      (h : Triple P p Q (fun _ => Before w₀ n) (Before w₀ n)) :
      Triple P p Q (Failing inst w₀ n (.install items now)) (Stopped inst w₀ n (.install items now)) :=
    h.stop (fun _ _ => .inl) fun _ => .inl
  refine Triple.get fun w hw => ?_
  subst hw
  refine Triple.bind (R := fun _ w' => w' = w ∧ acceptBatch w.sandbox items = .ok ())
    (Triple.ofExcept (fun _ w' hok hw => ⟨hw, mapError_eq_ok.mp hok⟩)
      fun _ w' _ hw => .inl (.unopened hw)) fun _ => Triple.intro ?_
  rintro w' ⟨rfl, haccept⟩
  refine Triple.bind (hearly (openDatabase_triple fun w h => h.elim .unopened .opened)) fun _ =>
    Triple.get fun w₁ ho => ?_
  refine Triple.bind (R := fun tx w => w = w₁ ∧
      installTx inst.normalizeName w₁.db.registry w₁.sandbox items now = .ok tx)
    (Triple.ofExcept (fun tx w hok hw => ⟨hw, mapError_eq_ok.mp hok⟩)
      fun _ w _ hw => .inl (.opened (hw ▸ ho))) fun tx => Triple.intro ?_
  rintro w ⟨rfl, htx⟩
  have hnames := examineAll_nodup htx
  refine Triple.bind (hearly (makeStage_triple (Q := fun v => w.stages n = none ∧
      Filled inst w n [] v) ?_ ?_)) fun _ => ?_
  · rintro _ rfl
    exact .opened ho
  · rintro _ rfl hfree
    exact ⟨hfree, filled_makeStage _⟩
  refine Triple.intro ?_
  rintro v ⟨hfree, hv⟩
  have hquiet (v : World γ) (h : Quiet w n v) : Before w' n v := .staging w ho hfree h
  have hstage : Triple (fun u => u = v) (do forEach tx.1 (stagePackage inst n); sync)
      (fun _ => Filled inst w n tx.1) (fun _ => Quiet w n) (Quiet w n) :=
    (Triple.bind (stagePackages_triple hnames) fun _ =>
      triple_sync fun _ h => h.toQuiet).pre fun _ h => h ▸ hv
  refine Triple.bind (hearly ((Triple.onError hstage fun _ => removeStage_triple (fun _ _ h hr =>
    h.reduced hr) fun _ _ h hr _ => h.reduced hr).stop (fun _ => hquiet) hquiet)) fun _ =>
      Triple.intro fun ws hws => ?_
  have htx' : installTx inst.normalizeName ws.db.registry ws.sandbox items now = .ok tx := by
    rw [hws.db, hws.sandbox]
    exact htx
  have hplan : Plan inst w' n (.install items now) ws (entriesOf tx.1)
      ⟨tx.2, installedReleases tx.1 ws.db.releases⟩ := by
    refine ⟨⟨w, ho, hfree, hws.toQuiet⟩, hws.ready hnames, .install ?_ htx' fun rel hrel kind =>
      hws.candidate hrel kind⟩
    rw [hws.sandbox, ho.sandbox]
    exact haccept
  rw [← hws.db]
  refine Triple.bind ((commitPackagesFiles_triple hplan.ready).conseq (fun _ => id) (fun _ _ => id)
    (fun _ w h => .inr ⟨ws, _, _, hplan, h⟩) fun w h => .inr ⟨ws, _, _, hplan, h⟩) fun _ =>
      Triple.modify fun wd hwd => ⟨ws, tx.1, tx.2, wd, hplan, htx', hwd, rfl⟩

theorem removeRegistered_triple (ho : Opened w₀ w) (hvalid : validId inst.normalizeName id = .ok ())
    (hregistered : (w.db.registry.registered id).isSome = true) :
    Triple (fun v => v = w) (removeRegistered inst id n w.db)
      (fun _ wd => ∃ ws entries tx, Plan inst w₀ n (.remove id) ws entries tx ∧
        Done ws n tx (journal ws n tx entries) wd)
      (Failing inst w₀ n (.remove id)) (Stopped inst w₀ n (.remove id)) := by
  have hearly {α : Type} {P : World γ → Prop} {p : Op γ α} {Q : α → World γ → Prop}
      (h : Triple P p Q (fun _ => Before w₀ n) (Before w₀ n)) :
      Triple P p Q (Failing inst w₀ n (.remove id)) (Stopped inst w₀ n (.remove id)) :=
    h.stop (fun _ _ => .inl) fun _ => .inl
  let Made (v : World γ) : Prop := w.stages n = none ∧ Quiet w n v ∧ v.member n "" = some .empty
  have hmade (v : World γ) (h : Made v) : Before w₀ n v := .staging w ho h.1 h.2.1
  refine Triple.bind (hearly (makeStage_triple (Q := Made) ?_ ?_)) fun _ =>
    Triple.bind (hearly (triple_sync hmade)) fun _ =>
      Triple.bind (R := fun _ v => Before w₀ n v ∧ (referenced w.db.registry id = false → Made v))
        (hearly (Triple.doIf (fun href => ?_) fun _ v h => ⟨hmade v h, fun _ => h⟩)) fun _ => ?_
  · rintro _ rfl
    exact .opened ho
  · rintro _ rfl hfree
    refine ⟨hfree, (filled_makeStage _ : Filled inst _ n [] _).toQuiet, ?_⟩
    simp [World.member, Stage.empty]
  · refine removeStage_triple (fun v v' h hr => .staging w ho h.1 (h.2.1.reduced hr))
      fun v v' h hr _ => ⟨.staging w ho h.1 (h.2.1.reduced hr), fun hnot => ?_⟩
    rw [href] at hnot
    cases hnot
  refine Triple.bind (R := fun r v => Made v ∧ removeTx w.db.registry id = .ok r)
    (Triple.ofExcept (fun r v hok h => ?_) fun _ v _ h => .inl h.1) fun r => Triple.intro ?_
  · have htx := mapError_eq_ok.mp hok
    refine ⟨h.2 ?_, htx⟩
    obtain ⟨_, hfree, -⟩ := bind_eq_ok.mp htx
    simpa [referenced] using failIf_eq_ok.mp hfree
  rintro ws ⟨⟨hfree, hquiet, hmember⟩, htx⟩
  have hplan : Plan inst w₀ n (.remove id) ws [(id, "")] ⟨r, removedReleases id ws.db.releases⟩ := by
    refine ⟨⟨w, ho, hfree, hquiet⟩, ⟨hquiet.marker, ?_, by simp, by simp⟩, .remove hvalid ?_ ?_ ?_⟩
    · rintro e he
      rw [List.mem_singleton.mp he]
      exact ⟨_, hmember, fun _ => rfl⟩
    · rw [hquiet.db]
      exact hregistered
    · rw [hquiet.db]
      exact htx
    · intro kind
      rw [World.candidate, hmember]
      rfl
  rw [← hquiet.db]
  exact (commitPackagesFiles_triple hplan.ready).conseq (fun _ h => h)
    (fun _ _ h => ⟨ws, _, _, hplan, h⟩) (fun _ w h => .inr ⟨ws, _, _, hplan, h⟩)
      fun w h => .inr ⟨ws, _, _, hplan, h⟩

/-- Where a removal ends. -/
theorem removePackage_triple :
    Triple (fun w => w = w₀) (removePackage inst id n)
      (fun _ w => Opened w₀ w ∧ w.db.registry.registered id = none ∨
        ∃ ws entries tx, Plan inst w₀ n (.remove id) ws entries tx ∧
          Done ws n tx (journal ws n tx entries) w)
      (Failing inst w₀ n (.remove id)) (Stopped inst w₀ n (.remove id)) := by
  refine Triple.bind (R := fun _ w => w = w₀ ∧ validId inst.normalizeName id = .ok ())
    (Triple.ofExcept (fun _ w hok hw => ⟨hw, mapError_eq_ok.mp hok⟩)
      fun _ w _ hw => .inl (.unopened hw)) fun _ => Triple.intro ?_
  rintro _ ⟨rfl, hvalid⟩
  refine Triple.bind ((openDatabase_triple fun w h => h.elim .unopened .opened).stop
    (fun _ _ => .inl) fun _ => .inl) fun _ =>
      Triple.get fun w ho => Triple.doIf (fun hregistered => ?_) fun hnone => ?_
  · exact (removeRegistered_triple ho hvalid hregistered).post fun _ _ => .inr
  · rintro _ rfl
    exact .inl ⟨ho, by simpa using hnone⟩

end

end Pishoo.Installation
