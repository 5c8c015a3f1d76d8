import Mathlib.Data.List.Pairwise
import Pishoo.CommitFiles

namespace Pishoo.PackageFiles

open Result World Prog

variable {γ : Type}

/-- The decision about a journal: all its facts are those of the database. -/
def committed (db : Database) (packages : List JournalEntry) : Bool :=
  packages.all fun e => matchesFacts db.registry e.id.name e.facts

def checkResources (resources : List JournalResource) : Except Error Unit := do
  failIf (resources.length ≠ 2) (.invalidConfig "invalid package recovery resources")
  failIf (resources.map JournalResource.kind ≠ [.lib, .app])
    (.invalidConfig "invalid recovery resource")

def checkEntry (normalizeName : String → Option String) (count : Nat) (names : List String)
    (e : JournalEntry) : Except Error Unit := do
  validId normalizeName e.id
  failIf (e.id.name ∈ names ∨ ¬(e.directory = e.id.name ∨ e.directory = "" ∧ count = 1))
    (.invalidConfig "invalid recovery directory")
  checkResources e.resources

def checkEntries (normalizeName : String → Option String) (count : Nat) :
    List String → List JournalEntry → Except Error Unit
  | _, [] => .ok ()
  | names, e :: packages => do
      checkEntry normalizeName count names e
      checkEntries normalizeName count (e.id.name :: names) packages

def checkJournal (normalizeName : String → Option String) (size : List JournalEntry → Nat)
    (packages : List JournalEntry) : Except Error Unit := do
  failIf (journalLimit < size packages) (.invalidConfig "invalid package recovery journal")
  failIf (packages = [] ∨ 100 < packages.length) (.invalidConfig "invalid package recovery batch")
  checkEntries normalizeName packages.length [] packages

def recoverTarget (n : String) (t : Target) : Op γ Unit := do
  let w ← get
  let backup := (w.backup n t.directory t.kind).isSome
  let candidate := (w.candidate n t.directory t.kind).isSome
  doIf backup do
    removeTarget t
    renameBack n t
  doIf (!backup && (!t.old && t.new && !candidate)) (removeTarget t)

def recoverResource (n : String) (t : Target) : Op γ Unit := do
  let w ← get
  ofExcept (failIf (w.roots (rootOf t.id t.kind) = false) notFound)
  recoverTarget n t
  sync

def recoverEntry (n : String) (e : JournalEntry) : Op γ Unit := do
  let w ← get
  ofExcept (failIf ((w.member n e.directory).isSome = false) notFound)
  forEach (targets [e]) (recoverResource n)
  sync

/-- The serde error that a partly written journal gives. -/
def jsonError : Failure := .of (.invalidConfig "EOF while parsing a value at line 1 column 0")

def recoverStage (normalizeName : String → Option String) (size : List JournalEntry → Nat)
    (n : String) : Op γ Unit := do
  let w ← get
  match w.marker n with
  | none => pure ()
  | some .torn => throw jsonError
  | some (.complete packages) => do
      ofExcept ((checkJournal normalizeName size packages).mapError Failure.of)
      sync
      doIf (!committed w.db packages) (forEach packages (recoverEntry n))
      unlinkMarker n
      sync
      removeStage n
      sync

/-- `order` lists the directory. -/
def recoverPackageFiles (normalizeName : String → Option String)
    (size : List JournalEntry → Nat) (order : List String) : Op γ Unit :=
  forEach order (recoverStage normalizeName size)

/-- The directory listing misses no stage. -/
def Lists (order : List String) (w : World γ) : Prop :=
  ∀ m, (w.stages m).isSome = true → m ∈ order

/-- The journal of the stage belongs to a transaction that has not been committed. -/
def Uncommitted (w : World γ) (n : String) (packages : List JournalEntry) : Prop :=
  w.marker n = some (.complete packages) ∧ committed w.db packages = false

def Acts (w : World γ) (n : String) (t : Target) : Prop := (w.swap n t).acts t.old t.new = true

/-- Undoing the uncommitted journals brings back the files `goal`. -/
structure Recoverable (goal : Slot → Option γ) (w : World γ) : Prop where
  backups : ∀ n packages, Uncommitted w n packages → ∀ t ∈ targets packages,
    (w.swap n t).backup.isSome = true → t.old = true
  undo : ∀ n packages, Uncommitted w n packages → ∀ t ∈ targets packages, Acts w n t →
    (w.swap n t).backup = goal t.slot
  files : ∀ slot, w.runtime slot = goal slot ∨
    ∃ n packages t, Uncommitted w n packages ∧ t ∈ targets packages ∧ t.slot = slot ∧ Acts w n t

/-- A recovery at most removes journals, and it keeps the stages of those that are left. -/
structure Shrinks (w w' : World γ) : Prop where
  db : w'.db = w.db
  roots : w'.roots = w.roots
  sandbox : w'.sandbox = w.sandbox
  marker : ∀ n, w'.marker n = none ∨ w'.marker n = w.marker n ∧
    ∀ d, (w'.member n d).isSome = (w.member n d).isSome

section

variable {w w' w'' : World γ} {n : String} {t : Target} {goal : Slot → Option γ}
  {packages : List JournalEntry} {f : Swap γ → Swap γ}

theorem Shrinks.refl : Shrinks w w := ⟨rfl, rfl, rfl, fun _ => .inr ⟨rfl, fun _ => rfl⟩⟩

theorem Shrinks.trans (h : Shrinks w w') (h' : Shrinks w' w'') : Shrinks w w'' := by
  refine ⟨h'.db.trans h.db, h'.roots.trans h.roots, h'.sandbox.trans h.sandbox, fun n => ?_⟩
  obtain hnone | ⟨hmarker, hmember⟩ := h'.marker n
  · exact .inl hnone
  · obtain hnone | ⟨hmarker', hmember'⟩ := h.marker n
    · exact .inl (hmarker.trans hnone)
    · exact .inr ⟨hmarker.trans hmarker', fun d => (hmember d).trans (hmember' d)⟩

theorem Moved.shrinks (h : Moved n t f w w') : Shrinks w w' :=
  ⟨h.db, h.roots, h.sandbox, fun m => .inr ⟨h.marker m, h.members m⟩⟩

theorem marker_of_stages {m : String} (h : w'.stages m = w.stages m) : w'.marker m = w.marker m := by
  rw [World.marker, h, World.marker]

theorem member_of_stages {m : String} (h : w'.stages m = w.stages m) (d : String) :
    w'.member m d = w.member m d := by
  rw [World.member, h, World.member]

theorem Marked.shrinks (h : Marked n none w w') : Shrinks w w' := by
  refine ⟨h.db, h.roots, h.sandbox, fun m => ?_⟩
  by_cases hm : m = n
  · subst hm
    exact .inl h.marker
  · exact .inr ⟨marker_of_stages (h.stages m hm), fun d => by rw [h.member]⟩

theorem Reduced.shrinks (h : Reduced n w w') (hnone : w.marker n = none) : Shrinks w w' := by
  refine ⟨h.db, h.roots, h.sandbox, fun m => ?_⟩
  by_cases hm : m = n
  · subst hm
    obtain hmarker | hmarker := h.marker
    · exact .inl hmarker
    · exact .inl (hmarker.trans hnone)
  · exact .inr ⟨marker_of_stages (h.stages m hm), fun d => by
      rw [member_of_stages (h.stages m hm)]⟩

theorem Shrinks.uncommitted (h : Shrinks w w') {m : String} (hu : Uncommitted w' m packages) :
    Uncommitted w m packages := by
  obtain hnone | ⟨hmarker, -⟩ := h.marker m
  · rw [Uncommitted, hnone] at hu
    cases hu.1
  · rw [Uncommitted, hmarker, h.db] at hu
    exact hu

/-- The journal of the stage `n` is being undone; the targets `rest` are left. -/
structure Undoing (goal : Slot → Option γ) (n : String) (rest : List Target) (w : World γ) :
    Prop where
  backups : ∀ m packages, Uncommitted w m packages → ∀ t ∈ targets packages,
    (w.swap m t).backup.isSome = true → t.old = true
  undo : ∀ m packages, Uncommitted w m packages → ∀ t ∈ targets packages, Acts w m t →
    (w.swap m t).backup = goal t.slot
  files : ∀ slot, w.runtime slot = goal slot ∨ (∃ t ∈ rest, t.slot = slot ∧ Acts w n t) ∨
    ∃ m packages t, m ≠ n ∧ Uncommitted w m packages ∧ t ∈ targets packages ∧ t.slot = slot ∧
      Acts w m t

theorem Undoing.recoverable {rest : List Target} (h : Undoing goal n rest w)
    (hu : Uncommitted w n packages) (hrest : ∀ t ∈ rest, t ∈ targets packages) :
    Recoverable goal w := by
  refine ⟨h.backups, h.undo, fun slot => ?_⟩
  obtain hfile | ⟨t, ht, hslot, hacts⟩ | ⟨m, ps, t, -, hm, ht, hslot, hacts⟩ := h.files slot
  · exact .inl hfile
  · exact .inr ⟨n, packages, t, hu, hrest t ht, hslot, hacts⟩
  · exact .inr ⟨m, ps, t, hm, ht, hslot, hacts⟩

theorem Recoverable.undoing (h : Recoverable goal w) (hmarker : w.marker n = some (.complete packages)) :
    Undoing goal n (targets packages) w := by
  refine ⟨h.backups, h.undo, fun slot => ?_⟩
  obtain hfile | ⟨m, ps, t, hm, ht, hslot, hacts⟩ := h.files slot
  · exact .inl hfile
  · by_cases hmn : m = n
    · subst hmn
      have hps : ps = packages := by
        have := hm.1.symm.trans hmarker
        cases this
        rfl
      exact .inr (.inl ⟨t, hps ▸ ht, hslot, hacts⟩)
    · exact .inr (.inr ⟨m, ps, t, hmn, hm, ht, hslot, hacts⟩)

theorem Recoverable.undone (h : Recoverable goal w) (hmarker : w.marker n = some (.complete packages))
    (hc : committed w.db packages = true) : Undoing goal n [] w := by
  refine ⟨h.backups, h.undo, fun slot => ?_⟩
  obtain hfile | ⟨m, ps, t, hm, ht, hslot, hacts⟩ := h.files slot
  · exact .inl hfile
  · refine .inr (.inr ⟨m, ps, t, ?_, hm, ht, hslot, hacts⟩)
    rintro rfl
    have hps := hm.1.symm.trans hmarker
    cases hps
    rw [hm.2] at hc
    cases hc

theorem acts_congr {m : String} (hb : (w'.swap m t).backup = (w.swap m t).backup)
    (hc : (w'.swap m t).candidate = (w.swap m t).candidate) : Acts w' m t ↔ Acts w m t := by
  rw [Acts, Acts, Swap.acts, Swap.acts, hb, hc]

theorem Moved.uncommitted (h : Moved n t f w w') {m : String} :
    Uncommitted w' m packages ↔ Uncommitted w m packages := by
  rw [Uncommitted, Uncommitted, h.marker, h.db]

/-- Whether two targets of two stages have the same backup and candidate. -/
def SamePiece (m n : String) (t' t : Target) : Prop :=
  m = n ∧ t'.directory = t.directory ∧ t'.kind = t.kind

theorem Moved.pieces_eq (h : Moved n t f w w') {m : String} {t' : Target}
    (hne : ¬SamePiece m n t' t) : (w'.swap m t').backup = (w.swap m t').backup ∧
      (w'.swap m t').candidate = (w.swap m t').candidate :=
  h.pieces m t'.directory t'.kind hne

theorem backup_of_samePiece {m : String} {t' : Target} (h : SamePiece m n t' t) (w : World γ) :
    (w.swap m t').backup = (w.swap n t).backup := by
  obtain ⟨rfl, hd, hk⟩ := h
  simp [World.swap, hd, hk]

theorem Moved.discard_pieces {rest : Option γ} (h : Moved n t (Swap.discard rest) w w') (m : String)
    (t' : Target) : (w'.swap m t').backup = (w.swap m t').backup ∧
      (w'.swap m t').candidate = (w.swap m t').candidate := by
  by_cases hsame : SamePiece m n t' t
  · have hb := congrArg Swap.backup h.swap
    have hc := congrArg Swap.candidate h.swap
    obtain ⟨rfl, hd, hk⟩ := hsame
    simp only [World.swap, Swap.discard, ← hd, ← hk] at hb hc
    exact ⟨hb, hc⟩
  · exact h.pieces_eq hsame

theorem Undoing.discard {rest : List Target} {left : Option γ} (h : Undoing goal n rest w)
    (ht : t ∈ rest) (hacts : Acts w n t) (hm : Moved n t (Swap.discard left) w w') :
    Undoing goal n rest w' ∧ Acts w' n t := by
  have hact (m : String) (t' : Target) : Acts w' m t' ↔ Acts w m t' :=
    acts_congr (hm.discard_pieces m t').1 (hm.discard_pieces m t').2
  refine ⟨⟨fun m ps hu t' ht' hb => ?_, fun m ps hu t' ht' ha => ?_, fun slot => ?_⟩,
    (hact n t).mpr hacts⟩
  · rw [(hm.discard_pieces m t').1] at hb
    exact h.backups m ps (hm.uncommitted.mp hu) t' ht' hb
  · rw [(hm.discard_pieces m t').1]
    exact h.undo m ps (hm.uncommitted.mp hu) t' ht' ((hact m t').mp ha)
  · by_cases hslot : slot = t.slot
    · exact .inr (.inl ⟨t, ht, hslot.symm, (hact n t).mpr hacts⟩)
    · obtain hfile | ⟨t', ht', hs, ha⟩ | ⟨m, ps, t', hmn, hu, ht', hs, ha⟩ := h.files slot
      · exact .inl ((hm.runtime slot hslot).trans hfile)
      · exact .inr (.inl ⟨t', ht', hs, (hact n t').mpr ha⟩)
      · exact .inr (.inr ⟨m, ps, t', hmn, hm.uncommitted.mpr hu, ht', hs, (hact m t').mpr ha⟩)

theorem Undoing.tail {rest : List Target} (h : Undoing goal n (t :: rest) w)
    (ht : Acts w n t → w.runtime t.slot = goal t.slot) : Undoing goal n rest w := by
  refine ⟨h.backups, h.undo, fun slot => ?_⟩
  obtain hfile | ⟨t', ht', hs, ha⟩ | hother := h.files slot
  · exact .inl hfile
  · obtain rfl | ht' := List.mem_cons.mp ht'
    · subst hs
      exact .inl (ht ha)
    · exact .inr (.inl ⟨t', ht', hs, ha⟩)
  · exact .inr (.inr hother)

theorem Undoing.moveBack {rest : List Target} (h : Undoing goal n (t :: rest) w)
    (hu : Uncommitted w n packages) (ht : t ∈ targets packages)
    (hsep : ∀ t' ∈ rest, Separate t t') (hb : (w.swap n t).backup.isSome = true)
    (hm : Moved n t Swap.moveBack w w') : Undoing goal n rest w' := by
  have hgoal : (w.swap n t).backup = goal t.slot := h.undo n packages hu t ht (Swap.acts_of_backup hb)
  have hnone : (w'.swap n t).backup = none := congrArg Swap.backup hm.swap
  refine ⟨fun m ps hu' t' ht' hb' => ?_, fun m ps hu' t' ht' ha => ?_, fun slot => ?_⟩
  · by_cases hsame : SamePiece m n t' t
    · rw [backup_of_samePiece hsame, hnone] at hb'
      cases hb'
    · rw [(hm.pieces_eq hsame).1] at hb'
      exact h.backups m ps (hm.uncommitted.mp hu') t' ht' hb'
  · by_cases hsame : SamePiece m n t' t
    · have hold : t'.old = true := by
        refine h.backups m ps (hm.uncommitted.mp hu') t' ht' ?_
        rw [backup_of_samePiece hsame]
        exact hb
      rw [Acts, Swap.acts, backup_of_samePiece hsame, hnone, hold] at ha
      cases ha
    · have hpieces := hm.pieces_eq hsame
      rw [hpieces.1]
      exact h.undo m ps (hm.uncommitted.mp hu') t' ht' ((acts_congr hpieces.1 hpieces.2).mp ha)
  · by_cases hslot : slot = t.slot
    · subst hslot
      exact .inl ((congrArg Swap.live hm.swap).trans hgoal)
    · obtain hfile | ⟨t', ht', hs, ha⟩ | ⟨m, ps, t', hmn, hu', ht', hs, ha⟩ := h.files slot
      · exact .inl ((hm.runtime slot hslot).trans hfile)
      · obtain rfl | ht' := List.mem_cons.mp ht'
        · exact absurd hs.symm hslot
        · have hother := hm.other (hsep t' ht')
          exact .inr (.inl ⟨t', ht', hs, by rw [Acts, hother]; exact ha⟩)
      · have hother : ¬SamePiece m n t' t := fun hsame => hmn hsame.1
        have hpieces := hm.pieces_eq hother
        exact .inr (.inr ⟨m, ps, t', hmn, hm.uncommitted.mpr hu', ht', hs,
          (acts_congr hpieces.1 hpieces.2).mpr ha⟩)

end

section

variable {s : World γ} {n : String} {t : Target} {goal : Slot → Option γ}
  {packages : List JournalEntry} {rest : List Target}

/-- A recovery that started in `s` is undoing the journal of the stage `n`. -/
structure Step (goal : Slot → Option γ) (s : World γ) (n : String) (packages : List JournalEntry)
    (rest : List Target) (w : World γ) : Prop where
  undoing : Undoing goal n rest w
  uncommitted : Uncommitted w n packages
  shrinks : Shrinks s w

def Resumable (goal : Slot → Option γ) (s w : World γ) : Prop := Recoverable goal w ∧ Shrinks s w

theorem Step.resumable {w : World γ} (h : Step goal s n packages rest w)
    (hrest : ∀ t ∈ rest, t ∈ targets packages) : Resumable goal s w :=
  ⟨h.undoing.recoverable h.uncommitted hrest, h.shrinks⟩

theorem Step.member {w : World γ} (h : Step goal s n packages rest w) (d : String) :
    (w.member n d).isSome = (s.member n d).isSome := by
  obtain hnone | ⟨-, hmember⟩ := h.shrinks.marker n
  · have hmarker := h.uncommitted.1
    rw [hnone] at hmarker
    cases hmarker
  · exact hmember d

theorem recoverTarget_triple (hrest : ∀ t' ∈ t :: rest, t' ∈ targets packages)
    (hsep : ∀ t' ∈ rest, Separate t t') :
    Triple (Step goal s n packages (t :: rest)) (recoverTarget n t)
      (fun _ => Step goal s n packages rest) (fun _ => Resumable goal s) (Resumable goal s) := by
  have ht : t ∈ targets packages := hrest t List.mem_cons_self
  have hdiscard {w w' : World γ} {left : Option γ} (hw : Step goal s n packages (t :: rest) w)
      (hacts : Acts w n t) (hm : Moved n t (Swap.discard left) w w') :
      Step goal s n packages (t :: rest) w' ∧ Acts w' n t := by
    obtain ⟨hundoing, hacts'⟩ := hw.undoing.discard List.mem_cons_self hacts hm
    exact ⟨⟨hundoing, hm.uncommitted.mpr hw.uncommitted, hw.shrinks.trans hm.shrinks⟩, hacts'⟩
  refine Triple.get fun w hw => ?_
  cases hb : (w.backup n t.directory t.kind).isSome with
  | true =>
      have hacts : Acts w n t := Swap.acts_of_backup hb
      refine Triple.bind (R := fun _ => Step goal s n packages rest) (Triple.doIf (fun _ => ?_)
        fun h => by cases h) fun _ => Triple.doIf (fun h => by cases h) fun _ _ => id
      refine Triple.bind (R := fun _ w' => Step goal s n packages (t :: rest) w' ∧
        (w'.swap n t).backup.isSome = true) (removeTarget_triple (n := n) ?_ ?_) fun _ =>
          renameBack_triple (fun w' h => h.1.resumable hrest) ?_
      · rintro _ w' left rfl hm
        exact (hdiscard hw hacts hm).1.resumable hrest
      · rintro _ w' rfl hm
        refine ⟨(hdiscard hw hacts hm).1, ?_⟩
        rw [(hm.discard_pieces n t).1]
        exact hb
      · rintro w₁ w₂ ⟨h₁, hb₁⟩ hm
        exact ⟨h₁.undoing.moveBack h₁.uncommitted ht hsep hb₁ hm,
          hm.uncommitted.mpr h₁.uncommitted, h₁.shrinks.trans hm.shrinks⟩
  | false =>
      have hnone : (w.swap n t).backup = none := Option.not_isSome_iff_eq_none.mp (by
        rw [World.swap, hb]
        exact Bool.false_ne_true)
      refine Triple.bind (R := fun _ w' => w' = w) (Triple.doIf (fun h => by cases h)
        fun _ _ => id) fun _ => Triple.doIf (fun hacts => ?_) fun hacts => ?_
      · have hacts' : Acts w n t := by simpa [Acts, Swap.acts, World.swap, hb] using hacts
        refine removeTarget_triple (n := n) ?_ ?_
        · rintro _ w' left rfl hm
          exact (hdiscard hw hacts' hm).1.resumable hrest
        · rintro _ w' rfl hm
          obtain ⟨hstep, hacts''⟩ := hdiscard hw hacts' hm
          refine ⟨hstep.undoing.tail fun _ => ?_, hstep.uncommitted, hstep.shrinks⟩
          have hgoal := hstep.undoing.undo n packages hstep.uncommitted t ht hacts''
          rw [(hm.discard_pieces n t).1, hnone] at hgoal
          exact (congrArg Swap.live hm.swap).trans hgoal
      · rintro _ rfl
        refine ⟨hw.undoing.tail fun hacts' => ?_, hw.uncommitted, hw.shrinks⟩
        rw [Acts, Swap.acts] at hacts'
        simp_all [World.swap]

theorem recoverResource_triple (hrest : ∀ t' ∈ t :: rest, t' ∈ targets packages)
    (hsep : ∀ t' ∈ rest, Separate t t') :
    Triple (Step goal s n packages (t :: rest)) (recoverResource n t)
      (fun _ => Step goal s n packages rest) (fun _ => Resumable goal s) (Resumable goal s) := by
  refine Triple.get fun w hw => Triple.bind (R := fun _ w' => w' = w) (Triple.ofExcept ?_ ?_)
    fun _ => ?_
  · exact fun _ _ _ h => h
  · rintro _ _ - rfl
    exact hw.resumable hrest
  · refine Triple.pre (Triple.bind (recoverTarget_triple hrest hsep) fun _ =>
      triple_sync fun w h => h.resumable fun t' ht' => hrest t' (List.mem_cons_of_mem _ ht')) ?_
    rintro _ rfl
    exact hw

theorem targets_cons (e : JournalEntry) (packages : List JournalEntry) :
    targets (e :: packages) = targets [e] ++ targets packages := by
  simp [targets]

theorem targets_append (packages packages' : List JournalEntry) :
    targets (packages ++ packages') = targets packages ++ targets packages' := by
  simp [targets]

theorem recoverEntry_triple {before after : List JournalEntry} {e : JournalEntry}
    (hl : packages = before ++ e :: after) (hsep : (targets packages).Pairwise Separate) :
    Triple (Step goal s n packages (targets (e :: after))) (recoverEntry n e)
      (fun _ w => Step goal s n packages (targets after) w ∧ (s.member n e.directory).isSome = true)
      (fun _ => Resumable goal s) (Resumable goal s) := by
  have hsub : ∀ t ∈ targets (e :: after), t ∈ targets packages := by
    intro t ht
    rw [hl, targets_append]
    exact List.mem_append_right _ ht
  have hafter : ∀ t ∈ targets after, t ∈ targets packages := fun t ht =>
    hsub t (by rw [targets_cons]; exact List.mem_append_right _ ht)
  have hpair : (targets (e :: after)).Pairwise Separate := by
    rw [hl, targets_append] at hsep
    exact (List.pairwise_append.mp hsep).2.1
  have hloop : Triple (Step goal s n packages (targets (e :: after)))
      (forEach (targets [e]) (recoverResource n)) (fun _ => Step goal s n packages (targets after))
      (fun _ => Resumable goal s) (Resumable goal s) := by
    rw [targets_cons] at hsub hpair ⊢
    refine Triple.forEach (I := fun _ left => Step goal s n packages (left ++ targets after))
      fun done t left hsplit => ?_
    rw [hsplit, List.append_assoc, List.cons_append] at hpair
    refine recoverResource_triple (fun t' ht' => hsub t' ?_)
      (List.pairwise_cons.mp (List.pairwise_append.mp hpair).2.1).1
    rw [hsplit, List.append_assoc]
    exact List.mem_append_right _ ht'
  refine Triple.get fun w hw => Triple.bind (R := fun _ w' => w' = w ∧
    (s.member n e.directory).isSome = true) (Triple.ofExcept ?_ ?_) fun _ => Triple.intro ?_
  · rintro _ w' hok rfl
    refine ⟨rfl, ?_⟩
    rw [← hw.member]
    exact Bool.not_eq_false _ ▸ failIf_eq_ok.mp hok
  · rintro _ _ - rfl
    exact hw.resumable hsub
  · rintro w' ⟨hw', hmember⟩
    refine Triple.bind (R := fun _ => Step goal s n packages (targets after)) (hloop.pre ?_)
      fun _ => (triple_sync fun w h => h.resumable hafter).post fun _ w h => ⟨h, hmember⟩
    rintro _ rfl
    exact hw' ▸ hw

theorem recoverEntries_triple (hsep : (targets packages).Pairwise Separate) :
    Triple (Step goal s n packages (targets packages)) (forEach packages (recoverEntry n))
      (fun _ w => Step goal s n packages [] w ∧
        ∀ e ∈ packages, (s.member n e.directory).isSome = true)
      (fun _ => Resumable goal s) (Resumable goal s) := by
  refine (Triple.forEach (I := fun before after w => Step goal s n packages (targets after) w ∧
    ∀ e ∈ before, (s.member n e.directory).isSome = true) fun before e after hl =>
      Triple.intro fun w hw => ?_).pre fun w h => ⟨h, by simp⟩
  refine (recoverEntry_triple hl hsep).conseq ?_ ?_ (fun _ _ h => h) fun _ h => h
  · rintro _ rfl
    exact hw.1
  · rintro _ w' ⟨hstep, hmember⟩
    refine ⟨hstep, fun e' he' => ?_⟩
    obtain he' | he' := List.mem_append.mp he'
    · exact hw.2 e' he'
    · rw [List.mem_singleton.mp he']
      exact hmember

theorem checkEntries_ok {normalizeName : String → Option String} {count : Nat} {names : List String}
    (h : checkEntries normalizeName count names packages = .ok ()) :
    (packages.map fun e => e.id.name).Nodup ∧ ∀ e ∈ packages, e.id.name ∉ names ∧
      (e.directory = e.id.name ∨ e.directory = "" ∧ count = 1) ∧
      e.resources.map JournalResource.kind = [.lib, .app] := by
  induction packages generalizing names with
  | nil => simp
  | cons e packages ih =>
      obtain ⟨_, hentry, h⟩ := bind_eq_ok.mp h
      obtain ⟨_, -, hentry⟩ := bind_eq_ok.mp hentry
      obtain ⟨_, hdirectory, hentry⟩ := bind_eq_ok.mp hentry
      obtain ⟨_, -, hkinds⟩ := bind_eq_ok.mp hentry
      obtain ⟨hnodup, hall⟩ := ih h
      rw [failIf_eq_ok, not_or, not_not] at hdirectory
      rw [failIf_eq_ok, not_not] at hkinds
      refine ⟨?_, ?_⟩
      · rw [List.map_cons, List.nodup_cons]
        refine ⟨fun hin => ?_, hnodup⟩
        obtain ⟨e', he', hname⟩ := List.mem_map.mp hin
        exact (hall e' he').1 (hname ▸ List.mem_cons_self)
      · intro e' he'
        obtain rfl | he' := List.mem_cons.mp he'
        · exact ⟨hdirectory.1, hdirectory.2, hkinds⟩
        · exact ⟨fun hin => (hall e' he').1 (List.mem_cons_of_mem _ hin), (hall e' he').2⟩

/-- In an accepted journal no two resources share a file or a staging directory. -/
theorem checkJournal_separate {normalizeName : String → Option String}
    {size : List JournalEntry → Nat} (h : checkJournal normalizeName size packages = .ok ()) :
    (targets packages).Pairwise Separate := by
  obtain ⟨_, -, h⟩ := bind_eq_ok.mp h
  obtain ⟨_, -, h⟩ := bind_eq_ok.mp h
  obtain ⟨hnames, hall⟩ := checkEntries_ok h
  have hpair : packages.Pairwise fun e e' => e.id.name ≠ e'.id.name ∧ e.directory ≠ e'.directory := by
    have hne : packages.Pairwise fun e e' => e.id.name ≠ e'.id.name := List.pairwise_map.mp hnames
    refine hne.imp_of_mem fun {e e'} he he' hname => ⟨hname, ?_⟩
    have hcount : packages.length ≠ 1 := by
      intro hone
      obtain ⟨x, rfl⟩ := List.length_eq_one_iff.mp hone
      rw [List.mem_singleton.mp he, List.mem_singleton.mp he'] at hname
      exact hname rfl
    rw [((hall e he).2.1).resolve_right fun hd => hcount hd.2,
      ((hall e' he').2.1).resolve_right fun hd => hcount hd.2]
    exact hname
  rw [targets, List.pairwise_flatMap]
  refine ⟨fun e he => ?_, hpair.imp fun {e e'} hne => ?_⟩
  · have hkinds := (hall e he).2.2
    rw [List.pairwise_map]
    have hne : e.resources.Pairwise fun r r' => r.kind ≠ r'.kind := by
      rw [← List.pairwise_map (R := fun k k' => k ≠ k'), hkinds]
      simp
    refine hne.imp fun {r r'} hk => ⟨fun hslot => ?_, fun hd => hk hd.2⟩
    have hroot : rootOf e.id r.kind = rootOf e.id r'.kind := congrArg Slot.root hslot
    cases hr : r.kind with
    | lib =>
        cases hr' : r'.kind with
        | lib => exact hk (hr.trans hr'.symm)
        | app =>
            rw [hr, hr'] at hroot
            exact rootOf_ne hroot
    | app =>
        cases hr' : r'.kind with
        | lib =>
            rw [hr, hr'] at hroot
            exact rootOf_ne hroot.symm
        | app => exact hk (hr.trans hr'.symm)
  · simp only [List.mem_map]
    rintro _ ⟨r, -, rfl⟩ _ ⟨r', -, rfl⟩
    exact ⟨fun hslot => hne.1 (congrArg Slot.name hslot), fun hd => hne.2 hd.1⟩

theorem Undoing.unlinked {w w' : World γ} (h : Undoing goal n [] w) (hm : Marked n none w w') :
    Recoverable goal w' := by
  have huncommitted {m : String} {ps : List JournalEntry} (hu : Uncommitted w' m ps) :
      Uncommitted w m ps := hm.shrinks.uncommitted hu
  refine ⟨fun m ps hu t ht hb => ?_, fun m ps hu t ht ha => ?_, fun slot => ?_⟩
  · rw [hm.swap] at hb
    exact h.backups m ps (huncommitted hu) t ht hb
  · rw [Acts, hm.swap] at ha
    rw [hm.swap]
    exact h.undo m ps (huncommitted hu) t ht ha
  · rw [hm.runtime]
    obtain hfile | ⟨t, ht, -⟩ | ⟨m, ps, t, hmn, hu, ht, hs, ha⟩ := h.files slot
    · exact .inl hfile
    · cases ht
    · refine .inr ⟨m, ps, t, ?_, ht, hs, by rw [Acts, hm.swap]; exact ha⟩
      rw [Uncommitted, marker_of_stages (hm.stages m hmn), hm.db]
      exact hu

theorem swap_of_stages {w w' : World γ} {m : String} (h : w'.stages m = w.stages m)
    (hr : w'.runtime = w.runtime) (t : Target) : w'.swap m t = w.swap m t := by
  simp only [World.swap, backup, candidate, member_of_stages h, hr]

theorem Recoverable.reduced {w w' : World γ} (h : Recoverable goal w) (hnone : w.marker n = none)
    (hr : Reduced n w w') : Recoverable goal w' := by
  have hshrinks := hr.shrinks hnone
  have hother {m : String} {ps : List JournalEntry} (hu : Uncommitted w m ps) : m ≠ n := by
    rintro rfl
    rw [Uncommitted, hnone] at hu
    cases hu.1
  have hswap {m : String} {ps : List JournalEntry} (hu : Uncommitted w m ps) (t : Target) :
      w'.swap m t = w.swap m t := swap_of_stages (hr.stages m (hother hu)) hr.runtime t
  refine ⟨fun m ps hu t ht hb => ?_, fun m ps hu t ht ha => ?_, fun slot => ?_⟩
  · have hu' := hshrinks.uncommitted hu
    rw [hswap hu'] at hb
    exact h.backups m ps hu' t ht hb
  · have hu' := hshrinks.uncommitted hu
    rw [Acts, hswap hu'] at ha
    rw [hswap hu']
    exact h.undo m ps hu' t ht ha
  · rw [hr.runtime]
    obtain hfile | ⟨m, ps, t, hu, ht, hs, ha⟩ := h.files slot
    · exact .inl hfile
    · refine .inr ⟨m, ps, t, ?_, ht, hs, by rw [Acts, hswap hu]; exact ha⟩
      rw [Uncommitted, marker_of_stages (hr.stages m (hother hu)), hr.db]
      exact hu

/-- The recovery can read the journal, and finds the directories that it has to look into. -/
structure Readable (w : World γ) (n : String) : Prop where
  marker : w.marker n ≠ some .torn
  members : ∀ packages, Uncommitted w n packages →
    ∀ e ∈ packages, (w.member n e.directory).isSome = true

/-- One stage: whatever happens the recovery can be resumed, and a journal is gone at the end. -/
theorem recoverStage_triple {normalizeName : String → Option String}
    {size : List JournalEntry → Nat} (hs : Recoverable goal s) :
    Triple (fun w => w = s) (recoverStage normalizeName size n)
      (fun _ w => (Resumable goal s w ∧ w.marker n = none) ∧ Readable s n)
      (fun _ => Resumable goal s) (Resumable goal s) := by
  refine Triple.get fun w hw => ?_
  subst hw
  have hstart : Resumable goal w w := ⟨hs, .refl⟩
  cases hmarker : w.marker n with
  | none =>
      refine Triple.pure ?_
      rintro _ rfl
      refine ⟨⟨hstart, hmarker⟩, by simp [hmarker], fun packages hu => ?_⟩
      rw [Uncommitted, hmarker] at hu
      cases hu.1
  | some marker =>
      cases marker with
      | torn => exact Triple.throw fun _ h => h ▸ hstart
      | complete packages =>
          refine Triple.bind (R := fun _ w' => w' = w ∧
            checkJournal normalizeName size packages = .ok ()) (Triple.ofExcept ?_ ?_) fun _ =>
              Triple.bind (triple_sync (R := Resumable goal w) fun w' h => h.1 ▸ hstart) fun _ => ?_
          · rintro _ w' hok rfl
            refine ⟨rfl, ?_⟩
            cases hc : checkJournal normalizeName size packages with
            | ok _ => rfl
            | error e =>
                rw [hc] at hok
                cases hok
          · rintro _ w' - rfl
            exact hstart
          have hmembers (hall : committed w.db packages = false →
              ∀ e ∈ packages, (w.member n e.directory).isSome = true) : Readable w n := by
            refine ⟨by simp [hmarker], fun ps hu => ?_⟩
            obtain ⟨hps, hc⟩ := hu
            rw [hmarker] at hps
            cases hps
            exact hall hc
          refine Triple.bind (R := fun _ w' => (Undoing goal n [] w' ∧ Resumable goal w w') ∧
            Readable w n) (Triple.doIf (fun hc => ?_) fun hc => ?_) fun _ => Triple.intro ?_
          · refine Triple.intro ?_
            rintro w' ⟨hw', hcheck⟩
            rw [hw']
            have hu : Uncommitted w n packages := ⟨hmarker, by simpa using hc⟩
            refine (recoverEntries_triple (checkJournal_separate hcheck)).conseq ?_ ?_
              (fun _ _ h => h) fun _ h => h
            · rintro _ rfl
              exact ⟨hs.undoing hmarker, hu, .refl⟩
            · exact fun _ w' h => ⟨⟨h.1.undoing, h.1.resumable (by simp)⟩, hmembers fun _ => h.2⟩
          · rintro w' ⟨hw', -⟩
            rw [hw']
            refine ⟨⟨hs.undone hmarker (by simpa using hc), hstart⟩, hmembers fun hfalse => ?_⟩
            simp [hfalse] at hc
          rintro w₁ ⟨hw₁, hreadable⟩
          refine (Triple.bind (R := fun _ w' => Resumable goal w w' ∧ w'.marker n = none)
            (unlinkMarker_triple ?_ ?_) fun _ => Triple.bind (triple_sync fun w' h => h.1) fun _ =>
              Triple.bind (R := fun _ w' => Resumable goal w w' ∧ w'.marker n = none)
                (removeStage_triple ?_ ?_) fun _ => triple_sync fun w' h => h.1).post
                  fun _ _ h => ⟨h, hreadable⟩
          · rintro _ rfl
            exact hw₁.2
          · rintro _ w₂ rfl hm
            exact ⟨⟨hw₁.1.unlinked hm, hw₁.2.2.trans hm.shrinks⟩, hm.marker⟩
          · rintro w₁ w₂ ⟨hresumable, hnone⟩ hr
            exact ⟨hresumable.1.reduced hnone hr, hresumable.2.trans (hr.shrinks hnone)⟩
          · rintro w₁ w₂ ⟨hresumable, hnone⟩ hr hgone
            refine ⟨⟨hresumable.1.reduced hnone hr, hresumable.2.trans (hr.shrinks hnone)⟩, ?_⟩
            simp [World.marker, hgone]

/-- A recovery that returns has removed the journals it has found. -/
theorem recoverPackageFiles_triple {normalizeName : String → Option String}
    {size : List JournalEntry → Nat} {order : List String} (hs : Recoverable goal s) :
    Triple (fun w => w = s) (recoverPackageFiles normalizeName size order)
      (fun _ w => Resumable goal s w ∧ ∀ n ∈ order, w.marker n = none)
      (fun _ => Resumable goal s) (Resumable goal s) := by
  refine (Triple.forEach (I := fun before _ w => Resumable goal s w ∧ ∀ n ∈ before, w.marker n = none)
    fun before n after _ => Triple.intro fun w hw => ?_).pre ?_
  · obtain ⟨⟨hw, hshrinks⟩, hgone⟩ := hw
    refine (recoverStage_triple hw).conseq (fun _ => id) ?_
      (fun _ w' h => ⟨h.1, hshrinks.trans h.2⟩) fun w' h => ⟨h.1, hshrinks.trans h.2⟩
    rintro _ w' ⟨⟨⟨hw', hshrinks'⟩, hnone⟩, -⟩
    refine ⟨⟨hw', hshrinks.trans hshrinks'⟩, fun m hm => ?_⟩
    obtain hm | hm := List.mem_append.mp hm
    · obtain hmarker | ⟨hmarker, -⟩ := hshrinks'.marker m
      · exact hmarker
      · exact hmarker.trans (hgone m hm)
    · rw [List.mem_singleton.mp hm]
      exact hnone
  · rintro _ rfl
    exact ⟨⟨hs, .refl⟩, by simp⟩

theorem Recoverable.files_of_none {w : World γ} (h : Recoverable goal w)
    (hnone : ∀ n, w.marker n = none) : w.runtime = goal := by
  funext slot
  obtain hfile | ⟨m, ps, t, hu, -⟩ := h.files slot
  · exact hfile
  · rw [Uncommitted, hnone] at hu
    cases hu.1

end

end Pishoo.PackageFiles
