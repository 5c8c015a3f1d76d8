import Pishoo.DependencyGraph
import Pishoo.Entry

namespace Pishoo.CommitDiscriminator

open Result Registry Registration Entry Machine

inductive Operation
  | install (sandbox : Sandbox) (items : List Item) (now : String → Int)
  | remove (id : Id)

/-- The packages of the journal and the registry inside the transaction of an operation. -/
def prepared (normalizeName : String → Option String) (r : Registry) :
    Operation → Except Error (List Id × Registry)
  | .install sandbox items now => do
      acceptBatch sandbox items
      let tx ← installTx normalizeName r sandbox items now
      .ok (tx.1.map Release.id, tx.2)
  | .remove id => do
      failIf (r.registered id = none) .routeNotFound
      let r' ← removeTx r id
      .ok ([id], r')

/-- The decision of the recovery, in the registry `r`, about a journal written inside `r'`. -/
def committed (r r' : Registry) (ids : List Id) : Bool :=
  ids.all (fun id => matchesFacts r id.name (registrationFacts r' id.name))

/-- The transaction shows in the facts of some package of the journal, so that a journal of a
transaction that was not committed is taken as uncommitted. -/
def Sound (r r' : Registry) (ids : List Id) : Prop :=
  (∃ id ∈ ids, registrationFacts r' id.name ≠ registrationFacts r id.name) ∧
    committed r r' ids = false

/-- The release is registered already with the same declarations, and its row was upgraded at the
reading `now` of the clock. -/
structure Repeats (r : Registry) (rel : Release) (now : Int) : Prop where
  row : ∃ p, r.package rel.id.name = some p ∧ upgrade rel.row now p = p
  dependencies : ∀ d, d ∈ r.dependencies ∧ d.packageName = rel.id.name ↔
    d ∈ declaredDependencies rel.id rel.dependencies
  groups : ∃ groups, groupRows rel = .ok groups ∧
    (∀ c, c ∈ r.capabilities ∧ c.libName = rel.id.name ↔
      c ∈ declaredCapabilities rel.id.name groups) ∧
    ∀ o, o ∈ r.operations ∧ o.libName = rel.id.name ↔ o ∈ declaredOperations rel.id.name groups

/-- Every member of the batch is left as it is, or repeats its registration. -/
def RepeatedItems (r : Registry) (sandbox : Sandbox) (now : String → Int) : List Item → Prop
  | [] => True
  | item :: items =>
      (∀ rel, item.evidence = .ok rel →
        (items ≠ [] ∧ ∃ p, r.registered item.id = some p ∧ reused sandbox p rel = true) ∨
          Repeats r rel (now rel.id.name)) ∧
        RepeatedItems r sandbox now items

def Repeated (r : Registry) : Operation → Prop
  | .install sandbox items now => RepeatedItems r sandbox now items
  | .remove _ => False

section

variable {normalizeName : String → Option String} {r r' : Registry} {sandbox : Sandbox}
  {now : String → Int} {items : List Item} {changed : List Release} {rel : Release}

theorem examine_ok {seen : List String} {last : Bool} {item : Item} {out : Option Release}
    (h : examine normalizeName r sandbox seen last item = .ok out) :
    item.id.name ∉ seen ∧ ∃ rel, item.evidence = .ok rel ∧ rel.id = item.id ∧
      out = if !last && (r.registered item.id).any (fun p => reused sandbox p rel) then none
        else some rel := by
  obtain ⟨_, -, h⟩ := bind_eq_ok.mp h
  obtain ⟨_, hseen, h⟩ := bind_eq_ok.mp h
  obtain ⟨_, -, h⟩ := bind_eq_ok.mp h
  obtain ⟨_, -, h⟩ := bind_eq_ok.mp h
  obtain ⟨rel, hrel, h⟩ := bind_eq_ok.mp h
  obtain ⟨_, hid, h⟩ := bind_eq_ok.mp h
  obtain ⟨_, -, h⟩ := bind_eq_ok.mp h
  obtain ⟨_, -, h⟩ := bind_eq_ok.mp h
  refine ⟨fun hin => failIf_eq_ok.mp hseen (.inr hin), rel, hrel,
    not_not.mp (failIf_eq_ok.mp hid), ?_⟩
  split at h
  · rename_i hreused
    cases h
    rw [if_pos hreused]
  · rename_i hreused
    obtain ⟨_, -, h⟩ := bind_eq_ok.mp h
    obtain ⟨_, -, h⟩ := bind_eq_ok.mp h
    cases h
    rw [if_neg hreused]

theorem examineAll_names {seen : List String}
    (h : examineAll normalizeName r sandbox seen items = .ok changed) :
    (changed.map (fun rel => rel.id.name)).Nodup ∧
      ∀ rel ∈ changed, rel.id.name ∉ seen := by
  induction items generalizing seen changed with
  | nil =>
      cases h
      simp
  | cons item items ih =>
      obtain ⟨out, hout, h⟩ := bind_eq_ok.mp h
      obtain ⟨rels, hrels, h⟩ := bind_eq_ok.mp h
      cases h
      obtain ⟨hnodup, hseen⟩ := ih hrels
      obtain ⟨hnew, rel, -, hid, rfl⟩ := examine_ok hout
      have hrest : ∀ rel ∈ rels, rel.id.name ∉ seen := fun rel hm hin =>
        hseen rel hm (List.mem_cons_of_mem _ hin)
      split
      · exact ⟨hnodup, hrest⟩
      · simp only [Option.toList_some, List.singleton_append, List.map_cons, List.nodup_cons,
          List.mem_map, List.forall_mem_cons, hid]
        refine ⟨⟨?_, hnodup⟩, hnew, hrest⟩
        rintro ⟨other, hm, hname⟩
        exact hseen other hm (hname ▸ List.mem_cons_self)

/-- The changed members are those that the condition on the batch speaks about. -/
theorem repeatedItems_iff {seen : List String}
    (h : examineAll normalizeName r sandbox seen items = .ok changed) :
    RepeatedItems r sandbox now items ↔ ∀ rel ∈ changed, Repeats r rel (now rel.id.name) := by
  induction items generalizing seen changed with
  | nil =>
      cases h
      simp [RepeatedItems]
  | cons item items ih =>
      obtain ⟨out, hout, h⟩ := bind_eq_ok.mp h
      obtain ⟨rels, hrels, h⟩ := bind_eq_ok.mp h
      cases h
      obtain ⟨-, rel, hrel, hid, rfl⟩ := examine_ok hout
      rw [RepeatedItems, ih hrels]
      have hskip : (!items.isEmpty && (r.registered item.id).any (fun p => reused sandbox p rel)) =
          true ↔ items ≠ [] ∧ ∃ p, r.registered item.id = some p ∧ reused sandbox p rel = true := by
        rw [Bool.and_eq_true]
        refine and_congr (by simp) ?_
        cases r.registered item.id with
        | none => simp
        | some p => simp
      split
      · rename_i hreused
        have hleft : ∀ rel', item.evidence = .ok rel' →
            (items ≠ [] ∧ ∃ p, r.registered item.id = some p ∧ reused sandbox p rel' = true) ∨
              Repeats r rel' (now rel'.id.name) := by
          intro rel' hrel'
          obtain rfl : rel = rel' := by simpa [hrel] using hrel'
          exact .inl (hskip.mp hreused)
        rw [Option.toList_none, List.nil_append]
        exact and_iff_right hleft
      · rename_i hreused
        rw [hskip] at hreused
        simp only [Option.toList_some, List.singleton_append, List.forall_mem_cons]
        refine and_congr_left fun _ => ⟨fun hall => ?_, fun hrep rel' hrel' => ?_⟩
        · exact (hall rel hrel).resolve_left hreused
        · obtain rfl : rel = rel' := by simpa [hrel] using hrel'
          exact .inr hrep

theorem saved_facts_iff (h : saveAll r changed now = .ok r')
    (hnames : (changed.map (fun rel => rel.id.name)).Nodup) (hrel : rel ∈ changed) :
    registrationFacts r' rel.id.name = registrationFacts r rel.id.name ↔
      Repeats r rel (now rel.id.name) := by
  obtain ⟨groups, hg, hentry⟩ := saveAll_entry h hnames hrel
  rw [eq_comm, registrationFacts_eq_iff, hentry]
  constructor
  · rintro ⟨hp, hd, hc, ho⟩
    simp only [mem_dependencies, mem_capabilities, mem_operations] at hd hc ho
    refine ⟨?_, hd, groups, hg, hc, ho⟩
    cases hrow : r.package rel.id.name with
    | none => simp [Registry.entry, hrow] at hp
    | some p =>
        refine ⟨p, rfl, ?_⟩
        simpa [Registry.entry, hrow, eq_comm] using hp
  · rintro ⟨⟨p, hrow, hp⟩, hd, groups', hg', hc, ho⟩
    rw [hg] at hg'
    cases hg'
    refine ⟨?_, fun d => ?_, fun c => ?_, fun o => ?_⟩
    · simp [Registry.entry, hrow, hp]
    · rw [mem_dependencies, hd]
    · rw [mem_capabilities, hc]
    · rw [mem_operations, ho]

theorem matches_saved (h : saveAll r changed now = .ok r')
    (hnames : (changed.map (fun rel => rel.id.name)).Nodup) (hrel : rel ∈ changed) :
    matchesFacts r rel.id.name (registrationFacts r' rel.id.name) = true ↔
      Repeats r rel (now rel.id.name) := by
  rw [matchesFacts_iff, saved_facts_iff h hnames hrel]

theorem install_sound_iff {seen : List String}
    (hexamine : examineAll normalizeName r sandbox seen items = .ok changed)
    (hsave : saveAll r changed now = .ok r') :
    Sound r r' (changed.map Release.id) ↔ ¬RepeatedItems r sandbox now items := by
  have hnames := (examineAll_names hexamine).1
  have hfacts : (∃ id ∈ changed.map Release.id,
      registrationFacts r' id.name ≠ registrationFacts r id.name) ↔
      ¬∀ rel ∈ changed, Repeats r rel (now rel.id.name) := by
    push Not
    constructor
    · rintro ⟨id, hid, hne⟩
      obtain ⟨rel, hrel, rfl⟩ := List.mem_map.mp hid
      exact ⟨rel, hrel, fun hrep => hne ((saved_facts_iff hsave hnames hrel).mpr hrep)⟩
    · rintro ⟨rel, hrel, hrep⟩
      exact ⟨rel.id, List.mem_map_of_mem hrel,
        fun heq => hrep ((saved_facts_iff hsave hnames hrel).mp heq)⟩
  have hcommitted : committed r r' (changed.map Release.id) = true ↔
      ∀ rel ∈ changed, Repeats r rel (now rel.id.name) := by
    rw [committed, List.all_eq_true, List.forall_mem_map]
    exact forall₂_congr fun rel hrel => matches_saved hsave hnames hrel
  rw [Sound, hfacts, ← Bool.not_eq_true, hcommitted, and_self, repeatedItems_iff hexamine]

theorem remove_sound {id : Id} {p : Package} (hp : r.registered id = some p)
    (h : removeTx r id = .ok r') : Sound r r' [id] := by
  have hrow := (registered_eq_some.mp hp).1
  have hne : registrationFacts r' id.name ≠ registrationFacts r id.name := by
    intro heq
    have := congrArg Facts.package heq
    rw [registrationFacts, factsWith_eq, removeTx_entry h] at this
    simp [facts, factsWith, hrow] at this
  refine ⟨⟨id, List.mem_singleton_self id, hne⟩, ?_⟩
  have hmatch := (matchesFacts_iff r r' id.name).not.mpr hne
  simpa [committed] using hmatch

end

/-- The facts tell a committed transaction from one that was not committed exactly if the operation
is not the repetition of an installation within the same second. -/
theorem discriminator_sound_iff {normalizeName : String → Option String} {r r' : Registry}
    {op : Operation} {ids : List Id} (h : prepared normalizeName r op = .ok (ids, r')) :
    Sound r r' ids ↔ ¬Repeated r op := by
  cases op with
  | install sandbox items now =>
      obtain ⟨_, -, h⟩ := bind_eq_ok.mp h
      obtain ⟨tx, htx, h⟩ := bind_eq_ok.mp h
      cases h
      obtain ⟨changed, hexamine, htx⟩ := bind_eq_ok.mp htx
      obtain ⟨r', hsave, htx⟩ := bind_eq_ok.mp htx
      cases htx
      exact install_sound_iff hexamine hsave
  | remove id =>
      obtain ⟨_, hreg, h⟩ := bind_eq_ok.mp h
      obtain ⟨r', hremove, h⟩ := bind_eq_ok.mp h
      cases h
      obtain ⟨p, hp⟩ := Option.ne_none_iff_exists'.mp (failIf_eq_ok.mp hreg)
      exact iff_of_true (remove_sound hp hremove) not_false

def loaded : Sandbox :=
  ⟨fun id => if id = ⟨some "alice.example", "base"⟩ then some "1.0.0" else none, fun _ => none,
    false⟩

/-- The installation of one library at the second 100. -/
def sampleInstall : Operation :=
  .install loaded [sampleItem "base" "1.0.0" []] (fun _ => 100)

theorem discriminator_sound_iff_empty :
    ∃ ids r', prepared some Registry.empty sampleInstall = .ok (ids, r') ∧
      (Sound Registry.empty r' ids ↔ ¬Repeated Registry.empty sampleInstall) := by
  cases h : prepared some Registry.empty sampleInstall with
  | error e =>
      have hok : (prepared some Registry.empty sampleInstall).isOk = true := by decide
      rw [h] at hok
      cases hok
  | ok out => exact ⟨out.1, out.2, rfl, discriminator_sound_iff h⟩

def sampleInstalls : List DependencyGraph.Event :=
  [.install .empty [sampleItem "base" "1.0.0" []] (fun _ => 100) true,
    .install loaded [sampleItem "base" "1.0.0" []] (fun _ => 100) true]

def installedTwice : Registry :=
  (run (DependencyGraph.step some) Free Registry.empty sampleInstalls).getD Registry.empty

/-- The third installation of one release within a second leaves all facts as they were. -/
theorem discriminator_unsound :
    ∃ r r' ids, Trace (DependencyGraph.step some) Free Registry.empty sampleInstalls r ∧
      prepared some r sampleInstall = .ok (ids, r') ∧ committed r r' ids = true ∧
        ¬Sound r r' ids := by
  have hrun : run (DependencyGraph.step some) Free Registry.empty sampleInstalls =
      some installedTwice := by
    rfl
  cases h : prepared some installedTwice sampleInstall with
  | error e =>
      have hok : (prepared some installedTwice sampleInstall).isOk = true := by decide
      rw [h] at hok
      cases hok
  | ok out =>
      have hcommitted : committed installedTwice out.2 out.1 = true := by
        cases h
        decide
      refine ⟨installedTwice, out.2, out.1, trace_of_run hrun, h, hcommitted, fun hsound => ?_⟩
      rw [hsound.2] at hcommitted
      cases hcommitted

end Pishoo.CommitDiscriminator
