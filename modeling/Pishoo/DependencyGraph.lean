import Pishoo.Machine
import Pishoo.Registration

namespace Pishoo.DependencyGraph

open Result Registry Registration Machine

/-- Every edge pins the version that is installed, and the edges have no cycle. -/
structure Integrity (r : Registry) : Prop where
  pinned : ∀ d ∈ r.dependencies, ∃ p, r.package d.dependencyName = some p ∧ p.version = d.version
  acyclic : Digraph.Acyclic (Digraph.Edge (edges r))

section

variable {r r' : Registry} {id dependency : Id} {rel : Release} {now : Int}

theorem edge_iff {a b : String} :
    Digraph.Edge (edges r) a b ↔ ∃ d ∈ r.dependencies, d.packageName = a ∧ d.dependencyName = b := by
  simp [Digraph.Edge, edges, PackageDependency.key]

theorem Integrity.of_subset (hi : Integrity r)
    (hp : ∀ d ∈ r'.dependencies, r'.package d.dependencyName = r.package d.dependencyName)
    (hd : ∀ d ∈ r'.dependencies, d ∈ r.dependencies) : Integrity r' := by
  constructor
  · intro d hm
    rw [hp d hm]
    exact hi.pinned d (hd d hm)
  · refine hi.acyclic.mono fun a b h => ?_
    obtain ⟨d, hm, ha, hb⟩ := edge_iff.mp h
    exact edge_iff.mpr ⟨d, hd d hm, ha, hb⟩

theorem Integrity.of_same (hi : Integrity r) (hp : r'.packages = r.packages)
    (hd : r'.dependencies = r.dependencies) : Integrity r' :=
  hi.of_subset (fun _ _ => package_congr hp _) (fun _ h => hd ▸ h)

theorem mem_of_mem_deleteWhere {α : Type} {p : α → Bool} {rows : List α} {x : α}
    (h : x ∈ Rows.deleteWhere p rows) : x ∈ rows :=
  (List.mem_filter.mp h).1

theorem deleteDependencies_integrity {name : String} (hi : Integrity r)
    (h : r.deleteDependencies name = .ok r') : Integrity r' := by
  obtain ⟨hp, hd, -, -⟩ := deleteDependencies_eq h
  exact hi.of_subset (fun _ _ => package_congr hp _) fun d hm => mem_of_mem_deleteWhere (hd ▸ hm)

/-- The search rejects an edge exactly if it would close a cycle. -/
theorem checkDependencyCycle_iff (h : Digraph.Acyclic (Digraph.Edge (edges r))) :
    checkDependencyCycle r id dependency = .ok () ↔
      Digraph.Acyclic (Digraph.Insert (Digraph.Edge (edges r)) id.name dependency.name) := by
  rw [checkDependencyCycle, failIf_eq_ok, Digraph.search_iff, Digraph.acyclic_insert_iff h]

theorem saveDependency_integrity {dep : Dependency} (hi : Integrity r)
    (h : saveDependency id r dep = .ok r') : Integrity r' := by
  obtain ⟨_, hmatch, h⟩ := bind_eq_ok.mp h
  obtain ⟨_, hcycle, h⟩ := bind_eq_ok.mp h
  obtain ⟨hp, hd, -, -⟩ := insertDependency_eq h
  constructor
  · intro d hm
    rw [package_congr hp]
    rw [hd] at hm
    obtain hm | hm := List.mem_append.mp hm
    · exact hi.pinned d hm
    · obtain rfl := List.mem_singleton.mp hm
      obtain ⟨p, hpm, hinst⟩ : ∃ p ∈ r.packages, installedAs dep p = true := by
        simpa using failIf_eq_ok.mp hmatch
      simp only [installedAs, Bool.and_eq_true, beq_iff_eq] at hinst
      exact ⟨p, package_eq_some.mpr ⟨hpm, hinst.1.2⟩, hinst.2⟩
  · refine ((checkDependencyCycle_iff hi.acyclic).mp hcycle).mono fun a b hab => ?_
    obtain ⟨d, hm, rfl, rfl⟩ := edge_iff.mp hab
    rw [hd] at hm
    obtain hm | hm := List.mem_append.mp hm
    · exact .inl (edge_iff.mpr ⟨d, hm, rfl, rfl⟩)
    · obtain rfl := List.mem_singleton.mp hm
      exact .inr ⟨rfl, rfl⟩

/-- A new version is written only when no installed package pins another one. -/
theorem upsertPackage_integrity (hi : Integrity r) (hreq : required r rel = [])
    (h : r.upsertPackage rel.row now = .ok r') : Integrity r' := by
  obtain ⟨hd, -, -⟩ := upsertPackage_rest h
  constructor
  · intro d hm
    rw [upsertPackage_package h]
    rw [hd] at hm
    split
    · rename_i hn
      have hver : d.version = rel.version := by
        by_contra hne
        have hname : d.dependencyName = rel.id.name := hn
        have : d ∈ required r rel := by simp [required, hm, hne, hname]
        rw [hreq] at this
        cases this
      refine ⟨_, rfl, ?_⟩
      rw [hver]
      cases r.package rel.row.name <;> rfl
    · exact hi.pinned d hm
  · have he : edges r' = edges r := by rw [edges, hd, edges]
    rw [he]
    exact hi.acyclic

theorem permissions_same {name : String} {groups : List GroupRow}
    (h : permissions r name groups = .ok r') :
    r'.packages = r.packages ∧ r'.dependencies = r.dependencies := by
  obtain ⟨r₀, h₀, h⟩ := bind_eq_ok.mp h
  obtain ⟨hp₀, hd₀, -, -⟩ := deleteCapabilities_eq h₀
  refine foldlM_invariant (P := fun s : Registry =>
    s.packages = r.packages ∧ s.dependencies = r.dependencies) h ⟨hp₀, hd₀⟩ ?_
  rintro g - s s' ⟨hp, hd⟩ hs
  obtain ⟨s₁, h₁, hs⟩ := bind_eq_ok.mp hs
  obtain ⟨hp₁, hd₁, -, -⟩ := insertCapability_eq h₁
  refine foldlM_invariant (P := fun s : Registry =>
    s.packages = r.packages ∧ s.dependencies = r.dependencies) hs
    ⟨hp₁.trans hp, hd₁.trans hd⟩ ?_
  rintro e - t t' ⟨hp, hd⟩ ht
  obtain ⟨hp₂, hd₂, -, -⟩ := insertOperation_eq ht
  exact ⟨hp₂.trans hp, hd₂.trans hd⟩

theorem saveRegistration_integrity (hi : Integrity r) (h : saveRegistration r rel now = .ok r') :
    Integrity r' := by
  obtain ⟨_, -, h⟩ := bind_eq_ok.mp h
  obtain ⟨_, -, h⟩ := bind_eq_ok.mp h
  obtain ⟨_, hreq, h⟩ := bind_eq_ok.mp h
  obtain ⟨r₁, h₁, h⟩ := bind_eq_ok.mp h
  obtain ⟨r₂, h₂, h⟩ := bind_eq_ok.mp h
  obtain ⟨r₃, h₃, h⟩ := bind_eq_ok.mp h
  obtain ⟨groups, -, h⟩ := bind_eq_ok.mp h
  have hnone : required r rel = [] := not_not.mp (failIf_eq_ok.mp hreq)
  have hi₂ := deleteDependencies_integrity (upsertPackage_integrity hi hnone h₁) h₂
  have hi₃ : Integrity r₃ := foldlM_invariant h₃ hi₂ fun _ _ _ _ => saveDependency_integrity
  obtain ⟨hp, hd⟩ := permissions_same h
  exact hi₃.of_same hp hd

theorem saveAll_integrity {changed : List Release} {clock : String → Int} (hi : Integrity r)
    (h : saveAll r changed clock = .ok r') : Integrity r' := by
  obtain ⟨r₀, h₀, h⟩ := bind_eq_ok.mp h
  have hi₀ : Integrity r₀ := foldlM_invariant h₀ hi fun _ _ _ _ => deleteDependencies_integrity
  exact foldlM_invariant h hi₀ fun _ _ _ _ => saveRegistration_integrity

theorem removeTx_integrity (hi : Integrity r) (h : removeTx r id = .ok r') : Integrity r' := by
  obtain ⟨_, -, h⟩ := bind_eq_ok.mp h
  obtain ⟨r₀, h₀, h⟩ := bind_eq_ok.mp h
  obtain ⟨hp, hd⟩ := permissions_same h₀
  refine (hi.of_same hp hd).of_subset (fun d hm => ?_) fun d hm => ?_
  · rw [deletePackage_package h, if_neg]
    rintro hn
    -- the row of `d.dependencyName` is still there, for the foreign key has held
    obtain ⟨p, hpm, hpn⟩ := List.mem_map.mp (r'.valid.targets d hm)
    have hsome : r'.package d.dependencyName = some p := package_eq_some.mpr ⟨hpm, hpn⟩
    rw [deletePackage_package h, if_pos hn] at hsome
    cases hsome
  · rw [deletePackage_dependencies h] at hm
    exact mem_of_mem_deleteWhere hm

theorem migrateRegistration_integrity (hi : Integrity r) (h : migrateRegistration r = .ok r') :
    Integrity r' := by
  obtain ⟨r₀, h₀, h⟩ := bind_eq_ok.mp h
  obtain ⟨_, -, h⟩ := bind_eq_ok.mp h
  cases h
  have ht := stored_ok h₀
  exact hi.of_same (by rw [ht]) (by rw [ht])

theorem transferAuthor_package {t : Transfer} (h : transferAuthor r t = .ok r') (name : String) :
    r'.package name = (r.package name).map (fun p => if p.name == t.name then transferred t p
      else p) := by
  rw [package, stored_ok h]
  have hname (p : Package) : (transferred t p).name = p.name := rfl
  exact Rows.select_updateWhere (fun p => p.name == t.name) (transferred t) hname name

theorem transferAuthor_integrity {t : Transfer} (hi : Integrity r)
    (h : transferAuthor r t = .ok r') : Integrity r' := by
  have hd : r'.dependencies = r.dependencies := by rw [stored_ok h]
  constructor
  · intro d hm
    obtain ⟨p, hp, hv⟩ := hi.pinned d (hd ▸ hm)
    rw [transferAuthor_package h, hp, Option.map_some]
    refine ⟨_, rfl, ?_⟩
    split
    · exact hv
    · exact hv
  · have he : edges r' = edges r := by rw [edges, hd, edges]
    rw [he]
    exact hi.acyclic

end

/-- What writes the registry. A call that fails after its transaction has been prepared, while it
stages or switches files, has `finished` false. -/
inductive Event
  | install (sandbox : Sandbox) (items : List Item) (now : String → Int) (finished : Bool)
  | remove (id : Id) (finished : Bool)
  | transfer (group : List Transfer)

def accepted (r : Registry) (sandbox : Sandbox) (items : List Item) : Except Error Registry := do
  acceptBatch sandbox items
  migrateRegistration r

def committed (r : Registry) : Except Error Registry → Registry
  | .ok r' => r'
  | .error _ => r

def step (normalizeName : String → Option String) (r : Registry) : Event → Option Registry
  | .install sandbox items now finished => some <| match accepted r sandbox items with
      | .error _ => r
      | .ok r₀ =>
          if finished then
            committed r₀ ((installTx normalizeName r₀ sandbox items now).map Prod.snd)
          else r₀
  | .remove id finished => some <| match migrateRegistration r with
      | .error _ => r
      | .ok r₀ => if finished && (r₀.registered id).isSome then committed r₀ (removeTx r₀ id) else r₀
  | .transfer group => some <| match migrateRegistration r with
      | .error _ => r
      | .ok r₀ => committed r₀ (group.foldlM transferAuthor r₀)

theorem committed_integrity {r : Registry} {x : Except Error Registry} (hi : Integrity r)
    (hx : ∀ r', x = .ok r' → Integrity r') : Integrity (committed r x) := by
  cases x with
  | error e => exact hi
  | ok r' => exact hx r' rfl

theorem step_integrity {normalizeName : String → Option String} {r r' : Registry} {e : Event}
    (hi : Integrity r) (h : step normalizeName r e = some r') : Integrity r' := by
  cases e with
  | install sandbox items now finished =>
      simp only [step, Option.some.injEq] at h
      subst h
      split
      · exact hi
      · rename_i r₀ h₀
        obtain ⟨_, -, h₀⟩ := bind_eq_ok.mp h₀
        have hi₀ := migrateRegistration_integrity hi h₀
        split
        · refine committed_integrity hi₀ fun r' hr' => ?_
          cases hx : installTx normalizeName r₀ sandbox items now with
          | error e => rw [hx] at hr'; cases hr'
          | ok p =>
              rw [hx] at hr'
              cases hr'
              obtain ⟨changed, -, h⟩ := bind_eq_ok.mp hx
              obtain ⟨r₁, h₁, h⟩ := bind_eq_ok.mp h
              cases h
              exact saveAll_integrity hi₀ h₁
        · exact hi₀
  | remove id finished =>
      simp only [step, Option.some.injEq] at h
      subst h
      split
      · exact hi
      · rename_i r₀ h₀
        have hi₀ := migrateRegistration_integrity hi h₀
        split
        · exact committed_integrity hi₀ fun _ => removeTx_integrity hi₀
        · exact hi₀
  | transfer group =>
      simp only [step, Option.some.injEq] at h
      subst h
      split
      · exact hi
      · rename_i r₀ h₀
        have hi₀ := migrateRegistration_integrity hi h₀
        refine committed_integrity hi₀ fun r' hr' => ?_
        exact foldlM_invariant hr' hi₀ fun _ _ _ _ => transferAuthor_integrity

theorem integrity_empty : Integrity Registry.empty := by
  constructor
  · intro d hd
    cases hd
  · intro a ha
    obtain ⟨b, hab, -⟩ := Relation.TransGen.head'_iff.mp ha
    cases hab

/-- In every reachable registry each dependency edge leads from a registered package to another
one, which is installed at exactly the version of the edge, and the edges form no cycle. -/
theorem dependency_graph {normalizeName : String → Option String} {es : List Event} {r : Registry}
    (h : Trace (step normalizeName) Free Registry.empty es r) :
    (r.packages.map Package.name).Nodup ∧
      (∀ d ∈ r.dependencies, d.packageName ≠ d.dependencyName ∧
        (∃ p, r.package d.packageName = some p) ∧
        ∃ p, r.package d.dependencyName = some p ∧ p.version = d.version) ∧
      Digraph.Acyclic (Digraph.Edge (edges r)) ∧
      ∀ (r₁ : Registry) (id dependency : Id), Digraph.Acyclic (Digraph.Edge (edges r₁)) →
        (checkDependencyCycle r₁ id dependency = .ok () ↔
          Digraph.Acyclic (Digraph.Insert (Digraph.Edge (edges r₁)) id.name dependency.name)) := by
  have hi : Integrity r := h.invariant integrity_empty fun _ _ _ hi _ hs => step_integrity hi hs
  refine ⟨r.valid.names, fun d hd => ⟨r.valid.loops d hd, ?_, hi.pinned d hd⟩, hi.acyclic,
    fun r₁ id dependency => checkDependencyCycle_iff⟩
  obtain ⟨p, hp, hn⟩ := List.mem_map.mp (r.valid.sources d hd)
  exact ⟨p, package_eq_some.mpr ⟨hp, hn⟩⟩

/-- The base library, then an application that pins it, then an upgrade of the base alone, which
is refused, and the upgrade of both. -/
def sampleRun : List Event :=
  [.install .empty [sampleItem "base" "1.0.0" []] (fun _ => 100) true,
    .install .empty [sampleItem "app" "1.0.0" [("base", "1.0.0")]] (fun _ => 101) true,
    .install .empty [sampleItem "base" "2.0.0" []] (fun _ => 102) true,
    .install .empty [sampleItem "base" "2.0.0" [], sampleItem "app" "2.0.0" [("base", "2.0.0")]]
      (fun _ => 103) true]

theorem dependency_graph_run :
    ∃ r, Trace (step some) Free Registry.empty sampleRun r ∧
      r.dependencies = [⟨"app", "base", "2.0.0"⟩] ∧
      ∃ p, r.package "base" = some p ∧ p.version = "2.0.0" := by
  obtain ⟨r, hr⟩ := Option.isSome_iff_exists.mp
    (by decide +kernel : (run (step some) Free Registry.empty sampleRun).isSome = true)
  have hdeps : r.dependencies = [⟨"app", "base", "2.0.0"⟩] := by
    cases hr
    decide +kernel
  have h := trace_of_run hr
  obtain ⟨-, hedges, -⟩ := dependency_graph h
  refine ⟨r, h, hdeps, ?_⟩
  have hmem : (⟨"app", "base", "2.0.0"⟩ : PackageDependency) ∈ r.dependencies := by simp [hdeps]
  exact (hedges _ hmem).2.2

end Pishoo.DependencyGraph
