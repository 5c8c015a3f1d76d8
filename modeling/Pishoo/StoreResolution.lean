import Pishoo.Digraph
import Pishoo.Store

namespace Pishoo.StoreResolution

open Result Store

variable {s : Store} {installed : List Package} {root q : Request} {r : Resource}
  {resources ordered out : List Resource} {pending : List Request}

/-- The transitive closure of the root, as far as its packages are available. -/
inductive Required (s : Store) (root : Request) : Request → Prop
  | root : Required s root root
  | dependency {q d : Request} {p : Verified} : Required s root q → s.downloadRelease q = .ok p →
      d ∈ p.dependencies → Required s root d

def DependsOn (s : Store) (root : Request) (a b : Id) : Prop :=
  ∃ q p d, Required s root q ∧ s.downloadRelease q = .ok p ∧ d ∈ p.dependencies ∧ q.id = a ∧ d.id = b

/-- The closure of the root is available, small, free of conflicts and acyclic. -/
structure Consistent (s : Store) (installed : List Package) (root : Request) : Prop where
  available : ∀ q, Required s root q → ∃ p, s.downloadRelease q = .ok p
  bounded : ∃ ids : List Id, ids.length ≤ 100 ∧ ∀ q, Required s root q → q.id ∈ ids
  versions : ∀ q q', Required s root q → Required s root q' → q.id = q'.id → q.version = q'.version
  authors : ∀ q q', Required s root q → Required s root q' → q.name = q'.name →
    q.publisher = q'.publisher
  owners : ∀ q, Required s root q → ∀ p ∈ installed, p.name = q.name → p.author = some q.publisher
  acyclic : Digraph.Acyclic (DependsOn s root)

/-- Moreover the store still has the installed version of each package of the closure that is
installed without an owner. -/
structure Resolvable (s : Store) (installed : List Package) (root : Request) : Prop
    extends Consistent s installed root where
  previous : ∀ q, Required s root q → ∀ p, installed.find? (fun p => p.id == q.id) = some p →
    p.authorOwnerHash = none → ∃ x, s.downloadRelease { q with version := p.version } = .ok x

theorem any_takenName : installed.any (takenName q) = false ↔
    ∀ p ∈ installed, p.name = q.name → p.author = some q.publisher := by
  rw [List.any_eq_false]
  refine forall₂_congr fun p _ => ?_
  simp only [takenName, Bool.and_eq_true, beq_iff_eq, bne_iff_ne, not_and, ne_eq, not_not]
  refine forall_congr' fun hname => ?_
  simp [Package.id, Request.id, hname]

theorem any_sameName : resources.any (sameName q) = false ↔
    ∀ r ∈ resources, r.request.name = q.name → r.id = q.id := by
  rw [List.any_eq_false]
  refine forall₂_congr fun r _ => ?_
  simp only [sameName, Bool.and_eq_true, beq_iff_eq, bne_iff_ne, ne_eq, not_and']
  exact forall_congr' fun _ => not_not

theorem previousRelease_isOk :
    (∃ x, s.previousRelease installed q = .ok x) ↔
      ∀ p, installed.find? (fun p => p.id == q.id) = some p → p.authorOwnerHash = none →
        ∃ x, s.downloadRelease { q with version := p.version } = .ok x := by
  unfold previousRelease
  cases installed.find? (fun p => p.id == q.id) with
  | none => simp
  | some p =>
      by_cases howner : p.authorOwnerHash = none
      · simp only [Option.some.injEq, forall_eq', howner, if_true, forall_const]
        cases s.downloadRelease { q with version := p.version } with
        | ok x => simp
        | error e => cases e <;> simp
      · simp [howner]

def Covered (resources : List Resource) (pending : List Request) (q : Request) : Prop :=
  q ∈ pending ∨ ∃ r ∈ resources, r.request = q

/-- The loop invariant of the worklist. -/
structure Discovered (s : Store) (installed : List Package) (root : Request)
    (resources : List Resource) (pending : List Request) : Prop where
  ids : (resources.map Resource.id).Nodup
  bounded : resources.length ≤ 100
  names : ∀ r ∈ resources, ∀ r' ∈ resources, r.request.name = r'.request.name → r.id = r'.id
  required : ∀ r ∈ resources, Required s root r.request
  downloaded : ∀ r ∈ resources, s.downloadRelease r.request = .ok r.package
  owners : ∀ r ∈ resources, installed.any (takenName r.request) = false
  previous : ∀ r ∈ resources, ∃ x, s.previousRelease installed r.request = .ok x
  queued : ∀ q ∈ pending, Required s root q
  started : Covered resources pending root
  dependencies : ∀ r ∈ resources, ∀ d ∈ r.package.dependencies, Covered resources pending d

theorem discovered_root : Discovered s installed root [] [root] := by
  constructor <;> simp [Covered, Required.root]

theorem Covered.of_cons (hr : r ∈ resources) (hq : r.request = q) {q' : Request}
    (h : Covered resources (q :: pending) q') : Covered resources pending q' := by
  obtain hmem | hres := h
  · obtain rfl | hmem := List.mem_cons.mp hmem
    · exact .inr ⟨r, hr, hq⟩
    · exact .inl hmem
  · exact .inr hres

theorem Discovered.skip (h : Discovered s installed root resources (q :: pending))
    (hr : r ∈ resources) (hq : r.request = q) : Discovered s installed root resources pending where
  ids := h.ids
  bounded := h.bounded
  names := h.names
  required := h.required
  downloaded := h.downloaded
  owners := h.owners
  previous := h.previous
  queued q hq := h.queued q (List.mem_cons_of_mem _ hq)
  started := h.started.of_cons hr hq
  dependencies x hx d hd := (h.dependencies x hx d hd).of_cons hr hq

theorem Covered.snoc {q' : Request} (hq : r.request = q)
    (h : Covered resources (q :: pending) q') :
    Covered (resources ++ [r]) (r.package.dependencies.reverse ++ pending) q' := by
  obtain hmem | ⟨x, hx, hq'⟩ := h
  · obtain rfl | hmem := List.mem_cons.mp hmem
    · exact .inr ⟨r, by simp, hq⟩
    · exact .inl (List.mem_append_right _ hmem)
  · exact .inr ⟨x, List.mem_append_left _ hx, hq'⟩

theorem Discovered.add (h : Discovered s installed root resources (q :: pending))
    (hnew : ∀ x ∈ resources, x.id ≠ q.id) (hr : s.resource installed resources q = .ok r) :
    Discovered s installed root (resources ++ [r]) (r.package.dependencies.reverse ++ pending) := by
  obtain ⟨hq, hlength, hsame, htaken, hdownload, hprevious⟩ := resource_ok hr
  have hrequired : Required s root q := h.queued q List.mem_cons_self
  have hid : r.id = q.id := by rw [Resource.id, hq]
  rw [any_sameName] at hsame
  constructor
  · rw [List.map_append, List.map_singleton, List.nodup_append]
    refine ⟨h.ids, List.nodup_singleton _, ?_⟩
    simp only [List.mem_map, List.mem_singleton]
    rintro _ ⟨x, hx, rfl⟩ _ rfl
    rw [hid]
    exact hnew x hx
  · simp only [List.length_append, List.length_singleton]
    omega
  · simp only [List.mem_append, List.mem_singleton]
    rintro x (hx | rfl) y (hy | rfl) hname
    · exact h.names x hx y hy hname
    · rw [hid]
      exact hsame x hx (by rw [hname, hq])
    · rw [hid]
      exact (hsame y hy (by rw [← hname, hq])).symm
    · rfl
  · simp only [List.forall_mem_append, List.forall_mem_singleton, hq]
    exact ⟨h.required, hrequired⟩
  · simp only [List.forall_mem_append, List.forall_mem_singleton, hq]
    exact ⟨h.downloaded, hdownload⟩
  · simp only [List.forall_mem_append, List.forall_mem_singleton, hq]
    exact ⟨h.owners, htaken⟩
  · simp only [List.forall_mem_append, List.forall_mem_singleton, hq]
    exact ⟨h.previous, _, hprevious⟩
  · intro d hd
    obtain hd | hd := List.mem_append.mp hd
    · exact .dependency hrequired hdownload (List.mem_reverse.mp hd)
    · exact h.queued d (List.mem_cons_of_mem _ hd)
  · exact h.started.snoc hq
  · simp only [List.forall_mem_append, List.forall_mem_singleton]
    refine ⟨fun x hx d hd => (h.dependencies x hx d hd).snoc hq, fun d hd => .inl ?_⟩
    exact List.mem_append_left _ (List.mem_reverse.mpr hd)

theorem resolve_discovered (hout : s.resolve installed resources pending = .ok out)
    (h : Discovered s installed root resources pending) : Discovered s installed root out [] := by
  fun_induction s.resolve installed resources pending with
  | case1 resources =>
      cases hout
      exact h
  | case2 => cases hout
  | case3 resources q pending r hfind hversion ih =>
      have hid : r.id = q.id := by simpa using List.find?_some hfind
      exact ih hout (h.skip (List.mem_of_find?_eq_some hfind)
        (Request.eq_of_id hid (not_not.mp hversion)))
  | case4 => cases hout
  | case5 resources q pending hfind r hr ih =>
      refine ih hout (h.add ?_ hr)
      simpa using hfind

theorem resource_isOk (hsolv : Resolvable s installed root)
    (h : Discovered s installed root resources (q :: pending))
    (hnew : ∀ x ∈ resources, x.id ≠ q.id) : ∃ r, s.resource installed resources q = .ok r := by
  have hq : Required s root q := h.queued q List.mem_cons_self
  have hlength : ¬100 ≤ resources.length := by
    obtain ⟨ids, hids, hsub⟩ := hsolv.bounded
    have hcons : (q.id :: resources.map Resource.id).Nodup := by
      refine List.nodup_cons.mpr ⟨fun hin => ?_, h.ids⟩
      obtain ⟨x, hx, hid⟩ := List.mem_map.mp hin
      exact hnew x hx hid
    have hknown : (q.id :: resources.map Resource.id) ⊆ ids := by
      intro i hi
      obtain rfl | hi := List.mem_cons.mp hi
      · exact hsub q hq
      · obtain ⟨x, hx, rfl⟩ := List.mem_map.mp hi
        exact hsub x.request (h.required x hx)
    have hle := (hcons.subperm hknown).length_le
    simp only [List.length_cons, List.length_map] at hle
    omega
  have hsame : resources.any (sameName q) = false := by
    rw [any_sameName]
    intro x hx hname
    have := hsolv.authors _ _ (h.required x hx) hq hname
    rw [Resource.id, Request.id, Request.id, this, hname]
  have htaken : installed.any (takenName q) = false := any_takenName.mpr (hsolv.owners q hq)
  obtain ⟨package, hpackage⟩ := hsolv.available q hq
  obtain ⟨previous, hprevious⟩ := previousRelease_isOk.mpr (hsolv.previous q hq)
  refine ⟨⟨q, package, previous⟩, ?_⟩
  simp [resource, failIf, hlength, hsame, htaken, hpackage, hprevious]

theorem resolve_isOk (hsolv : Resolvable s installed root)
    (h : Discovered s installed root resources pending) :
    ∃ out, s.resolve installed resources pending = .ok out := by
  fun_induction s.resolve installed resources pending with
  | case1 resources => exact ⟨resources, rfl⟩
  | case2 resources q pending r hfind hversion =>
      have hid : r.id = q.id := by simpa using List.find?_some hfind
      have hr := h.required r (List.mem_of_find?_eq_some hfind)
      exact absurd (hsolv.versions _ _ hr (h.queued q List.mem_cons_self) hid) hversion
  | case3 resources q pending r hfind hversion ih =>
      have hid : r.id = q.id := by simpa using List.find?_some hfind
      exact ih (h.skip (List.mem_of_find?_eq_some hfind)
        (Request.eq_of_id hid (not_not.mp hversion)))
  | case4 resources q pending hfind e he =>
      obtain ⟨r, hr⟩ := resource_isOk hsolv h (by simpa using hfind)
      rw [he] at hr
      cases hr
  | case5 resources q pending hfind r hr ih => exact ih (h.add (by simpa using hfind) hr)

/-- A finished worklist has discovered the whole closure. -/
theorem Discovered.closure (h : Discovered s installed root resources []) {q : Request}
    (hq : Required s root q) : ∃ r ∈ resources, r.request = q := by
  induction hq with
  | root => exact h.started.resolve_left (by simp)
  | @dependency q d p _ hp hd ih =>
      obtain ⟨r, hr, rfl⟩ := ih
      have hpackage : r.package = p := by
        have := (h.downloaded r hr).symm.trans hp
        cases this
        rfl
      rw [← hpackage] at hd
      exact (h.dependencies r hr d hd).resolve_left (by simp)

theorem Discovered.resolvable_of_acyclic (h : Discovered s installed root resources [])
    (hacyclic : Digraph.Acyclic (DependsOn s root)) : Resolvable s installed root := by
  refine ⟨⟨?_, ?_, ?_, ?_, ?_, hacyclic⟩, ?_⟩
  · intro q hq
    obtain ⟨r, hr, rfl⟩ := h.closure hq
    exact ⟨r.package, h.downloaded r hr⟩
  · refine ⟨resources.map Resource.id, by simpa using h.bounded, fun q hq => ?_⟩
    obtain ⟨r, hr, rfl⟩ := h.closure hq
    exact List.mem_map_of_mem hr
  · intro q q' hq hq' hid
    obtain ⟨r, hr, rfl⟩ := h.closure hq
    obtain ⟨r', hr', rfl⟩ := h.closure hq'
    rw [List.inj_on_of_nodup_map h.ids hr hr' hid]
  · intro q q' hq hq' hname
    obtain ⟨r, hr, rfl⟩ := h.closure hq
    obtain ⟨r', hr', rfl⟩ := h.closure hq'
    have hid := h.names r hr r' hr' hname
    simp only [Resource.id, Request.id, Id.mk.injEq, Option.some.injEq] at hid
    exact hid.1
  · intro q hq
    obtain ⟨r, hr, rfl⟩ := h.closure hq
    exact any_takenName.mp (h.owners r hr)
  · intro q hq
    obtain ⟨r, hr, rfl⟩ := h.closure hq
    exact previousRelease_isOk.mp (h.previous r hr)

/-- Each package comes after all of its dependencies. -/
def Ordered (resources : List Resource) : Prop :=
  ∀ before r after, resources = before ++ r :: after →
    ∀ d ∈ r.package.dependencies, ∃ x ∈ before, x.id = d.id

theorem ordered_nil : Ordered [] := by
  intro before r after h
  simp at h

theorem ready_iff : ready ordered r = true ↔
    ∀ d ∈ r.package.dependencies, ∃ x ∈ ordered, x.id = d.id := by
  simp [ready]

theorem Ordered.snoc (h : Ordered ordered) (hr : ready ordered r = true) :
    Ordered (ordered ++ [r]) := by
  intro before x after heq d hd
  obtain rfl | ⟨after, y, rfl⟩ := List.eq_nil_or_concat after
  · obtain ⟨rfl, hx⟩ := List.append_inj' heq rfl
    cases hx
    exact ready_iff.mp hr d hd
  · have heq' : ordered ++ [r] = (before ++ x :: after) ++ [y] := by simpa using heq
    obtain ⟨rfl, -⟩ := List.append_inj' heq' rfl
    exact h before x after rfl d hd

theorem find_eraseP_perm {α : Type} {p : α → Bool} {l : List α} {a : α} (h : l.find? p = some a) :
    (a :: l.eraseP p).Perm l := by
  obtain ⟨hp, before, after, rfl, hbefore⟩ := List.find?_eq_some_iff_append.mp h
  rw [List.eraseP_append_right _ (by simpa using hbefore), List.eraseP_cons_of_pos hp]
  exact List.perm_middle.symm

theorem orderPackages_ordered (hout : orderPackages ordered resources = .ok out)
    (h : Ordered ordered) : Ordered out ∧ out.Perm (ordered ++ resources) := by
  fun_induction orderPackages ordered resources with
  | case1 ordered resources hempty =>
      cases hout
      rw [List.isEmpty_iff.mp hempty, List.append_nil]
      exact ⟨h, .refl _⟩
  | case2 => cases hout
  | case3 ordered resources hempty r hfind ih =>
      obtain ⟨hordered, hperm⟩ := ih hout (h.snoc (List.find?_some hfind))
      refine ⟨hordered, hperm.trans ?_⟩
      rw [List.append_assoc, List.singleton_append]
      exact (find_eraseP_perm hfind).append_left _

/-- Among packages with acyclic dependencies one is always ready. -/
theorem orderPackages_isOk {depends : Id → Id → Prop} (hacyclic : Digraph.Acyclic depends)
    (hedges : ∀ r ∈ resources, ∀ d ∈ r.package.dependencies, depends r.id d.id)
    (hclosed : ∀ r ∈ resources, ∀ d ∈ r.package.dependencies,
      ∃ x ∈ ordered ++ resources, x.id = d.id) :
    ∃ out, orderPackages ordered resources = .ok out := by
  fun_induction orderPackages ordered resources with
  | case1 ordered resources hempty => exact ⟨ordered, rfl⟩
  | case2 ordered resources hempty hfind =>
      have hne : resources.map Resource.id ≠ [] := by simpa using hempty
      obtain ⟨m, hm, hsink⟩ := Digraph.exists_sink hacyclic hne
      obtain ⟨r, hr, rfl⟩ := List.mem_map.mp hm
      have hnot : ¬ready ordered r = true := by simpa using List.find?_eq_none.mp hfind r hr
      rw [ready_iff] at hnot
      push Not at hnot
      obtain ⟨d, hd, hmissing⟩ := hnot
      obtain ⟨x, hx, hid⟩ := hclosed r hr d hd
      obtain hx | hx := List.mem_append.mp hx
      · exact absurd hid (hmissing x hx)
      · exact absurd (hedges r hr d hd) (hid ▸ hsink x.id (List.mem_map_of_mem hx))
  | case3 ordered resources hempty r hfind ih =>
      have hperm := find_eraseP_perm hfind
      have hmem {x : Resource} (hx : x ∈ resources.eraseP (ready ordered)) : x ∈ resources :=
        hperm.subset (List.mem_cons_of_mem _ hx)
      refine ih (fun x hx => hedges x (hmem hx)) fun x hx d hd => ?_
      obtain ⟨y, hy, hid⟩ := hclosed x (hmem hx) d hd
      refine ⟨y, ?_, hid⟩
      rw [List.append_assoc, List.singleton_append]
      exact (hperm.append_left ordered).symm.subset hy

theorem Ordered.mem_before {before after : List Resource} {q : Request}
    (hordered : Ordered (before ++ r :: after)) (hr : r.request = root)
    (hdownloaded : ∀ x ∈ before ++ r :: after, s.downloadRelease x.request = .ok x.package)
    (hids : ((before ++ r :: after).map Resource.id).Nodup)
    (hall : ∀ q, Required s root q → ∃ x ∈ before ++ r :: after, x.request = q)
    (hq : Required s root q) : ∃ x ∈ before ++ [r], x.request = q := by
  induction hq with
  | root => exact ⟨r, by simp, hr⟩
  | @dependency q d p hq hp hd ih =>
      obtain ⟨x, hx, rfl⟩ := ih
      have hx' : x ∈ before ++ r :: after := by
        obtain hx | hx := List.mem_append.mp hx
        · exact List.mem_append_left _ hx
        · obtain rfl := List.mem_singleton.mp hx
          simp
      have hpackage : x.package = p := by
        have := (hdownloaded x hx').symm.trans hp
        cases this
        rfl
      obtain ⟨y, hy, hyd⟩ := hall d (.dependency hq hp hd)
      -- the dependency stands before `x`, so it is not behind the root
      obtain ⟨z, hz, hid⟩ : ∃ z ∈ before, z.id = d.id := by
        obtain hxb | hxr := List.mem_append.mp hx
        · obtain ⟨b₁, b₂, rfl⟩ := List.append_of_mem hxb
          obtain ⟨z, hz, hid⟩ := hordered b₁ x (b₂ ++ r :: after) (by simp) d (hpackage ▸ hd)
          exact ⟨z, List.mem_append_left _ hz, hid⟩
        · obtain rfl := List.mem_singleton.mp hxr
          exact hordered before x after rfl d (hpackage ▸ hd)
      have hzy : z = y := List.inj_on_of_nodup_map hids (List.mem_append_left _ hz) hy (by
        rw [hid, Resource.id, hyd])
      exact ⟨z, List.mem_append_left _ hz, hzy ▸ hyd⟩

theorem root_last (hordered : Ordered out)
    (hdownloaded : ∀ x ∈ out, s.downloadRelease x.request = .ok x.package)
    (hids : (out.map Resource.id).Nodup)
    (hall : ∀ q, Required s root q ↔ ∃ x ∈ out, x.request = q) :
    ∃ r, out.getLast? = some r ∧ r.request = root := by
  obtain ⟨r, hr, hroot⟩ := (hall root).mp .root
  obtain ⟨before, after, rfl⟩ := List.append_of_mem hr
  by_cases hnil : after = []
  · exact ⟨r, by simp [hnil], hroot⟩
  · obtain ⟨y, hy⟩ := List.exists_mem_of_ne_nil after hnil
    obtain ⟨x, hx, hxy⟩ := hordered.mem_before hroot hdownloaded hids (fun q => (hall q).mp)
      ((hall y.request).mpr ⟨y, by simp [hy], rfl⟩)
    have hsplit : before ++ r :: after = (before ++ [r]) ++ after := by simp
    rw [hsplit, List.map_append, List.nodup_append] at hids
    exact absurd (congrArg Request.id hxy)
      (hids.2.2 _ (List.mem_map_of_mem hx) _ (List.mem_map_of_mem hy))

theorem Ordered.acyclic (hordered : Ordered out)
    (hdownloaded : ∀ x ∈ out, s.downloadRelease x.request = .ok x.package)
    (hids : (out.map Resource.id).Nodup)
    (hall : ∀ q, Required s root q → ∃ x ∈ out, x.request = q) :
    Digraph.Acyclic (DependsOn s root) := by
  refine Digraph.acyclic_of_rank (fun i => (out.map Resource.id).idxOf i) ?_
  rintro _ _ ⟨q, p, d, hq, hp, hd, rfl, rfl⟩
  obtain ⟨x, hx, rfl⟩ := hall q hq
  have hpackage : x.package = p := by
    have := (hdownloaded x hx).symm.trans hp
    cases this
    rfl
  obtain ⟨before, after, rfl⟩ := List.append_of_mem hx
  obtain ⟨z, hz, hid⟩ := hordered before x after rfl d (hpackage ▸ hd)
  simp only [List.map_append, List.map_cons] at hids ⊢
  have hzm : d.id ∈ before.map Resource.id := hid ▸ List.mem_map_of_mem hz
  have hxn : x.id ∉ before.map Resource.id := by
    intro hin
    exact (List.nodup_append.mp hids).2.2 _ hin _ List.mem_cons_self rfl
  have hxid : x.request.id = x.id := rfl
  rw [List.idxOf_append_of_mem hzm, hxid, List.idxOf_append_of_notMem hxn, List.idxOf_cons_self,
    Nat.add_zero]
  exact List.idxOf_lt_length_of_mem hzm

/-- What a successful resolution returns. -/
structure Resolution (s : Store) (root : Request) (out : List Resource) : Prop where
  ids : (out.map Resource.id).Nodup
  closure : ∀ q, Required s root q ↔ ∃ r ∈ out, r.request = q
  downloaded : ∀ r ∈ out, s.downloadRelease r.request = .ok r.package
  ordered : Ordered out
  last : ∃ r, out.getLast? = some r ∧ r.request = root

theorem installStorePackage_ok (h : s.installStorePackage installed root = .ok out) :
    Resolvable s installed root ∧ Resolution s root out := by
  obtain ⟨_, -, h⟩ := bind_eq_ok.mp h
  obtain ⟨resources, hresolve, h⟩ := bind_eq_ok.mp h
  have hdiscovered := resolve_discovered hresolve discovered_root
  obtain ⟨hordered, hperm⟩ := orderPackages_ordered h ordered_nil
  rw [List.nil_append] at hperm
  have hids : (out.map Resource.id).Nodup := (hperm.map _).nodup_iff.mpr hdiscovered.ids
  have hdownloaded : ∀ r ∈ out, s.downloadRelease r.request = .ok r.package := fun r hr =>
    hdiscovered.downloaded r (hperm.subset hr)
  have hall : ∀ q, Required s root q ↔ ∃ r ∈ out, r.request = q := by
    intro q
    constructor
    · intro hq
      obtain ⟨r, hr, hrq⟩ := hdiscovered.closure hq
      exact ⟨r, hperm.symm.subset hr, hrq⟩
    · rintro ⟨r, hr, rfl⟩
      exact hdiscovered.required r (hperm.subset hr)
  have hacyclic := hordered.acyclic hdownloaded hids fun q => (hall q).mp
  exact ⟨hdiscovered.resolvable_of_acyclic hacyclic,
    ⟨hids, hall, hdownloaded, hordered, root_last hordered hdownloaded hids hall⟩⟩

theorem installStorePackage_isOk (h : Resolvable s installed root) :
    ∃ out, s.installStorePackage installed root = .ok out := by
  obtain ⟨p, hp⟩ := h.available root .root
  obtain ⟨_, hid, -⟩ := bind_eq_ok.mp hp
  obtain ⟨resources, hresolve⟩ := resolve_isOk h discovered_root
  have hdiscovered := resolve_discovered hresolve discovered_root
  have hclosed : ∀ r ∈ resources, ∀ d ∈ r.package.dependencies,
      ∃ x ∈ [] ++ resources, x.id = d.id := by
    intro r hr d hd
    obtain ⟨x, hx, rfl⟩ := (hdiscovered.dependencies r hr d hd).resolve_left (by simp)
    exact ⟨x, hx, rfl⟩
  have hedges : ∀ r ∈ resources, ∀ d ∈ r.package.dependencies, DependsOn s root r.id d.id := by
    intro r hr d hd
    exact ⟨r.request, r.package, d, hdiscovered.required r hr, hdiscovered.downloaded r hr, hd, rfl,
      rfl⟩
  obtain ⟨out, hout⟩ := orderPackages_isOk h.acyclic hedges hclosed
  exact ⟨out, by simp [installStorePackage, hid, hresolve, hout]⟩

/-- The resolution succeeds exactly on the resolvable roots, and it returns each package of the
closure once, after all of its dependencies and with the root last. -/
theorem resolution_correct (s : Store) (installed : List Package) (root : Request) :
    ((∃ out, s.installStorePackage installed root = .ok out) ↔ Resolvable s installed root) ∧
      ∀ out, s.installStorePackage installed root = .ok out → Resolution s root out :=
  ⟨⟨fun ⟨_, h⟩ => (installStorePackage_ok h).1, installStorePackage_isOk⟩,
    fun _ h => (installStorePackage_ok h).2⟩

/-- A store that has the second release of a library, but no longer the first one. -/
def sampleStore : Store where
  normalizeName := some
  fetch q :=
    if q = ⟨"alice.example", "base", "2.0.0"⟩ then .ok ⟨[], Nat.zero_le _⟩ else .error .routeNotFound

def sampleRoot : Request := ⟨"alice.example", "base", "2.0.0"⟩

/-- The row of the first release, from before signing evidence was recorded. -/
def sampleRow : Package where
  name := "base"
  author := some "alice.example"
  version := "1.0.0"
  title := none
  description := none
  license := none
  repository := none
  installedAt := none
  upgradedAt := none
  hasLib := true
  hasApp := false
  authorOwnerHash := none
  packageSha256 := none
  signerLeafFingerprintSha256 := none

theorem sampleStore_required {q : Request} (h : Required sampleStore sampleRoot q) :
    q = sampleRoot ∧ sampleStore.downloadRelease q = .ok ⟨[], Nat.zero_le _⟩ := by
  have hroot : sampleStore.downloadRelease sampleRoot = .ok ⟨[], Nat.zero_le _⟩ := by rfl
  induction h with
  | root => exact ⟨rfl, hroot⟩
  | dependency _ hp hd ih =>
      rw [ih.2] at hp
      cases hp
      cases hd

theorem sampleStore_consistent : Consistent sampleStore [sampleRow] sampleRoot := by
  refine ⟨fun q hq => ⟨_, (sampleStore_required hq).2⟩, ⟨[sampleRoot.id], by simp, ?_⟩, ?_, ?_, ?_,
    ?_⟩
  · intro q hq
    simp [(sampleStore_required hq).1]
  · intro q q' hq hq' _
    rw [(sampleStore_required hq).1, (sampleStore_required hq').1]
  · intro q q' hq hq' _
    rw [(sampleStore_required hq).1, (sampleStore_required hq').1]
  · intro q hq p hp _
    rw [List.mem_singleton.mp hp, (sampleStore_required hq).1]
    rfl
  · refine Digraph.acyclic_of_rank (fun _ => 0) ?_
    rintro _ _ ⟨q, p, d, hq, hp, hd, rfl, rfl⟩
    rw [(sampleStore_required hq).2] at hp
    cases hp
    cases hd

/-- A consistent closure is refused when the installed release of the root is gone. -/
theorem resolution_needs_previous :
    Consistent sampleStore [sampleRow] sampleRoot ∧
      sampleStore.installStorePackage [sampleRow] sampleRoot =
        .error .publisherOwnershipConflict := by
  refine ⟨sampleStore_consistent, ?_⟩
  decide +kernel

end Pishoo.StoreResolution
