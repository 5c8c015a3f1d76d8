import Mathlib.Order.Defs.Unbundled
import Pishoo.FileTree

namespace Pishoo.Relocation

open FileTree Tree

variable {ν γ : Type}

/-- A directory that is to be moved, to a place that is not in it. -/
structure Move (ν : Type) where
  source : List ν
  parent : List ν
  name : ν
  out : ¬ source <+: parent

def Move.dest (m : Move ν) : List ν := m.parent ++ [m.name]

/-- Neither path leads through the other. -/
def Apart (first second : List ν) : Prop := ¬ first <+: second ∧ ¬ second <+: first

theorem Apart.symm {first second : List ν} (h : Apart first second) : Apart second first :=
  ⟨h.2, h.1⟩

theorem Apart.not_below {first second : List ν} (h : Apart first second) (rest : List ν) :
    ¬ first <+: second ++ rest := by
  intro hbegins
  rcases List.prefix_or_prefix_of_prefix hbegins (List.prefix_append second rest) with hfirst | hsecond
  · exact h.1 hfirst
  · exact h.2 hsecond

theorem Apart.append {first second : List ν} (h : Apart first second) (rest rest' : List ν) :
    Apart (first ++ rest) (second ++ rest') := by
  constructor
  · intro hbegins
    exact h.not_below rest' ((List.prefix_append first rest).trans hbegins)
  · intro hbegins
    exact h.symm.not_below rest ((List.prefix_append second rest').trans hbegins)

theorem apart_of_ne {name other : ν} (h : name ≠ other) (rest rest' : List ν) :
    Apart (name :: rest) (other :: rest') := by
  constructor
  · intro hbegins
    exact h (List.cons_prefix_cons.mp hbegins).1
  · intro hbegins
    exact h (List.cons_prefix_cons.mp hbegins).1.symm

section

variable [DecidableEq ν]

/-- Where an entry lies when a directory has been moved. -/
def moved (source dest path : List ν) : List ν :=
  if source <+: path then dest ++ path.drop source.length else path

@[simp] theorem moved_append (source dest rest : List ν) :
    moved source dest (source ++ rest) = dest ++ rest := by
  simp [moved]

theorem moved_of_not {source dest path : List ν} (h : ¬ source <+: path) :
    moved source dest path = path := if_neg h

theorem moved_cases (source dest path : List ν) :
    (∃ rest, path = source ++ rest ∧ moved source dest path = dest ++ rest) ∨
      (¬ source <+: path ∧ moved source dest path = path) := by
  by_cases h : source <+: path
  · obtain ⟨rest, rfl⟩ := h
    exact .inl ⟨rest, rfl, moved_append source dest rest⟩
  · exact .inr ⟨h, moved_of_not h⟩

theorem moved_inj {source dest first second : List ν} (hfirst : ¬ dest <+: first)
    (hsecond : ¬ dest <+: second) (h : moved source dest first = moved source dest second) :
    first = second := by
  obtain ⟨rest, rfl, hmoved⟩ | ⟨-, hmoved⟩ := moved_cases source dest first
  · obtain ⟨rest', rfl, hmoved'⟩ | ⟨-, hmoved'⟩ := moved_cases source dest second
    · rw [hmoved, hmoved', List.append_cancel_left_eq] at h
      rw [h]
    · rw [hmoved, hmoved'] at h
      exact absurd (h ▸ List.prefix_append dest rest) hsecond
  · obtain ⟨rest', rfl, hmoved'⟩ | ⟨-, hmoved'⟩ := moved_cases source dest second
    · rw [hmoved, hmoved'] at h
      exact absurd (h ▸ List.prefix_append dest rest') hfirst
    · rwa [hmoved, hmoved'] at h

/-- Nothing lies below what is not there. -/
theorem find_below {t : Tree ν γ} {path other : List ν} (h : t.find path = none)
    (hbegins : path <+: other) : t.find other = none := by
  obtain ⟨rest, rfl⟩ := hbegins
  by_cases hrest : rest = []
  · rwa [hrest, List.append_nil]
  · cases hfind : t.find (path ++ rest) with
    | none => rfl
    | some entry =>
        rw [ find_prefix hrest hfind] at h
        cases h

theorem not_prefix_of_find {t : Tree ν γ} {path other : List ν} (h : t.find path = none)
    (hother : t.find other ≠ none) : ¬ path <+: other :=
  fun hbegins => hother (find_below h hbegins)

end

section

variable [DecidableEq ν] {t t' : Tree ν γ} {source parent path root : List ν} {name : ν}
  {entry : Entry γ}

theorem mem_entries (h : path ≠ []) : (path, entry) ∈ t.entries ↔ t.find path = some entry :=
  (find_of_ne h).symm

omit [DecidableEq ν] in
theorem ne_nil_of_mem (h : (path, entry) ∈ t.entries) : path ≠ [] := by
  obtain ⟨start, last, rfl, -⟩ := t.parents _ h
  simp

theorem find_of_mem (h : (path, entry) ∈ t.entries) : t.find path = some entry :=
  (mem_entries (ne_nil_of_mem h)).mp h

theorem not_below_of_mem {e : List ν × Entry γ} (h : t.find path = none) (he : e ∈ t.entries) :
    ¬ path <+: e.1 := by
  apply not_prefix_of_find h
  rw [find_of_mem he]
  simp

theorem moved_parent (hout : ¬ source <+: parent) (hparent : t.find parent = some .dir)
    {e : List ν × Entry γ} (he : e ∈ t.entries) :
    ∃ parent' name', moved source (parent ++ [name]) e.1 = parent' ++ [name'] ∧
      (parent' = [] ∨ (parent', .dir) ∈
        t.entries.map fun e => (moved source (parent ++ [name]) e.1, e.2)) := by
  have hin {path : List ν} (h : path = [] ∨ (path, .dir) ∈ t.entries) :
      moved source (parent ++ [name]) path = [] ∨ (moved source (parent ++ [name]) path, .dir) ∈
        t.entries.map fun e => (moved source (parent ++ [name]) e.1, e.2) := by
    rcases h with rfl | h
    · apply Or.inl
      apply moved_of_not
      intro hbegins
      rw [List.prefix_nil.mp hbegins] at hout
      exact hout List.nil_prefix
    · exact .inr (List.mem_map.mpr ⟨_, h, rfl⟩)
  have hroot : parent = [] ∨ (parent, .dir) ∈ t.entries := by
    by_cases hnil : parent = []
    · exact .inl hnil
    · exact .inr ((mem_entries hnil).mpr hparent)
  obtain ⟨parent', name', heq, hparent'⟩ := t.parents e he
  obtain ⟨rest, hrest, hmoved⟩ | ⟨hnot, hmoved⟩ := moved_cases source (parent ++ [name]) e.1
  · rw [hmoved]
    induction rest using List.reverseRecOn with
    | nil =>
        refine ⟨parent, name, List.append_nil _, ?_⟩
        have hsame := hin hroot
        rwa [moved_of_not hout] at hsame
    | append_singleton rest last =>
        rw [hrest, ← List.append_assoc] at heq
        obtain ⟨rfl, -⟩ := List.append_inj' heq rfl
        refine ⟨parent ++ [name] ++ rest, last, (List.append_assoc ..).symm, ?_⟩
        rw [← moved_append source (parent ++ [name]) rest]
        exact hin hparent'
  · rw [hmoved, heq]
    refine ⟨parent', name', rfl, ?_⟩
    have hnot' : ¬ source <+: parent' := fun hbegins =>
      hnot (heq ▸ hbegins.trans (List.prefix_append _ _))
    have hstay : moved source (parent ++ [name]) parent' = parent' := moved_of_not hnot'
    rw [← hstay]
    exact hin hparent'

/-- A directory with all that lies below it has been moved. -/
def rehung (t : Tree ν γ) (source parent : List ν) (name : ν)
    (hparent : t.find parent = some .dir) (hfresh : t.find (parent ++ [name]) = none)
    (hout : ¬ source <+: parent) : Tree ν γ where
  entries := t.entries.map fun e => (moved source (parent ++ [name]) e.1, e.2)
  nodup := by
    have hmap : (t.entries.map fun e => (moved source (parent ++ [name]) e.1, e.2)).map Prod.fst =
        (t.entries.map Prod.fst).map (moved source (parent ++ [name])) := by
      rw [List.map_map, List.map_map]
      rfl
    rw [hmap]
    apply List.Nodup.map_on _ t.nodup
    intro first hfirst second hsecond
    obtain ⟨e, he, rfl⟩ := List.mem_map.mp hfirst
    obtain ⟨e', he', rfl⟩ := List.mem_map.mp hsecond
    exact moved_inj (not_below_of_mem hfresh he) (not_below_of_mem hfresh he')
  parents := by
    intro e he
    obtain ⟨kept, hkept, rfl⟩ := List.mem_map.mp he
    exact moved_parent hout hparent hkept

theorem find_rehung (hparent : t.find parent = some .dir) (hfresh : t.find (parent ++ [name]) = none)
    (hout : ¬ source <+: parent) (hpath : t.find path = some entry) :
    (rehung t source parent name hparent hfresh hout).find (moved source (parent ++ [name]) path) =
      some entry := by
  by_cases hnil : path = []
  · subst hnil
    have hnot : ¬ source <+: [] := fun hbegins => hout (hbegins.trans List.nil_prefix)
    rw [moved_of_not hnot]
    exact hpath
  · apply find_of_mem
    exact List.mem_map.mpr ⟨_, (mem_entries hnil).mpr hpath, rfl⟩

theorem find_rehung_some (hparent : t.find parent = some .dir)
    (hfresh : t.find (parent ++ [name]) = none) (hout : ¬ source <+: parent)
    (h : (rehung t source parent name hparent hfresh hout).find path = some entry) :
    ∃ path', path = moved source (parent ++ [name]) path' ∧ t.find path' = some entry := by
  by_cases hnil : path = []
  · subst hnil
    have hnot : ¬ source <+: [] := fun hbegins => hout (hbegins.trans List.nil_prefix)
    exact ⟨[], (moved_of_not hnot).symm, h⟩
  · obtain ⟨kept, hkept, heq⟩ := List.mem_map.mp ((mem_entries hnil).mpr h)
    simp only [Prod.mk.injEq] at heq
    obtain ⟨rfl, rfl⟩ := heq
    exact ⟨kept.1, rfl, find_of_mem hkept⟩

/-- `contents` takes the place of all that lies below a directory. -/
def replaced (t contents : Tree ν γ) (root : List ν) (hroot : t.find root = some .dir) :
    Tree ν γ where
  entries := (t.entries.filter fun e => decide ¬(root <+: e.1 ∧ e.1 ≠ root)) ++
    contents.entries.map fun e => (root ++ e.1, e.2)
  nodup := by
    rw [List.map_append, List.map_map]
    refine (t.nodup.sublist (List.filter_sublist.map _)).append ?_ ?_
    · have hmap : contents.entries.map (Prod.fst ∘ fun e => (root ++ e.1, e.2)) =
          (contents.entries.map Prod.fst).map (root ++ ·) := by
        rw [List.map_map]
        rfl
      rw [hmap]
      apply List.Nodup.map_on _ contents.nodup
      intro first _ second _ h
      exact List.append_cancel_left h
    · intro path hpath hbelow
      obtain ⟨e, he, rfl⟩ := List.mem_map.mp hpath
      obtain ⟨kept, hkept, heq⟩ := List.mem_map.mp hbelow
      have hnot := (List.mem_filter.mp he).2
      have hne := ne_nil_of_mem hkept
      simp only [Function.comp_apply] at heq
      rw [← heq] at hnot
      simp [hne] at hnot
  parents := by
    have hin : root = [] ∨ (root, Entry.dir) ∈ t.entries := by
      by_cases hnil : root = []
      · exact .inl hnil
      · exact .inr ((mem_entries hnil).mpr hroot)
    have hkeep {path : List ν} {entry : Entry γ} (h : (path, entry) ∈ t.entries)
        (hnot : path = root ∨ ¬ root <+: path) : (path, entry) ∈
          t.entries.filter fun e => decide ¬(root <+: e.1 ∧ e.1 ≠ root) := by
      apply List.mem_filter.mpr ⟨h, _⟩
      rcases hnot with rfl | hnot
      · simp
      · simp [hnot]
    intro e he
    rcases List.mem_append.mp he with he | he
    · obtain ⟨hmem, hnot⟩ := List.mem_filter.mp he
      obtain ⟨parent, name, heq, hparent⟩ := t.parents e hmem
      refine ⟨parent, name, heq, hparent.imp_right fun hparent => ?_⟩
      apply List.mem_append_left
      apply hkeep hparent
      by_cases hbelow : root <+: parent
      · apply Or.inl
        by_contra hne
        rw [heq] at hnot
        have hbegins := hbelow.trans (List.prefix_append parent [name])
        have hlonger : parent ++ [name] ≠ root := by
          rintro rfl
          have hlength := hbelow.length_le
          rw [List.length_append, List.length_singleton] at hlength
          omega
        simp [hbegins, hlonger] at hnot
      · exact .inr hbelow
    · obtain ⟨kept, hkept, rfl⟩ := List.mem_map.mp he
      obtain ⟨parent, name, heq, hparent⟩ := contents.parents kept hkept
      refine ⟨root ++ parent, name, by rw [heq, List.append_assoc], ?_⟩
      rcases hparent with rfl | hparent
      · rw [List.append_nil]
        exact hin.imp_right fun h => List.mem_append_left _ (hkeep h (.inl rfl))
      · exact .inr (List.mem_append_right _ (List.mem_map.mpr ⟨_, hparent, rfl⟩))

theorem find_replaced_of_not {contents : Tree ν γ} (hroot : t.find root = some .dir)
    (hpath : ¬ root <+: path) : (replaced t contents root hroot).find path = t.find path := by
  by_cases hnil : path = []
  · rw [hnil, find_nil, find_nil]
  · apply Option.ext
    intro entry
    rw [← mem_entries hnil, ← mem_entries hnil, replaced, List.mem_append, List.mem_filter]
    constructor
    · rintro (⟨hmem, -⟩ | hmem)
      · exact hmem
      · obtain ⟨kept, -, heq⟩ := List.mem_map.mp hmem
        simp only [Prod.mk.injEq] at heq
        exact absurd (heq.1 ▸ List.prefix_append root kept.1) hpath
    · intro hmem
      exact .inl ⟨hmem, by simp [hpath]⟩

/-- What a renaming does to each path. -/
structure Renamed (m : Move ν) (t t' : Tree ν γ) : Prop where
  source : t.find m.source ≠ none
  parent : t.find m.parent = some .dir
  fresh : t.find m.dest = none
  kept : ∀ path entry, t.find path = some entry → t'.find (moved m.source m.dest path) = some entry
  found : ∀ path entry, t'.find path = some entry →
    ∃ path', path = moved m.source m.dest path' ∧ t.find path' = some entry

/-- Outside of the two places a renaming changes nothing. -/
theorem Renamed.other {m : Move ν} (h : Renamed m t t') (hsource : ¬ m.source <+: path)
    (hdest : ¬ m.dest <+: path) : t'.find path = t.find path := by
  apply Option.ext
  intro entry
  constructor
  · intro hfind
    obtain ⟨path', hpath, hfind'⟩ := h.found path entry hfind
    obtain ⟨rest, rfl, hmoved⟩ | ⟨-, hmoved⟩ := moved_cases m.source m.dest path'
    · exact absurd (hpath.trans hmoved ▸ List.prefix_append m.dest rest) hdest
    · rwa [hpath, hmoved]
  · intro hfind
    have hkept := h.kept path entry hfind
    rwa [moved_of_not hsource] at hkept

/-- All that lay in the source, and nothing else, lies in the destination. -/
theorem Renamed.dest {m : Move ν} (h : Renamed m t t') (rest : List ν) :
    t'.find (m.dest ++ rest) = t.find (m.source ++ rest) := by
  apply Option.ext
  intro entry
  constructor
  · intro hfind
    obtain ⟨path', hpath, hfind'⟩ := h.found _ entry hfind
    obtain ⟨rest', rfl, hmoved⟩ | ⟨-, hmoved⟩ := moved_cases m.source m.dest path'
    · rw [hmoved, List.append_cancel_left_eq] at hpath
      rwa [hpath]
    · rw [hmoved] at hpath
      rw [← hpath, find_below h.fresh (List.prefix_append _ _)] at hfind'
      cases hfind'
  · intro hfind
    have hkept := h.kept _ entry hfind
    rwa [moved_append] at hkept

/-- The moves that programs make and the directories whose contents they may change. What has been
moved is never moved again, and nothing is changed where a move may begin. -/
structure Policy (ν : Type) where
  moves : Move ν → Prop
  writes : List ν → Prop
  moved_apart : ∀ m m', moves m → moves m' → Apart m.source m'.dest
  written_apart : ∀ root m, writes root → moves m → Apart root m.source

def Policy.written (p : Policy ν) (path : List ν) : Prop := ∃ root, p.writes root ∧ root <+: path

/-- `place` says where the entries of one tree are in a later one. Two of them are never in one
place, and unless it may have been changed each is as it was. -/
structure Tracked (p : Policy ν) (t t' : Tree ν γ) (place : List ν → List ν) : Prop where
  placed : ∀ path, place path = path ∨
    ∃ m, p.moves m ∧ ∃ rest, path = m.source ++ rest ∧ place path = m.dest ++ rest
  kept : ∀ path entry, t.find path = some entry →
    t'.find (place path) = some entry ∨ p.written (place path)
  injective : ∀ first second, t.find first ≠ none → t.find second ≠ none →
    ¬ p.written (place first) → ¬ p.written (place second) → place first = place second →
    first = second

def Relocated (p : Policy ν) (t t' : Tree ν γ) : Prop := ∃ place, Tracked p t t' place

variable [DecidableEq γ]

/-- What lies at the source goes to a place where nothing is. -/
def rename (t : Tree ν γ) (m : Move ν) : Except FileTree.Fault (Tree ν γ) :=
  if t.find m.source = none then .error .notFound
  else if hparent : t.find m.parent = some .dir then
    if hfresh : t.find (m.parent ++ [m.name]) = none then
      .ok (rehung t m.source m.parent m.name hparent hfresh m.out)
    else .error .alreadyExists
  else .error .notDirectory

def replace (t : Tree ν γ) (root : List ν) (contents : Tree ν γ) : Tree ν γ :=
  if hroot : t.find root = some .dir then replaced t contents root hroot else t

theorem replace_other {contents : Tree ν γ} (h : ¬ root <+: path) :
    (replace t root contents).find path = t.find path := by
  unfold replace
  split
  · exact find_replaced_of_not _ h
  · rfl

theorem rename_spec {m : Move ν} (h : rename t m = .ok t') : Renamed m t t' := by
  unfold rename at h
  split at h
  · cases h
  · rename_i hsource
    split at h
    · rename_i hparent
      split at h
      · rename_i hfresh
        cases h
        refine ⟨hsource, hparent, hfresh, fun path entry hpath => ?_, fun path entry hpath => ?_⟩
        · exact find_rehung hparent hfresh m.out hpath
        · exact find_rehung_some hparent hfresh m.out hpath
      · cases h
    · cases h

end

section

variable [DecidableEq ν] {t t' t'' : Tree ν γ} {p : Policy ν} {place place' : List ν → List ν}
  {path root : List ν}

theorem Tracked.written (h : Tracked p t t' place) (hwritten : p.written path) :
    p.written (place path) := by
  rcases h.placed path with hplace | ⟨m, hm, rest, rfl, -⟩
  · rwa [hplace]
  · obtain ⟨root, hroot, hbegins⟩ := hwritten
    exact absurd hbegins ((p.written_apart root m hroot hm).not_below rest)

theorem Tracked.refl (p : Policy ν) (t : Tree ν γ) : Tracked p t t id where
  placed := fun _ => .inl rfl
  kept := fun _ _ h => .inl h
  injective := fun _ _ _ _ _ _ h => h

theorem Tracked.trans (h : Tracked p t t' place) (h' : Tracked p t' t'' place') :
    Tracked p t t'' (place' ∘ place) where
  placed := by
    intro path
    rcases h.placed path with hplace | ⟨m, hm, rest, rfl, hplace⟩
    · rw [Function.comp_apply, hplace]
      exact h'.placed path
    · refine .inr ⟨m, hm, rest, rfl, ?_⟩
      rw [Function.comp_apply, hplace]
      rcases h'.placed (m.dest ++ rest) with hplace' | ⟨m', hm', rest', heq, -⟩
      · exact hplace'
      · have hapart := (p.moved_apart m' m hm' hm).not_below rest
        exact absurd (heq ▸ List.prefix_append m'.source rest') hapart
  kept := by
    intro path entry hfind
    rcases h.kept path entry hfind with hkept | hwritten
    · exact h'.kept (place path) entry hkept
    · exact .inr (h'.written hwritten)
  injective := by
    intro first second hfirst hsecond hfirst' hsecond' heq
    have hfound {path : List ν} (hpath : t.find path ≠ none) (hnot : ¬ p.written (place' (place path))) :
        ¬ p.written (place path) ∧ t'.find (place path) ≠ none := by
      have hunwritten : ¬ p.written (place path) := fun hwritten => hnot (h'.written hwritten)
      obtain ⟨entry, hentry⟩ := Option.ne_none_iff_exists'.mp hpath
      refine ⟨hunwritten, ?_⟩
      rw [(h.kept path entry hentry).resolve_right hunwritten]
      simp
    obtain ⟨hunwritten, hfind⟩ := hfound hfirst hfirst'
    obtain ⟨hunwritten', hfind'⟩ := hfound hsecond hsecond'
    apply h.injective first second hfirst hsecond hunwritten hunwritten'
    exact h'.injective _ _ hfind hfind' hfirst' hsecond' heq

instance : Std.Refl (Relocated (γ := γ) p) := ⟨fun t => ⟨id, .refl p t⟩⟩

instance : IsTrans (Tree ν γ) (Relocated p) :=
  ⟨fun _ _ _ ⟨_, h⟩ ⟨_, h'⟩ => ⟨_, h.trans h'⟩⟩

variable [DecidableEq γ]

theorem create_relocated {parent : List ν} {name : ν} {entry : Entry γ}
    (h : t.create parent name entry = .ok t') : Relocated p t t' := by
  obtain ⟨-, hfresh, hfind⟩ := create_spec h
  refine ⟨id, fun _ => .inl rfl, fun path kept hkept => ?_, fun _ _ _ _ _ _ heq => heq⟩
  apply Or.inl
  rw [id, hfind, if_neg]
  · exact hkept
  · rintro rfl
    rw [hfresh] at hkept
    cases hkept

theorem rename_relocated {m : Move ν} (h : rename t m = .ok t') (hm : p.moves m) :
    Relocated p t t' := by
  have hrenamed := rename_spec h
  refine ⟨moved m.source m.dest, fun path => ?_, fun path entry hpath => ?_, ?_⟩
  · rcases moved_cases m.source m.dest path with ⟨rest, rfl, hmoved⟩ | ⟨-, hmoved⟩
    · exact .inr ⟨m, hm, rest, rfl, hmoved⟩
    · exact .inl hmoved
  · exact .inl (hrenamed.kept path entry hpath)
  · intro first second hfirst hsecond _ _ heq
    exact moved_inj (not_prefix_of_find hrenamed.fresh hfirst)
      (not_prefix_of_find hrenamed.fresh hsecond) heq

theorem replace_relocated {contents : Tree ν γ} (hroot : p.writes root) :
    Relocated p t (replace t root contents) := by
  refine ⟨id, fun _ => .inl rfl, fun path entry hpath => ?_, fun _ _ _ _ _ _ heq => heq⟩
  by_cases hbegins : root <+: path
  · exact .inr ⟨root, hroot, hbegins⟩
  · rw [id, replace_other hbegins]
    exact .inl hpath

end

end Pishoo.Relocation
