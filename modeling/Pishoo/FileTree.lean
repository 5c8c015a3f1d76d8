import Mathlib.Algebra.GroupWithZero.Nat
import Mathlib.Data.List.Induction
import Mathlib.Data.List.Perm.Subperm
import Mathlib.Data.List.Nodup
import Pishoo.Result

namespace Pishoo.FileTree

open Result

inductive Entry (γ : Type)
  | dir
  | file (content : γ)
  deriving DecidableEq

/-- The directories and files below a directory, each with the names that lead to it. Every entry
lies in the directory itself or in one of its directories. -/
structure Tree (ν γ : Type) where
  entries : List (List ν × Entry γ)
  nodup : (entries.map Prod.fst).Nodup
  parents : ∀ e ∈ entries, ∃ parent name, e.1 = parent ++ [name] ∧
    (parent = [] ∨ (parent, .dir) ∈ entries)

inductive Fault
  | notFound
  | alreadyExists
  | notDirectory
  deriving DecidableEq

/-- How many of the paths start with a path. -/
def under {ν : Type} [DecidableEq ν] (paths : List (List ν)) (path : List ν) : Nat :=
  paths.countP fun other => path <+: other

section

variable {ν : Type} [DecidableEq ν] {paths : List (List ν)} {path : List ν} {names : List ν}

theorem count_children_le (hnodup : names.Nodup) (path other : List ν) :
    names.countP (fun name => path ++ [name] <+: other) + (if other = path then 1 else 0) ≤
      if path <+: other then 1 else 0 := by
  by_cases hpath : path <+: other
  · obtain ⟨rest, rfl⟩ := hpath
    rw [if_pos (List.prefix_append _ _)]
    cases rest with
    | nil =>
        have hzero : names.countP (fun name => path ++ [name] <+: path ++ []) = 0 := by
          rw [List.countP_eq_zero]
          intro name _ hprefix
          have hlength := (of_decide_eq_true hprefix).length_le
          simp only [List.length_append, List.length_singleton, List.length_nil] at hlength
          omega
        exact Nat.le_of_eq (by rw [hzero, List.append_nil, if_pos rfl])
    | cons first rest =>
        have hone : names.countP (fun name => path ++ [name] <+: path ++ first :: rest) =
            names.count first := by
          refine List.countP_congr fun name _ => ?_
          rw [decide_eq_true_eq, List.prefix_append_right_inj, List.cons_prefix_cons, beq_iff_eq]
          exact and_iff_left (List.nil_prefix)
        rw [hone, if_neg (by simp), Nat.add_zero]
        exact List.nodup_iff_count_le_one.mp hnodup first
  · have hzero : names.countP (fun name => path ++ [name] <+: other) = 0 := by
      rw [List.countP_eq_zero]
      intro name _ hprefix
      exact hpath ((List.prefix_append path [name]).trans (of_decide_eq_true hprefix))
    have hne : other ≠ path := fun heq => hpath (heq ▸ List.prefix_refl _)
    rw [hzero, if_neg hne]
    exact Nat.zero_le _

theorem sum_under_cons (paths : List (List ν)) (path other : List ν) (names : List ν) :
    (names.map fun name => under (other :: paths) (path ++ [name])).sum =
      (names.map fun name => under paths (path ++ [name])).sum +
        names.countP (fun name => path ++ [name] <+: other) := by
  induction names with
  | nil => rfl
  | cons name names ih =>
      simp only [List.map_cons, List.sum_cons, List.countP_cons, ih, decide_eq_true_eq]
      have hunder : under (other :: paths) (path ++ [name]) =
          under paths (path ++ [name]) + if path ++ [name] <+: other then 1 else 0 := by
        simp only [under, List.countP_cons, decide_eq_true_eq]
      omega

/-- What starts with a path is the path, or starts with one of its children. -/
theorem sum_under_le (hnodup : names.Nodup) :
    (names.map fun name => under paths (path ++ [name])).sum + paths.count path ≤ under paths path := by
  induction paths with
  | nil => simp [under]
  | cons other paths ih =>
      have hsum := sum_under_cons paths path other names
      have hchild := count_children_le hnodup path other
      have hunder : under (other :: paths) path = under paths path + if path <+: other then 1 else 0 := by
        simp only [under, List.countP_cons, decide_eq_true_eq]
      rw [hsum, hunder, List.count_cons]
      simp only [beq_iff_eq]
      omega

theorem under_pos {rest : List ν} (h : path ++ rest ∈ paths) : 0 < under paths path :=
  List.countP_pos_iff.mpr ⟨_, h, decide_eq_true (List.prefix_append _ _)⟩

end

namespace Tree

variable {ν γ : Type} [DecidableEq ν]

def empty : Tree ν γ := ⟨[], List.nodup_nil, nofun⟩

def find (t : Tree ν γ) (path : List ν) : Option (Entry γ) :=
  if path = [] then some .dir else t.entries.lookup path

def lastIn (path other : List ν) : Option ν :=
  if other.dropLast = path then other.getLast? else none

/-- The names in a directory. -/
def names (t : Tree ν γ) (path : List ν) : List ν :=
  (t.entries.map Prod.fst).filterMap (lastIn path)

/-- A directory below a directory. -/
def openDir (t : Tree ν γ) (parent : List ν) (name : ν) : Except Fault (List ν) :=
  match t.find (parent ++ [name]) with
  | some .dir => .ok (parent ++ [name])
  | some (.file _) => .error .notDirectory
  | none => .error .notFound

section

variable {t : Tree ν γ} {path parent : List ν} {name : ν} {entry : Entry γ}

theorem lookup_eq_some {entries : List (List ν × Entry γ)} (hnodup : (entries.map Prod.fst).Nodup) :
    entries.lookup path = some entry ↔ (path, entry) ∈ entries := by
  induction entries with
  | nil => simp
  | cons e entries ih =>
      obtain ⟨other, kept⟩ := e
      obtain ⟨hnot, hnodup⟩ := List.nodup_cons.mp hnodup
      by_cases h : path = other
      · subst h
        have hmem : (path, entry) ∉ entries := fun hmem =>
          hnot (List.mem_map.mpr ⟨_, hmem, rfl⟩)
        simp [hmem, eq_comm]
      · have hne : (path == other) = false := by simpa using h
        rw [List.lookup_cons, hne, List.mem_cons, ← ih hnodup]
        simp [h]

@[simp] theorem find_nil : t.find [] = some .dir := rfl

theorem find_concat : t.find (parent ++ [name]) = some entry ↔ (parent ++ [name], entry) ∈ t.entries := by
  rw [find, if_neg (by simp), lookup_eq_some t.nodup]

theorem find_of_ne (h : path ≠ []) : t.find path = some entry ↔ (path, entry) ∈ t.entries := by
  rw [find, if_neg h, lookup_eq_some t.nodup]

@[simp] theorem find_empty : (empty : Tree ν γ).find path = if path = [] then some .dir else none := rfl

/-- What lies at a path lies in a directory. -/
theorem find_parent (h : t.find (parent ++ [name]) = some entry) : t.find parent = some .dir := by
  obtain ⟨parent', name', heq, hparent⟩ := t.parents _ (find_concat.mp h)
  obtain ⟨rfl, -⟩ := List.append_inj' heq rfl
  by_cases hnil : parent = []
  · rw [hnil, find_nil]
  · exact (find_of_ne hnil).mpr (hparent.resolve_left hnil)

/-- The way to an entry leads through directories. -/
theorem find_prefix {rest : List ν} (hrest : rest ≠ []) (h : t.find (path ++ rest) = some entry) :
    t.find path = some .dir := by
  induction rest using List.reverseRecOn generalizing entry with
  | nil => exact absurd rfl hrest
  | append_singleton rest name ih =>
      rw [← List.append_assoc] at h
      have hparent := find_parent h
      by_cases hnil : rest = []
      · rwa [hnil, List.append_nil] at hparent
      · exact ih hnil hparent

theorem lastIn_eq_some {other : List ν} : lastIn path other = some name ↔ other = path ++ [name] := by
  unfold lastIn
  constructor
  · intro h
    split at h
    · rename_i hpath
      obtain ⟨start, rfl⟩ := List.getLast?_eq_some_iff.mp h
      rw [List.dropLast_concat] at hpath
      rw [hpath]
    · cases h
  · rintro rfl
    simp

theorem mem_names : name ∈ t.names path ↔ ∃ entry, t.find (path ++ [name]) = some entry := by
  simp only [names, List.mem_filterMap, List.mem_map, find_concat, lastIn_eq_some]
  constructor
  · rintro ⟨_, ⟨e, he, rfl⟩, h⟩
    exact ⟨e.2, h ▸ he⟩
  · rintro ⟨entry, hmem⟩
    exact ⟨_, ⟨_, hmem, rfl⟩, rfl⟩

theorem names_nodup : (t.names path).Nodup := by
  refine t.nodup.filterMap fun first second last hfirst hsecond => ?_
  rw [lastIn_eq_some.mp hfirst, lastIn_eq_some.mp hsecond]

/-- Different directories share no entry. -/
theorem sum_names_le {paths : List (List ν)} (h : paths.Nodup) :
    (paths.map fun path => (t.names path).length).sum ≤ t.entries.length := by
  have hsum : (paths.map fun path => (t.names path).length).sum =
      (paths.flatMap fun path => (t.names path).map fun name => path ++ [name]).length := by
    rw [List.length_flatMap]
    simp
  have hnodup : (paths.flatMap fun path => (t.names path).map fun name => path ++ [name]).Nodup := by
    refine List.nodup_flatMap.mpr ⟨fun path _ => ?_, h.imp fun {first second} hne => ?_⟩
    · refine names_nodup.map fun _ _ heq => ?_
      simpa using heq
    · intro e hfirst hsecond
      obtain ⟨_, -, rfl⟩ := List.mem_map.mp hfirst
      obtain ⟨_, -, heq⟩ := List.mem_map.mp hsecond
      exact hne (List.append_inj' heq rfl).1.symm
  have hsubset : (paths.flatMap fun path => (t.names path).map fun name => path ++ [name]) ⊆
      t.entries.map Prod.fst := by
    intro e he
    obtain ⟨path, -, he⟩ := List.mem_flatMap.mp he
    obtain ⟨name, hname, rfl⟩ := List.mem_map.mp he
    obtain ⟨entry, hentry⟩ := mem_names.mp hname
    exact List.mem_map_of_mem (find_concat.mp hentry)
  rw [hsum, ← List.length_map Prod.fst]
  exact (hnodup.subperm hsubset).length_le

theorem openDir_eq_ok : t.openDir parent name = .ok path ↔
    t.find (parent ++ [name]) = some .dir ∧ path = parent ++ [name] := by
  unfold openDir
  cases t.find (parent ++ [name]) with
  | none => simp
  | some entry => cases entry <;> simp [eq_comm]

end

variable [DecidableEq γ]

def add (t : Tree ν γ) (parent : List ν) (name : ν) (entry : Entry γ)
    (hparent : t.find parent = some .dir) (hfresh : t.find (parent ++ [name]) = none) : Tree ν γ where
  entries := (parent ++ [name], entry) :: t.entries
  nodup := by
    refine List.nodup_cons.mpr ⟨fun hmem => ?_, t.nodup⟩
    obtain ⟨e, he, heq⟩ := List.mem_map.mp hmem
    obtain ⟨path, kept⟩ := e
    obtain rfl : path = parent ++ [name] := heq
    rw [find_concat.mpr he] at hfresh
    cases hfresh
  parents := by
    have hroot : parent = [] ∨ (parent, .dir) ∈ t.entries := by
      by_cases hnil : parent = []
      · exact .inl hnil
      · exact .inr ((find_of_ne hnil).mp hparent)
    intro e he
    obtain rfl | he := List.mem_cons.mp he
    · exact ⟨parent, name, rfl, hroot.imp_right (List.mem_cons_of_mem _)⟩
    · obtain ⟨parent', name', heq, hparent'⟩ := t.parents e he
      exact ⟨parent', name', heq, hparent'.imp_right (List.mem_cons_of_mem _)⟩

/-- A new entry, which must not be there yet. -/
def create (t : Tree ν γ) (parent : List ν) (name : ν) (entry : Entry γ) : Except Fault (Tree ν γ) :=
  if hparent : t.find parent = some .dir then
    if hfresh : t.find (parent ++ [name]) = none then .ok (t.add parent name entry hparent hfresh)
    else .error .alreadyExists
  else .error .notDirectory

section

variable {t t' : Tree ν γ} {parent : List ν} {name : ν} {entry : Entry γ}

theorem create_spec (h : t.create parent name entry = .ok t') :
    t.find parent = some .dir ∧ t.find (parent ++ [name]) = none ∧
      ∀ path, t'.find path = if path = parent ++ [name] then some entry else t.find path := by
  unfold create at h
  split at h
  · rename_i hparent
    split at h
    · rename_i hfresh
      cases h
      refine ⟨hparent, hfresh, fun path => ?_⟩
      unfold find add
      by_cases hpath : path = parent ++ [name]
      · simp [hpath]
      · by_cases hnil : path = []
        · simp [hnil]
        · have hne : (path == parent ++ [name]) = false := by simpa using hpath
          simp [hnil, hpath, List.lookup_cons, hne]
    · cases h
  · cases h

end

end Tree

end Pishoo.FileTree
