import Mathlib.Logic.Function.Basic
import Pishoo.Error
import Pishoo.FileTree
import Pishoo.Worklist

namespace Pishoo.FileOwners

open FileTree Tree Effects Effect Worklist Relation

abbrev Path := List String

/-- Something that is not a directory. -/
structure Leaf where
  regular : Bool
  links : Nat
  deriving DecidableEq

/-- What does not change while the owners are restored. -/
structure Disk where
  tree : Tree String Leaf
  device : Path → Nat

structure Owner where
  uid : Nat
  gid : Nat
  mode : Nat
  deriving DecidableEq

/-- The owner of each entry. An entry with one link is at one path. -/
abbrev Owners := Path → Owner

abbrev Program (α : Type) := Effect Owners Error α

/-- How the calls of the system end. `cleared` is what a change of the owner leaves of the mode. -/
structure Calls where
  root : Bool
  listed : Path → Except Error Unit
  opened : Path → Except Error Unit
  chowned : Path → Except Error Unit
  permitted : Path → Except Error Unit
  cleared : Nat → Nat

def isDir (d : Disk) (path : Path) : Bool := d.tree.find path == some .dir

def isFile (d : Disk) (path : Path) : Bool :=
  match d.tree.find path with
  | some (.file leaf) => leaf.regular
  | _ => false

/-- A directory counts as linked once. -/
def links (d : Disk) (path : Path) : Nat :=
  match d.tree.find path with
  | some (.file leaf) => leaf.links
  | _ => 1

def belongs (owner : Owner) (o : Owner) : Bool := o.uid == owner.uid && o.gid == owner.gid

section

variable (d : Disk) (c : Calls)

def chown (path : Path) (owner : Owner) : Program Unit := do
  read fun _ => c.chowned path
  write fun s => .ok (Function.update s path ⟨owner.uid, owner.gid, c.cleared (s path).mode⟩)

def setPermissions (path : Path) (mode : Nat) : Program Unit := do
  read fun _ => c.permitted path
  write fun s => .ok (Function.update s path { s path with mode := mode })

def restore (owner : Owner) (path : Path) : Program Unit := do
  let metadata ← read fun s => .ok (s path)
  if belongs owner metadata then pure ()
  else do
    chown c path owner
    setPermissions c path metadata.mode

/-- What `repair_identity_ownership` leaves alone. -/
def identitySkips (device : Nat) (path : Path) : Bool :=
  d.device path != device || (!isDir d path && links d path != 1) ||
    (!isFile d path && !isDir d path)

/-- What `repair_guest_directory` leaves alone. -/
def guestSkips (device : Nat) (path : Path) : Bool :=
  d.device path != device || (!isDir d path && (!isFile d path || links d path != 1))

def visitEntry (skips : Path → Bool) (owner : Owner) (path : Path) : Program (List Path) := do
  if !isDir d path && !isFile d path then pure []
  else do
    read fun _ => c.opened path
    if skips path then pure []
    else do
      restore c owner path
      pure (if isDir d path then [path] else [])

def visitEntries (skips : Path → Bool) (owner : Owner) (directory : Path) :
    List String → Program (List Path)
  | [] => pure []
  | name :: names => do
      let found ← visitEntry d c skips owner (directory ++ [name])
      let rest ← visitEntries skips owner directory names
      pure (found ++ rest)

def visitDirectory (skips : Path → Bool) (owner : Owner) (directory : Path) : Program (List Path) := do
  read fun _ => c.listed directory
  visitEntries d c skips owner directory (d.tree.names directory)

/-- Each directory is opened at most once. -/
def fuel : Nat := d.tree.entries.length + 2

def repairIdentityOwnership (owner : Owner) : Program Unit :=
  drain (visitDirectory d c (identitySkips d (d.device [])) owner) (fuel d) [[]]

def repairGuestDirectory : Program Unit := do
  let owner ← read fun s => .ok (s [])
  drain (visitDirectory d c (guestSkips d (d.device [])) owner) (fuel d) [[]]

/-- After each run of a component, for the directory that it sees. -/
def repairGuestOwnership : Program Unit := if c.root then repairGuestDirectory d c else pure ()

end

section

variable {d : Disk} {c : Calls} {owner : Owner} {path directory : Path} {s s' : Owners} {u : Unit}

/-- An entry that can be reached within the file system of the directory and has no other name. -/
structure Repairable (d : Disk) (path : Path) : Prop where
  below : path ≠ []
  kind : isDir d path = true ∨ isFile d path = true ∧ links d path = 1
  device : ∀ start, start ≠ [] → start <+: path → d.device start = d.device []

def Visited (d : Disk) (directory : Path) : Prop :=
  isDir d directory = true ∧ (directory = [] ∨ Repairable d directory)

theorem skips_agree (device : Nat) (path : Path) :
    guestSkips d device path = identitySkips d device path := by
  unfold guestSkips identitySkips
  cases isDir d path <;> cases isFile d path <;> cases d.device path != device <;>
    cases links d path != 1 <;> rfl

theorem identitySkips_eq_false {device : Nat} (hkind : isDir d path = true ∨ isFile d path = true) :
    identitySkips d device path = false ↔ d.device path = device ∧
      (isDir d path = true ∨ isFile d path = true ∧ links d path = 1) := by
  unfold identitySkips
  cases hdir : isDir d path
  · rcases hkind with hkind | hkind
    · rw [hdir] at hkind
      cases hkind
    · simp [hkind]
  · simp

theorem repairable_child (hdirectory : Visited d directory) {name : String}
    (hkind : isDir d (directory ++ [name]) = true ∨ isFile d (directory ++ [name]) = true)
    (h : identitySkips d (d.device []) (directory ++ [name]) = false) :
    Repairable d (directory ++ [name]) := by
  obtain ⟨hdevice, hkind⟩ := (identitySkips_eq_false hkind).mp h
  refine ⟨by simp, hkind, ?_⟩
  intro start hstart hbelow
  rcases List.prefix_concat_iff.mp hbelow with rfl | hbelow
  · exact hdevice
  · rcases hdirectory.2 with rfl | hdirectory
    · exact absurd (List.prefix_nil.mp hbelow) hstart
    · exact hdirectory.device start hstart hbelow

theorem isDir_iff : isDir d path = true ↔ d.tree.find path = some .dir := by
  rw [isDir, beq_iff_eq]

/-- The way to a repairable entry leads through directories that are visited. -/
theorem Repairable.parent {name : String} (h : Repairable d (directory ++ [name])) :
    Visited d directory ∧ name ∈ d.tree.names directory := by
  have hfind : ∃ entry, d.tree.find (directory ++ [name]) = some entry := by
    cases hfind : d.tree.find (directory ++ [name]) with
    | none =>
        rcases h.kind with hkind | ⟨hkind, -⟩
        · rw [isDir_iff, hfind] at hkind
          cases hkind
        · rw [isFile, hfind] at hkind
          cases hkind
    | some entry => exact ⟨entry, rfl⟩
  obtain ⟨entry, hentry⟩ := hfind
  have hdir := isDir_iff.mpr (find_parent hentry)
  refine ⟨⟨hdir, ?_⟩, mem_names.mpr ⟨entry, hentry⟩⟩
  by_cases hnil : directory = []
  · exact .inl hnil
  · refine .inr ⟨hnil, .inl hdir, fun start hstart hbelow => ?_⟩
    exact h.device start hstart (hbelow.trans (List.prefix_append _ _))

theorem Repairable.not_skipped {name : String} (h : Repairable d (directory ++ [name])) :
    identitySkips d (d.device []) (directory ++ [name]) = false := by
  have hkind : isDir d (directory ++ [name]) = true ∨ isFile d (directory ++ [name]) = true :=
    h.kind.imp_right And.left
  apply (identitySkips_eq_false hkind).mpr
  exact ⟨h.device _ (by simp) (List.prefix_refl _), h.kind⟩

end

section

variable {d : Disk} {c : Calls} {owner : Owner} {path : Path} {s s' : Owners} {u : Unit}

/-- The entry has the owner and the mode that it had before. -/
def given (owner : Owner) (o : Owner) : Owner := ⟨owner.uid, owner.gid, o.mode⟩

theorem belongs_given (o : Owner) : belongs owner (given owner o) = true := by
  simp [belongs, given]

theorem given_of_belongs {o : Owner} (h : belongs owner o = true) : given owner o = o := by
  simp only [belongs, Bool.and_eq_true, beq_iff_eq] at h
  rw [given, ← h.1, ← h.2]

theorem outcome_restore : (restore c owner path).outcome s =
    if belongs owner (s path) then (.ok (), s)
    else match c.chowned path with
      | .error e => (.error e, s)
      | .ok _ =>
          match c.permitted path with
          | .error e => (.error e,
              Function.update s path ⟨owner.uid, owner.gid, c.cleared (s path).mode⟩)
          | .ok _ => (.ok (), Function.update s path (given owner (s path))) := by
  rw [restore, outcome_bind, outcome_read]
  by_cases hbelongs : belongs owner (s path) = true
  · simp [hbelongs]
  · simp only [hbelongs, Bool.false_eq_true, ↓reduceIte]
    rw [outcome_bind, chown, outcome_bind, outcome_read]
    cases c.chowned path with
    | error e => rfl
    | ok _ =>
        simp only [outcome_write]
        rw [setPermissions, outcome_bind, outcome_read]
        cases c.permitted path with
        | error e => rfl
        | ok _ => simp [outcome_write, given]

end

/-- Only repairable entries of others change, and they come to the owner. A failure can leave one with
what the change of its owner has left of its mode. -/
def Repaired (d : Disk) (c : Calls) (owner : Owner) (s s' : Owners) : Prop :=
  ∀ path, s' path = s path ∨ (Repairable d path ∧ belongs owner (s path) = false ∧
    belongs owner (s' path) = true ∧
    ((s' path).mode = (s path).mode ∨ (s' path).mode = c.cleared (s path).mode))

/-- Each entry is as it was, or as it should be. -/
def Advanced (owner : Owner) (s s' : Owners) : Prop :=
  ∀ path, s' path = s path ∨ s' path = given owner (s path)

section

variable {d : Disk} {c : Calls} {owner : Owner}

instance : Std.Refl (Repaired d c owner) := ⟨fun _ _ => .inl rfl⟩

instance : IsTrans Owners (Repaired d c owner) where
  trans := by
    intro s s' s'' h h' path
    rcases h path with hsame | ⟨hpath, hbefore, hafter, hmode⟩
    · rcases h' path with hsame' | ⟨hpath, hbefore, hafter, hmode⟩
      · exact .inl (hsame'.trans hsame)
      · rw [hsame] at hbefore hmode
        exact .inr ⟨hpath, hbefore, hafter, hmode⟩
    · rcases h' path with hsame' | ⟨-, hbefore', -⟩
      · rw [← hsame'] at hafter hmode
        exact .inr ⟨hpath, hbefore, hafter, hmode⟩
      · rw [hafter] at hbefore'
        cases hbefore'

instance : Std.Refl (Advanced owner) := ⟨fun _ _ => .inl rfl⟩

instance : IsTrans Owners (Advanced owner) where
  trans := by
    intro s s' s'' h h' path
    rcases h path with hsame | hgiven
    · rw [← hsame]
      exact h' path
    · rcases h' path with hsame' | hgiven'
      · exact .inr (hsame'.trans hgiven)
      · refine .inr (hgiven'.trans ?_)
        rw [hgiven]
        rfl

variable {path directory : Path} {s s' : Owners} {u : Unit}

theorem Advanced.belongs (h : Advanced owner s s') (hpath : belongs owner (s path) = true) :
    FileOwners.belongs owner (s' path) = true := by
  rcases h path with hsame | hgiven
  · rwa [hsame]
  · rw [hgiven]
    exact belongs_given _

theorem restore_keeps (hpath : Repairable d path) :
    Keeps (Repaired d c owner) (restore c owner path) := by
  intro s
  rw [outcome_restore]
  by_cases hbelongs : belongs owner (s path) = true
  · rw [if_pos hbelongs]
    exact Std.Refl.refl s
  · rw [if_neg hbelongs]
    rw [Bool.not_eq_true] at hbelongs
    have hupdate {o : Owner} (howner : belongs owner o = true)
        (hmode : o.mode = (s path).mode ∨ o.mode = c.cleared (s path).mode) :
        Repaired d c owner s (Function.update s path o) := by
      intro other
      by_cases hother : other = path
      · subst hother
        rw [Function.update_self]
        exact .inr ⟨hpath, hbelongs, howner, hmode⟩
      · rw [Function.update_of_ne hother]
        exact .inl rfl
    cases c.chowned path with
    | error e => exact Std.Refl.refl s
    | ok _ =>
        cases c.permitted path with
        | error e => exact hupdate (by simp [belongs]) (.inr rfl)
        | ok _ => exact hupdate (belongs_given _) (.inl rfl)

theorem restore_ok (h : (restore c owner path).outcome s = (.ok u, s')) :
    Advanced owner s s' ∧ belongs owner (s' path) = true := by
  rw [outcome_restore] at h
  by_cases hbelongs : belongs owner (s path) = true
  · rw [if_pos hbelongs] at h
    cases h
    exact ⟨Std.Refl.refl _, hbelongs⟩
  · rw [if_neg hbelongs] at h
    split at h
    · cases h
    · split at h
      · cases h
      · cases h
        refine ⟨fun other => ?_, ?_⟩
        · by_cases hother : other = path
          · subst hother
            rw [Function.update_self]
            exact .inr rfl
          · rw [Function.update_of_ne hother]
            exact .inl rfl
        · rw [Function.update_self]
          exact belongs_given _

/-- What a visited directory leads to. -/
def childOf (d : Disk) (path : Path) : List Path :=
  if isDir d path && !identitySkips d (d.device []) path then [path] else []

def children (d : Disk) (directory : Path) : List Path :=
  (d.tree.names directory).flatMap fun name => childOf d (directory ++ [name])

theorem visitEntry_keeps {name : String} (hdirectory : Visited d directory) :
    Keeps (Repaired d c owner)
      (visitEntry d c (identitySkips d (d.device [])) owner (directory ++ [name])) := by
  unfold visitEntry
  split
  · exact keeps_pure _
  · rename_i hkind
    refine (keeps_read _).bind fun _ => ?_
    split
    · exact keeps_pure _
    · rename_i hskips
      have hkind' : isDir d (directory ++ [name]) = true ∨ isFile d (directory ++ [name]) = true := by
        simpa [or_iff_not_imp_left] using hkind
      rw [Bool.not_eq_true] at hskips
      refine (restore_keeps (repairable_child hdirectory hkind' hskips)).bind fun _ => ?_
      exact keeps_pure _

theorem visitEntry_ok {found : List Path} (h : (visitEntry d c (identitySkips d (d.device [])) owner
    path).outcome s = (.ok found, s')) :
    found = childOf d path ∧ Advanced owner s s' ∧
      (isDir d path = true ∨ isFile d path = true → identitySkips d (d.device []) path = false →
        belongs owner (s' path) = true) := by
  unfold visitEntry at h
  unfold childOf
  split at h
  · rename_i hkind
    cases h
    simp only [Bool.and_eq_true, Bool.not_eq_true'] at hkind
    refine ⟨by simp [hkind.1], Std.Refl.refl _, fun hkind' => ?_⟩
    rcases hkind' with hdir | hfile
    · rw [hkind.1] at hdir
      cases hdir
    · rw [hkind.2] at hfile
      cases hfile
  · obtain ⟨_, -, h⟩ := read_bind_ok.mp h
    split at h
    · rename_i hskips
      cases h
      refine ⟨by simp [hskips], Std.Refl.refl _, fun _ hnot => ?_⟩
      rw [hskips] at hnot
      cases hnot
    · rename_i hskips
      rw [Bool.not_eq_true] at hskips
      obtain ⟨_, middle, hrestore, hlast⟩ := outcome_bind_ok.mp h
      obtain ⟨hadvanced, hbelongs⟩ := restore_ok hrestore
      cases hlast
      exact ⟨by simp [hskips], hadvanced, fun _ _ => hbelongs⟩

theorem visitEntries_keeps {names : List String} (hdirectory : Visited d directory) :
    Keeps (Repaired d c owner)
      (visitEntries d c (identitySkips d (d.device [])) owner directory names) := by
  induction names with
  | nil => exact keeps_pure _
  | cons name names ih =>
      rw [visitEntries]
      refine (visitEntry_keeps hdirectory).bind fun _ => ?_
      exact ih.bind fun _ => keeps_pure _

theorem visitEntries_ok {names : List String} {found : List Path}
    (h : (visitEntries d c (identitySkips d (d.device [])) owner directory names).outcome s =
      (.ok found, s')) :
    found = names.flatMap (fun name => childOf d (directory ++ [name])) ∧ Advanced owner s s' ∧
      ∀ name ∈ names, Repairable d (directory ++ [name]) →
        belongs owner (s' (directory ++ [name])) = true := by
  induction names generalizing s found with
  | nil =>
      cases h
      refine ⟨rfl, Std.Refl.refl _, ?_⟩
      intro name hname
      cases hname
  | cons name names ih =>
      obtain ⟨first, middle, hfirst, h⟩ := outcome_bind_ok.mp h
      obtain ⟨rest, last, hrest, hlast⟩ := outcome_bind_ok.mp h
      cases hlast
      obtain ⟨hfound, hadvanced, hgiven⟩ := visitEntry_ok hfirst
      obtain ⟨hfound', hadvanced', hgiven'⟩ := ih hrest
      refine ⟨by rw [hfound, hfound', List.flatMap_cons], IsTrans.trans _ _ _ hadvanced hadvanced', ?_⟩
      intro other hother hrepairable
      rcases List.mem_cons.mp hother with rfl | hother
      · apply hadvanced'.belongs
        exact hgiven (hrepairable.kind.imp_right And.left) hrepairable.not_skipped
      · exact hgiven' other hother hrepairable

end

/-- How many entries lie below a path. -/
def weight (d : Disk) (path : Path) : Nat :=
  under (d.tree.entries.map Prod.fst) path + if path = [] then 1 else 0

section

variable {d : Disk} {c : Calls} {owner : Owner} {directory path : Path} {s s' : Owners} {u : Unit}

theorem mem_childOf {other : Path} (h : other ∈ childOf d path) :
    other = path ∧ isDir d path = true ∧ identitySkips d (d.device []) path = false := by
  unfold childOf at h
  split at h
  · rename_i hchild
    rw [Bool.and_eq_true, Bool.not_eq_true'] at hchild
    exact ⟨List.mem_singleton.mp h, hchild⟩
  · cases h

theorem visited_child (hdirectory : Visited d directory) (h : path ∈ children d directory) :
    Visited d path := by
  obtain ⟨name, -, hname⟩ := List.mem_flatMap.mp h
  obtain ⟨rfl, hdir, hskips⟩ := mem_childOf hname
  exact ⟨hdir, .inr (repairable_child hdirectory (.inl hdir) hskips)⟩

theorem sum_children_le (d : Disk) (directory : Path) (names : List String) :
    ((names.flatMap fun name => childOf d (directory ++ [name])).map (weight d)).sum ≤
      (names.map fun name => under (d.tree.entries.map Prod.fst) (directory ++ [name])).sum := by
  induction names with
  | nil => exact Nat.le_refl 0
  | cons name names ih =>
      have hchild : ((childOf d (directory ++ [name])).map (weight d)).sum ≤
          under (d.tree.entries.map Prod.fst) (directory ++ [name]) := by
        unfold childOf
        split
        · simp [weight]
        · exact Nat.zero_le _
      rw [List.flatMap_cons, List.map_append, List.sum_append, List.map_cons, List.sum_cons]
      omega

theorem children_lighter (h : Visited d directory) :
    ((children d directory).map (weight d)).sum < weight d directory := by
  have hsum := sum_children_le d directory (d.tree.names directory)
  have hbelow : ((d.tree.names directory).map fun name =>
      under (d.tree.entries.map Prod.fst) (directory ++ [name])).sum +
        (d.tree.entries.map Prod.fst).count directory ≤ under (d.tree.entries.map Prod.fst) directory :=
    sum_under_le names_nodup
  have hweight : weight d directory = under (d.tree.entries.map Prod.fst) directory +
      if directory = [] then 1 else 0 := rfl
  rw [children, hweight]
  by_cases hnil : directory = []
  · rw [if_pos hnil]
    exact Nat.lt_succ_of_le (hsum.trans (Nat.le_of_add_right_le hbelow))
  · have hmem : directory ∈ d.tree.entries.map Prod.fst :=
      List.mem_map_of_mem ((find_of_ne hnil).mp (isDir_iff.mp h.1))
    have hcount := List.count_pos_iff.mpr hmem
    rw [if_neg hnil]
    omega

theorem visitDirectory_ok {found : List Path} (h : (visitDirectory d c (identitySkips d (d.device []))
    owner directory).outcome s = (.ok found, s')) :
    found = children d directory ∧ Advanced owner s s' ∧
      ∀ name ∈ d.tree.names directory, Repairable d (directory ++ [name]) →
        belongs owner (s' (directory ++ [name])) = true := by
  obtain ⟨_, -, h⟩ := read_bind_ok.mp h
  exact visitEntries_ok h

theorem visitDirectory_shrinks : Shrinks (visitDirectory d c (identitySkips d (d.device [])) owner)
    (children d) (weight d) (Visited d) where
  found := fun _ _ _ _ _ h => (visitDirectory_ok h).1
  closed := fun _ hdirectory _ hpath => visited_child hdirectory hpath
  lighter := fun _ h => children_lighter h

theorem visitDirectory_keeps (h : Visited d directory) : Keeps (Repaired d c owner)
    (visitDirectory d c (identitySkips d (d.device [])) owner directory) :=
  (keeps_read _).bind fun _ => visitEntries_keeps h

theorem root_visited (d : Disk) : Visited d [] := ⟨isDir_iff.mpr find_nil, .inl rfl⟩

theorem reached (h : Visited d directory) :
    ReflTransGen (fun a b => b ∈ children d a) [] directory := by
  induction directory using List.reverseRecOn with
  | nil => exact .refl
  | append_singleton directory name ih =>
      rcases h.2 with hnil | hrepairable
      · simp at hnil
      · obtain ⟨hparent, hname⟩ := hrepairable.parent
        apply (ih hparent).tail
        apply List.mem_flatMap.mpr ⟨name, hname, _⟩
        unfold childOf
        rw [h.1, hrepairable.not_skipped]
        exact List.mem_cons_self

theorem repaired_all (h : (repairIdentityOwnership d c owner).outcome s = (.ok u, s'))
    (hpath : Repairable d path) : s' path = given owner (s path) := by
  have hroot : ∀ a ∈ [[]], Visited d a := by
    intro a ha
    rw [List.mem_singleton.mp ha]
    exact root_visited d
  have hweight : (([[]] : List Path).map (weight d)).sum < fuel d := by
    simp [weight, under, fuel]
  obtain ⟨hadvanced, hvisited⟩ := drain_visits visitDirectory_shrinks
    (fun _ _ _ _ _ hvisit => (visitDirectory_ok hvisit).2.1) hroot hweight h
  induction path using List.reverseRecOn with
  | nil => exact absurd rfl hpath.below
  | append_singleton directory name _ =>
      obtain ⟨hparent, hname⟩ := hpath.parent
      obtain ⟨before, after, -, hvisit, hafter⟩ :=
        hvisited [] List.mem_cons_self directory (reached hparent)
      have hbelongs := hafter.belongs ((visitDirectory_ok hvisit).2.2 name hname hpath)
      rcases hadvanced (directory ++ [name]) with hsame | hgiven
      · rw [hsame] at hbelongs ⊢
        exact (given_of_belongs hbelongs).symm
      · exact hgiven

/-- The calls that a repair makes succeed. -/
structure Succeeds (c : Calls) : Prop where
  listed : ∀ path, c.listed path = .ok ()
  opened : ∀ path, c.opened path = .ok ()
  chowned : ∀ path, c.chowned path = .ok ()
  permitted : ∀ path, c.permitted path = .ok ()

theorem visitEntry_ends (h : Succeeds c) (skips : Path → Bool) (owner : Owner) (path : Path)
    (s : Owners) :
    ∃ found s', (visitEntry d c skips owner path).outcome s = (.ok found, s') := by
  unfold visitEntry
  split
  · exact ⟨_, _, rfl⟩
  · rw [outcome_bind, outcome_read, h.opened]
    dsimp only
    split
    · exact ⟨_, _, rfl⟩
    · rw [outcome_bind, outcome_restore, h.chowned, h.permitted]
      by_cases hbelongs : belongs owner (s path) = true
      · rw [if_pos hbelongs]
        exact ⟨_, _, rfl⟩
      · rw [if_neg hbelongs]
        exact ⟨_, _, rfl⟩

theorem visitEntries_ends (h : Succeeds c) (skips : Path → Bool) (owner : Owner) (directory : Path)
    (names : List String) (s : Owners) :
    ∃ found s', (visitEntries d c skips owner directory names).outcome s = (.ok found, s') := by
  induction names generalizing s with
  | nil => exact ⟨_, _, rfl⟩
  | cons name names ih =>
      obtain ⟨found, middle, hfirst⟩ := visitEntry_ends h skips owner (directory ++ [name]) s
      obtain ⟨rest, s', hrest⟩ := ih middle
      refine ⟨found ++ rest, s', ?_⟩
      rw [visitEntries, outcome_bind, hfirst]
      dsimp only
      rw [outcome_bind, hrest]
      rfl

end

section

variable (d : Disk) (c : Calls) (owner : Owner) (s : Owners)

theorem visitDirectory_ends (h : Succeeds c) {directory : Path} (s : Owners) :
    ∃ s', (visitDirectory d c (identitySkips d (d.device [])) owner directory).outcome s =
      (.ok (children d directory), s') := by
  obtain ⟨found, s', hvisit⟩ := visitEntries_ends h (identitySkips d (d.device [])) owner directory
    (d.tree.names directory) s
  have hrun : (visitDirectory d c (identitySkips d (d.device [])) owner directory).outcome s =
      (.ok found, s') := by
    rw [visitDirectory, outcome_bind, outcome_read, h.listed]
    exact hvisit
  rw [← (visitDirectory_ok hrun).1]
  exact ⟨s', hrun⟩

theorem guest_agrees : (repairGuestOwnership d c).outcome s =
    if c.root then (repairIdentityOwnership d c (s [])).outcome s else (.ok (), s) := by
  have hskips : guestSkips d (d.device []) = identitySkips d (d.device []) := by
    funext path
    exact skips_agree (d.device []) path
  unfold repairGuestOwnership
  split
  · rw [repairGuestDirectory, outcome_bind, outcome_read, repairIdentityOwnership, hskips]
  · rfl

/-- Whatever fails, a repair gives to the owner only what it finds within one file system under a
single name. When it ends well all of that has come to the owner with its mode unchanged, and it ends
well unless a call fails. What is done after a run of a component is the same repair, with the owner
of the directory that it sees. -/
theorem ownership_repaired :
    (∀ path, ((repairIdentityOwnership d c owner).outcome s).2 path = s path ∨
      (Repairable d path ∧ belongs owner (s path) = false ∧
        belongs owner (((repairIdentityOwnership d c owner).outcome s).2 path) = true ∧
        ((((repairIdentityOwnership d c owner).outcome s).2 path).mode = (s path).mode ∨
          (((repairIdentityOwnership d c owner).outcome s).2 path).mode = c.cleared (s path).mode))) ∧
    (((repairIdentityOwnership d c owner).outcome s).1 = .ok () → ∀ path, Repairable d path →
      ((repairIdentityOwnership d c owner).outcome s).2 path = ⟨owner.uid, owner.gid, (s path).mode⟩) ∧
    (Succeeds c → ((repairIdentityOwnership d c owner).outcome s).1 = .ok ()) ∧
    (repairGuestOwnership d c).outcome s =
      if c.root then (repairIdentityOwnership d c (s [])).outcome s else (.ok (), s) := by
  have hroot : ∀ a ∈ [[]], Visited d a := by
    intro a ha
    rw [List.mem_singleton.mp ha]
    exact root_visited d
  refine ⟨?_, fun hok path hpath => ?_, fun h => ?_, guest_agrees d c s⟩
  · exact drain_keeps (fun _ h => visitDirectory_keeps h) visitDirectory_shrinks hroot s
  · exact repaired_all (Prod.ext hok rfl) hpath
  · have hends : ∃ s', (repairIdentityOwnership d c owner).outcome s = (.ok (), s') :=
      drain_ends visitDirectory_shrinks (fun _ _ s => visitDirectory_ends d c owner h s) hroot s
    obtain ⟨s', hends⟩ := hends
    rw [hends]

end

end Pishoo.FileOwners
