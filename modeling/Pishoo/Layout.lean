import Pishoo.Effects
import Pishoo.PackageId
import Pishoo.Relocation
import Pishoo.Result

namespace Pishoo.Layout

open Result FileTree Tree Effects Effect Relocation

abbrev Path := List String

/-- What lies in a directory besides directories. Of a link it is known whether its target exists, if
that can be told. -/
inductive Leaf (γ : Type)
  | regular (content : γ)
  | link (target : Option Bool)
  deriving DecidableEq

/-- The files below the directory of an identity. -/
abbrev Disk (γ : Type) := Tree String (Leaf γ)

abbrev Program (γ α : Type) := Effect (Disk γ) Error α

def osError : FileTree.Fault → Error
  | .notFound => .io "No such file or directory (os error 2)"
  | .alreadyExists => .io "File exists (os error 17)"
  | .notDirectory => .io "Not a directory (os error 20)"

section

variable {γ : Type}

def tryExists (path : Path) (t : Disk γ) : Except Error Bool :=
  match t.find path with
  | none => .ok false
  | some (.file (.link none)) => .error (.io "Too many levels of symbolic links (os error 40)")
  | some (.file (.link (some target))) => .ok target
  | some _ => .ok true

def look (path : Path) : Program γ (Option (FileTree.Entry (Leaf γ))) := read fun t => .ok (t.find path)

def volumeParent (id : Id) : Path := if standard id then [".volume", "std"] else [".volume"]

/-- The directory that the component of a package sees as `/db`. -/
def volume (id : Id) : Path := volumeParent id ++ [id.name]

def legacyMove (id : Id) (rest : Path) : Move String where
  source := "db" :: rest
  parent := volumeParent id
  name := id.name
  out := by
    unfold volumeParent
    split <;> simp [List.cons_prefix_cons]

/-- Where earlier versions kept the data of a component. -/
def legacy (id : Id) : List (Move String) :=
  legacyMove id [id.name] :: (id.author.toList.map fun author => legacyMove id [author, id.name])

def found (t : Disk γ) (m : Move String) : Bool :=
  match tryExists m.source t with
  | .ok present => present
  | .error _ => true

variable [DecidableEq γ]

def makeDir (parent : Path) (name : String) : Program γ Unit :=
  write fun t => (t.create parent name .dir).mapError osError

def ensureDir (parent : Path) (name : String) : Program γ Unit := do
  match ← look (parent ++ [name]) with
  | some .dir => pure ()
  | some (.file _) => throw (osError .notDirectory)
  | none => makeDir parent name

def createDirAll (parent : Path) : List String → Program γ Unit
  | [] => pure ()
  | name :: names => do
      ensureDir parent name
      createDirAll (parent ++ [name]) names

def move (m : Move String) : Program γ Unit := write fun t => (rename t m).mapError osError

def takeOver (m : Move String) : Program γ Unit := do
  let entry ← look m.source
  throwIf (entry ≠ some .dir) (.invalidConfig "legacy Lib data must be a real directory")
  move m

def adopt (id : Id) : Program γ Unit := do
  let present ← read (tryExists (volume id))
  if present then pure () else do
    let existing ← read fun t => .ok ((legacy id).filter (found t))
    throwIf (1 < existing.length)
      (.invalidConfig "multiple legacy Lib data directories require reconciliation")
    createDirAll [] (volumeParent id)
    match existing.head? with
    | none => pure ()
    | some m => takeOver m

def checkDirectory (path : Path) : Program γ Unit := do
  let entry ← look path
  throwIf (entry ≠ none ∧ entry ≠ some .dir) (.invalidComponent "Lib data must be a real directory")

def checkRoot (path : Path) : Program γ Unit := do
  let entry ← look path
  throwIf (entry = none) (osError .notFound)
  throwIf (entry ≠ some .dir) (.invalidComponent "Lib database root must be a real directory")

def prepareData (id : Id) : Program γ Unit := do
  match ← look (volume id) with
  | some .dir => pure ()
  | some (.file _) => throw (.invalidComponent "Lib data must be a real directory")
  | none => createDirAll [] (volume id)

/-- `Lib::load`. `document` is how the reading of the interface description ends and `compiled` how
the compilation does. -/
def load (normalizeName : String → Option String) (id : Id) (document compiled : Except Error Unit) :
    Program γ Unit := do
  read fun _ => (validId normalizeName id).mapError fun _ => .invalidComponent "invalid Lib id"
  read fun _ => document
  adopt id
  checkDirectory (volumeParent id)
  checkDirectory (volume id)
  read fun _ => compiled
  checkRoot (volumeParent id)
  prepareData id

/-- The earlier and the present directory of the components, the pages and the logs. -/
def runtimeRoots : List (String × String) := [("libs", "lib"), ("apps", "app"), ("logs", "log")]

def rootMove (old new : String) : Move String where
  source := [old]
  parent := []
  name := new
  out := by simp

def moveRoot (old new : String) : Program γ Unit := do
  let present ← read (tryExists [old])
  if present then do
    let entry ← look [old]
    throwIf (entry ≠ some .dir) (.invalidConfig "legacy runtime root must be a real directory")
    let occupied ← read (tryExists [new])
    throwIf (occupied = true)
      (.invalidConfig s!"both {old} and {new} exist; reconcile them before migration")
    move (rootMove old new)
  else pure ()

/-- The directories of an identity, each with the one that it is in. -/
def directories : List (Path × String) :=
  [([], ".volume"), ([".volume"], "sys"), ([".volume", "sys"], "access"),
    ([".volume", "sys"], "contact"), ([".volume", "sys"], "setting"), ([".volume", "sys"], "pkg"),
    ([".volume"], "std"), ([], "lib"), (["lib"], "std"), ([], "app"), ([], "log"), ([], "repo")]

def makeDirectory (parent : Path) (name : String) : Program γ Unit := do
  write fun t =>
    match t.create parent name .dir with
    | .ok t' => .ok t'
    | .error .alreadyExists => .ok t
    | .error e => .error (osError e)
  let entry ← look (parent ++ [name])
  throwIf (entry ≠ some .dir) (.invalidConfig "identity layout must contain real directories")

/-- The earlier databases, each with the directory of its copy. -/
def databases : List (String × String) := [("access.db", "access"), ("contact.db", "contact")]

def copyDatabase (backup : γ → Except Error γ) (old area : String) : Program γ Unit := do
  let present ← read (tryExists [".volume", "sys", area, "database"])
  if present then pure () else do
    let earlier ← read (tryExists ["db", old])
    if earlier then do
      match ← look ["db", old] with
      | some (.file (.regular content)) => do
          let copy ← read fun _ => backup content
          write fun t => (t.create [".volume", "sys", area] "database"
            (.file (.regular copy))).mapError osError
      | _ => throw (.invalidConfig "legacy database must be a regular file")
    else pure ()

/-- `initialize_directories`. `backup` copies a database with what its log holds. -/
def initializeDirectories (backup : γ → Except Error γ) : Program γ Unit := do
  runtimeRoots.forM fun (old, new) => moveRoot old new
  directories.forM fun (parent, name) => makeDirectory parent name
  databases.forM fun (old, area) => copyDatabase backup old area

end

section

variable {γ : Type} [DecidableEq γ] {R : Disk γ → Disk γ → Prop}

/-- A relation that is kept when an entry is created at certain paths and by certain moves. -/
structure Allows (R : Disk γ → Disk γ → Prop) (creates : Path → Prop) (moves : Move String → Prop) :
    Prop where
  create : ∀ (t t' : Disk γ) parent name entry, creates (parent ++ [name]) →
    t.create parent name entry = .ok t' → R t t'
  move : ∀ m (t t' : Disk γ), moves m → rename t m = .ok t' → R t t'

variable {creates : Path → Prop} {moves : Move String → Prop} [Std.Refl R]

omit [DecidableEq γ] in
theorem keeps_look (path : Path) : Keeps R (look path : Program γ _) := keeps_read _

theorem keeps_makeDir (h : Allows R creates moves) {parent : Path} {name : String}
    (hpath : creates (parent ++ [name])) : Keeps R (makeDir parent name) := by
  apply keeps_write
  intro t t' hwrite
  exact h.create t t' parent name .dir hpath (mapError_eq_ok.mp hwrite)

theorem keeps_move (h : Allows R creates moves) {m : Move String} (hm : moves m) :
    Keeps R (move m) := by
  apply keeps_write
  intro t t' hwrite
  exact h.move m t t' hm (mapError_eq_ok.mp hwrite)

variable [IsTrans (Disk γ) R]

theorem keeps_ensureDir (h : Allows R creates moves) {parent : Path} {name : String}
    (hpath : creates (parent ++ [name])) : Keeps R (ensureDir parent name) := by
  unfold ensureDir
  refine (keeps_look _).bind fun entry => ?_
  rcases entry with _ | _ | _
  · exact keeps_makeDir h hpath
  · exact keeps_pure ()
  · exact keeps_throw _

theorem keeps_createDirAll (h : Allows R creates moves) (names : List String) (parent : Path)
    (hpath : ∀ path, path ≠ [] → path <+: names → creates (parent ++ path)) :
    Keeps R (createDirAll parent names) := by
  induction names generalizing parent with
  | nil => exact keeps_pure ()
  | cons name names ih =>
      rw [createDirAll]
      refine (keeps_ensureDir h (hpath [name] (by simp) (by simp))).bind fun _ => ?_
      apply ih
      intro path hne hbegins
      rw [List.append_assoc]
      apply hpath (name :: path) (by simp)
      exact (List.prefix_cons_inj name).mpr hbegins

theorem keeps_takeOver (h : Allows R creates moves) {m : Move String} (hm : moves m) :
    Keeps R (takeOver m) := by
  unfold takeOver
  refine (keeps_look _).bind fun entry => ?_
  refine (keeps_throwIf _ _).bind fun _ => ?_
  exact keeps_move h hm

theorem keeps_adopt (h : Allows R creates moves) {id : Id}
    (hpath : ∀ path, path ≠ [] → path <+: volume id → creates path) (hm : ∀ m ∈ legacy id, moves m) :
    Keeps R (adopt id : Program γ Unit) := by
  unfold adopt
  refine (keeps_read _).bind fun present => ?_
  split
  · exact keeps_pure ()
  · apply keeps_read_bind
    intro t existing hexisting
    obtain rfl := Except.ok.inj hexisting
    refine (keeps_throwIf _ _).bind fun _ => ?_
    apply Keeps.bind
    · apply keeps_createDirAll h
      intro path hne hbegins
      exact hpath path hne (hbegins.trans (List.prefix_append _ _))
    · intro _
      split
      · exact keeps_pure ()
      · rename_i m hhead
        apply keeps_takeOver h
        exact hm m (List.mem_of_mem_filter (List.mem_of_mem_head? hhead))

theorem keeps_checkDirectory (path : Path) : Keeps R (checkDirectory path : Program γ Unit) := by
  unfold checkDirectory
  refine (keeps_look _).bind fun entry => ?_
  exact keeps_throwIf _ _

theorem keeps_checkRoot (path : Path) : Keeps R (checkRoot path : Program γ Unit) := by
  unfold checkRoot
  refine (keeps_look _).bind fun entry => ?_
  refine (keeps_throwIf _ _).bind fun _ => ?_
  exact keeps_throwIf _ _

theorem keeps_prepareData (h : Allows R creates moves) {id : Id}
    (hpath : ∀ path, path ≠ [] → path <+: volume id → creates path) :
    Keeps R (prepareData id : Program γ Unit) := by
  unfold prepareData
  refine (keeps_look _).bind fun entry => ?_
  split
  · exact keeps_pure ()
  · exact keeps_throw _
  · exact keeps_createDirAll h _ [] hpath

theorem keeps_load (h : Allows R creates moves) {id : Id}
    (hpath : ∀ path, path ≠ [] → path <+: volume id → creates path) (hm : ∀ m ∈ legacy id, moves m)
    (normalizeName : String → Option String) (document compiled : Except Error Unit) :
    Keeps R (load normalizeName id document compiled : Program γ Unit) := by
  unfold load
  refine (keeps_read _).bind fun _ => ?_
  refine (keeps_read _).bind fun _ => ?_
  refine (keeps_adopt h hpath hm).bind fun _ => ?_
  refine (keeps_checkDirectory _).bind fun _ => ?_
  refine (keeps_checkDirectory _).bind fun _ => ?_
  refine (keeps_read _).bind fun _ => ?_
  refine (keeps_checkRoot _).bind fun _ => ?_
  exact keeps_prepareData h hpath

theorem keeps_moveRoot (h : Allows R creates moves) {old new : String} (hm : moves (rootMove old new)) :
    Keeps R (moveRoot old new : Program γ Unit) := by
  unfold moveRoot
  refine (keeps_read _).bind fun present => ?_
  split
  · refine (keeps_look _).bind fun entry => ?_
    refine (keeps_throwIf _ _).bind fun _ => ?_
    refine (keeps_read _).bind fun occupied => ?_
    refine (keeps_throwIf _ _).bind fun _ => ?_
    exact keeps_move h hm
  · exact keeps_pure ()

theorem keeps_makeDirectory (h : Allows R creates moves) {parent : Path} {name : String}
    (hpath : creates (parent ++ [name])) : Keeps R (makeDirectory parent name : Program γ Unit) := by
  unfold makeDirectory
  apply Keeps.bind
  · apply keeps_write
    intro t t' hwrite
    split at hwrite
    · rename_i hcreate
      cases hwrite
      exact h.create t _ parent name .dir hpath hcreate
    · cases hwrite
      exact Std.Refl.refl t
    · cases hwrite
  · intro _
    refine (keeps_look _).bind fun entry => ?_
    exact keeps_throwIf _ _

theorem keeps_copyDatabase (h : Allows R creates moves) (backup : γ → Except Error γ)
    {old area : String} (hpath : creates [".volume", "sys", area, "database"]) :
    Keeps R (copyDatabase backup old area) := by
  unfold copyDatabase
  refine (keeps_read _).bind fun present => ?_
  split
  · exact keeps_pure ()
  · refine (keeps_read _).bind fun earlier => ?_
    split
    · refine (keeps_look _).bind fun entry => ?_
      split
      · refine (keeps_read _).bind fun copy => ?_
        apply keeps_write
        intro t t' hwrite
        exact h.create t t' _ _ _ hpath (mapError_eq_ok.mp hwrite)
      · exact keeps_throw _
    · exact keeps_pure ()

theorem keeps_initializeDirectories (h : Allows R creates moves)
    (hm : ∀ old new, (old, new) ∈ runtimeRoots → moves (rootMove old new))
    (hpath : ∀ parent name, (parent, name) ∈ directories → creates (parent ++ [name]))
    (hdatabase : ∀ old area, (old, area) ∈ databases → creates [".volume", "sys", area, "database"])
    (backup : γ → Except Error γ) : Keeps R (initializeDirectories backup) := by
  unfold initializeDirectories
  apply Keeps.bind
  · apply Keeps.forM
    intro root hroot
    exact keeps_moveRoot h (hm _ _ hroot)
  · intro _
    apply Keeps.bind
    · apply Keeps.forM
      intro directory hdirectory
      exact keeps_makeDirectory h (hpath _ _ hdirectory)
    · intro _
      apply Keeps.forM
      intro database hmem
      exact keeps_copyDatabase h backup (hdatabase _ _ hmem)

end

section

variable {γ : Type} {t t' : Disk γ} {id : Id} {path parent : Path} {u : Unit}

theorem legacy_source {m : Move String} (h : m ∈ legacy id) :
    ∃ rest, m.source = "db" :: rest ∧ m.dest = volume id := by
  rcases List.mem_cons.mp h with rfl | h
  · exact ⟨_, rfl, rfl⟩
  · obtain ⟨author, -, rfl⟩ := List.mem_map.mp h
    exact ⟨_, rfl, rfl⟩

/-- Directories on the way to a path have been made. -/
structure Prepared (path : Path) (t t' : Disk γ) : Prop where
  kept : ∀ other, t.find other ≠ none → t'.find other = t.find other
  other : ∀ other, ¬ other <+: path → t'.find other = t.find other

theorem Prepared.refl (path : Path) (t : Disk γ) : Prepared path t t :=
  ⟨fun _ _ => rfl, fun _ _ => rfl⟩

theorem Prepared.trans {t'' : Disk γ} (h : Prepared path t t') (h' : Prepared path t' t'') :
    Prepared path t t'' where
  kept := by
    intro other hother
    have hfirst := h.kept other hother
    rw [← hfirst]
    apply h'.kept
    rwa [hfirst]
  other := fun other hother => (h'.other other hother).trans (h.other other hother)

theorem volume_longer (id : Id) (rest : Path) : ¬ volume id ++ rest <+: volumeParent id := by
  intro hbegins
  have hlength := hbegins.length_le
  simp only [volume, List.length_append, List.length_singleton] at hlength
  omega

theorem source_outside {m : Move String} (hm : m ∈ legacy id) (rest : Path) (hpath : path.head? ≠ some "db") :
    ¬ m.source ++ rest <+: path := by
  obtain ⟨start, hsource, -⟩ := legacy_source hm
  rw [hsource]
  rintro ⟨tail, rfl⟩
  exact hpath rfl

theorem tryExists_true (h : tryExists path t = .ok true) : t.find path ≠ none := by
  intro hnone
  rw [tryExists, hnone] at h
  cases h

theorem tryExists_dir (h : t.find path = some .dir) : tryExists path t = .ok true := by
  rw [tryExists, h]

/-- What a successful search for earlier data has done. -/
inductive Adopted (id : Id) (t t' : Disk γ) : Prop
  | present (found : t.find (volume id) ≠ none) (same : t' = t)
  | fresh (absent : tryExists (volume id) t = .ok false) (empty : (legacy id).filter (found t) = [])
      (prepared : Prepared (volumeParent id) t t')
  | moved (m : Move String) (only : (legacy id).filter (found t) = [m]) (middle : Disk γ)
      (prepared : Prepared (volumeParent id) t middle) (renamed : Renamed m middle t')

theorem look_bind_ok {α : Type} {f : Option (FileTree.Entry (Leaf γ)) → Program γ α} {a : α} :
    (look path >>= f).outcome t = (.ok a, t') ↔ (f (t.find path)).outcome t = (.ok a, t') := by
  unfold look
  rw [read_bind_ok]
  simp

theorem not_prefix_longer {rest : Path} (hrest : rest ≠ []) : ¬ volume id ++ rest <+: volume id := by
  intro hbegins
  have hlength := hbegins.length_le
  rw [List.length_append] at hlength
  exact hrest (List.length_eq_zero_iff.mp (by omega))

theorem head_volume (id : Id) : (volume id).head? ≠ some "db" ∧ (volumeParent id).head? ≠ some "db" := by
  unfold volume volumeParent
  split <;> simp

/-- The earlier data, and nothing else, are in the directory after a load that has not found it. -/
theorem Adopted.below {middle : Disk γ} (h : Adopted id t middle) (hnone : t.find (volume id) = none)
    (rest : Path) : middle.find (volume id ++ rest) =
      ((legacy id).find? (found t)).bind fun m => t.find (m.source ++ rest) := by
  rw [← List.head?_filter]
  cases h with
  | present hfound _ => exact absurd hnone hfound
  | fresh _ hempty hprepared =>
      rw [hempty, hprepared.other _ (volume_longer id rest)]
      exact find_below hnone (List.prefix_append _ _)
  | moved m honly between hprepared hrenamed =>
      have hm : m ∈ legacy id :=
        List.mem_of_mem_filter (honly ▸ List.mem_cons_self : m ∈ (legacy id).filter (found t))
      obtain ⟨-, -, hdest⟩ := legacy_source hm
      rw [honly, ← hdest, hrenamed.dest, hprepared.other _ (source_outside hm rest (head_volume id).2)]
      rfl

theorem Adopted.gone {middle : Disk γ} (h : Adopted id t middle) (hnone : t.find (volume id) = none)
    {m : Move String} (hm : m ∈ legacy id) (hfound : found t m = true) :
    middle.find m.source = none := by
  have hmem : m ∈ (legacy id).filter (found t) := List.mem_filter.mpr ⟨hm, hfound⟩
  cases h with
  | present hfound _ => exact absurd hnone hfound
  | fresh _ hempty hprepared =>
      rw [hempty] at hmem
      cases hmem
  | moved m' honly between hprepared hrenamed =>
      rw [honly, List.mem_singleton] at hmem
      subst hmem
      cases hfind : middle.find m.source with
      | none => rfl
      | some entry =>
          obtain ⟨path, hpath, -⟩ := hrenamed.found _ entry hfind
          obtain ⟨rest, -, hmoved⟩ | ⟨hnot, hmoved⟩ := moved_cases m.source m.dest path
          · obtain ⟨-, -, hdest⟩ := legacy_source hm
            have hbegins : m.dest <+: m.source := ⟨rest, (hpath.trans hmoved).symm⟩
            obtain ⟨start, hsource, -⟩ := legacy_source hm
            rw [hdest, hsource] at hbegins
            obtain ⟨tail, htail⟩ := hbegins
            have hhead := (head_volume id).1
            cases hvolume : volume id with
            | nil => simp [volume] at hvolume
            | cons name rest =>
                rw [hvolume] at htail hhead
                simp only [List.cons_append, List.cons.injEq] at htail
                exact absurd (congrArg some htail.1) hhead
          · exact absurd (hpath.trans hmoved ▸ List.prefix_refl _) hnot

theorem Adopted.one {middle : Disk γ} (h : Adopted id t middle) (hnone : t.find (volume id) = none) :
    ((legacy id).filter (found t)).length ≤ 1 := by
  cases h with
  | present hfound _ => exact absurd hnone hfound
  | fresh _ hempty _ => simp [hempty]
  | moved m honly _ _ _ => simp [honly]

variable [DecidableEq γ]

theorem create_prepared {name : String} (hbegins : parent ++ [name] <+: path)
    (h : t.create parent name .dir = .ok t') : Prepared path t t' := by
  obtain ⟨-, hfresh, hfind⟩ := create_spec h
  constructor
  · intro other hother
    rw [hfind, if_neg]
    rintro rfl
    exact hother hfresh
  · intro other hother
    rw [hfind, if_neg]
    rintro rfl
    exact hother hbegins

theorem ensureDir_prepared {name : String} (hbegins : parent ++ [name] <+: path)
    (h : (ensureDir parent name).outcome t = (.ok u, t')) :
    Prepared path t t' ∧ t'.find (parent ++ [name]) = some .dir := by
  obtain ⟨entry, t₁, hlook, h⟩ := outcome_bind_ok.mp h
  cases hlook
  split at h
  · rename_i hdir
    cases h
    exact ⟨.refl path _, hdir⟩
  · cases h
  · have hcreate := mapError_eq_ok.mp (outcome_write_ok.mp h)
    obtain ⟨-, -, hfind⟩ := create_spec hcreate
    exact ⟨create_prepared hbegins hcreate, by rw [hfind, if_pos rfl]⟩

theorem createDirAll_prepared {names : List String} (hparent : t.find parent = some .dir)
    (hbegins : parent ++ names = path) (h : (createDirAll parent names).outcome t = (.ok u, t')) :
    Prepared path t t' ∧ t'.find path = some .dir := by
  induction names generalizing parent t with
  | nil =>
      cases h
      rw [← hbegins, List.append_nil]
      exact ⟨.refl _ _, hparent⟩
  | cons name names ih =>
      obtain ⟨_, t₁, hensure, h⟩ := outcome_bind_ok.mp h
      have hnext : parent ++ [name] ++ names = path := by
        rw [List.append_assoc]
        exact hbegins
      obtain ⟨hprepared, hdir⟩ := ensureDir_prepared ⟨names, hnext⟩ hensure
      obtain ⟨hrest, hfind⟩ := ih hdir hnext h
      exact ⟨hprepared.trans hrest, hfind⟩

theorem takeOver_spec {m : Move String} (h : (takeOver m).outcome t = (.ok u, t')) :
    Renamed m t t' := by
  obtain ⟨-, hmove⟩ := throwIf_bind_ok.mp (look_bind_ok.mp h)
  exact rename_spec (mapError_eq_ok.mp (outcome_write_ok.mp hmove))

theorem adopt_spec (h : (adopt id).outcome t = (.ok u, t')) : Adopted id t t' := by
  obtain ⟨present, hpresent, h⟩ := read_bind_ok.mp h
  split at h
  · rename_i hthere
    cases h
    subst hthere
    exact .present (tryExists_true hpresent) rfl
  · rename_i hthere
    rw [Bool.not_eq_true] at hthere
    subst hthere
    obtain ⟨existing, hexisting, h⟩ := read_bind_ok.mp h
    obtain rfl := Except.ok.inj hexisting
    obtain ⟨hlength, h⟩ := throwIf_bind_ok.mp h
    obtain ⟨_, middle, hcreate, hlast⟩ := outcome_bind_ok.mp h
    obtain ⟨hprepared, -⟩ := createDirAll_prepared find_nil (List.nil_append _) hcreate
    cases hlist : (legacy id).filter (found t) with
    | nil =>
        rw [hlist] at hlast
        cases hlast
        exact .fresh hpresent hlist hprepared
    | cons m rest =>
        rw [hlist] at hlast hlength
        have hrest : rest = [] := by
          rw [List.length_cons] at hlength
          exact List.length_eq_zero_iff.mp (by omega)
        subst hrest
        exact .moved m hlist middle hprepared (takeOver_spec hlast)

theorem checkDirectory_spec (h : (checkDirectory path).outcome t = (.ok u, t')) : t' = t := by
  exact (outcome_throwIf_ok.mp (look_bind_ok.mp h)).2

theorem checkRoot_spec (h : (checkRoot path).outcome t = (.ok u, t')) : t' = t := by
  obtain ⟨-, h⟩ := throwIf_bind_ok.mp (look_bind_ok.mp h)
  exact (outcome_throwIf_ok.mp h).2

/-- The directory is found, or made. -/
theorem prepareData_spec (h : (prepareData id).outcome t = (.ok u, t')) :
    t'.find (volume id) = some .dir ∧ (t.find (volume id) ≠ none → t' = t) ∧
      Prepared (volume id) t t' := by
  have hlook := look_bind_ok.mp h
  split at hlook
  · rename_i hdir
    cases hlook
    exact ⟨hdir, fun _ => rfl, .refl _ _⟩
  · cases hlook
  · rename_i hnone
    obtain ⟨hprepared, hfind⟩ := createDirAll_prepared find_nil (List.nil_append _) hlook
    exact ⟨hfind, fun hsome => absurd hnone hsome, hprepared⟩

theorem load_spec {normalizeName : String → Option String} {document compiled : Except Error Unit}
    (h : (load normalizeName id document compiled).outcome t = (.ok u, t')) :
    ∃ middle, Adopted id t middle ∧ t'.find (volume id) = some .dir ∧
      (middle.find (volume id) ≠ none → t' = middle) ∧ Prepared (volume id) middle t' := by
  obtain ⟨_, -, h₁⟩ := read_bind_ok.mp h
  obtain ⟨_, -, h₂⟩ := read_bind_ok.mp h₁
  obtain ⟨_, middle, hadopt, h₃⟩ := outcome_bind_ok.mp h₂
  obtain ⟨_, _, hparent, h₄⟩ := outcome_bind_ok.mp h₃
  obtain ⟨_, _, hdata, h₅⟩ := outcome_bind_ok.mp h₄
  obtain ⟨_, -, h₆⟩ := read_bind_ok.mp h₅
  obtain ⟨_, _, hroot, hlast⟩ := outcome_bind_ok.mp h₆
  rw [checkRoot_spec hroot, checkDirectory_spec hdata, checkDirectory_spec hparent] at hlast
  exact ⟨middle, adopt_spec hadopt, prepareData_spec hlast⟩

/-- A load that finds the directory changes nothing. -/
theorem load_settled (h : t.find (volume id) = some .dir) (normalizeName : String → Option String)
    (document compiled : Except Error Unit) :
    ((load normalizeName id document compiled).outcome t).2 = t := by
  have hadopt : (adopt id).outcome t = (.ok (), t) := by
    rw [adopt, outcome_bind, outcome_read, tryExists_dir h]
    rfl
  have hprepare : (prepareData id).outcome t = (.ok (), t) := by
    rw [prepareData, outcome_bind, look, outcome_read, h]
    rfl
  have hcheck (path : Path) : ((checkDirectory path : Program γ Unit).outcome t).2 = t :=
    still_bind rfl fun _ => still_throwIf _ _ t
  have hroot (path : Path) : ((checkRoot path : Program γ Unit).outcome t).2 = t :=
    still_bind rfl fun _ => still_bind (still_throwIf _ _ t) fun _ => still_throwIf _ _ t
  refine still_bind rfl fun _ => still_bind rfl fun _ => ?_
  refine still_bind (congrArg Prod.snd hadopt) fun _ => ?_
  refine still_bind (hcheck _) fun _ => still_bind (hcheck _) fun _ => still_bind rfl fun _ => ?_
  exact still_bind (hroot _) fun _ => congrArg Prod.snd hprepare

/-- What a component sees after a successful load. A directory that is there is left as it is, and
otherwise its contents are the earlier data, of which there are not two. Later loads change nothing. -/
theorem data_adopted {normalizeName : String → Option String} {document compiled : Except Error Unit}
    (h : (load normalizeName id document compiled).outcome t = (.ok u, t')) :
    t'.find (volume id) = some .dir ∧ (t.find (volume id) ≠ none → t' = t) ∧
    (t.find (volume id) = none → ((legacy id).filter (found t)).length ≤ 1 ∧
      (∀ rest, rest ≠ [] → t'.find (volume id ++ rest) =
        ((legacy id).find? (found t)).bind fun m => t.find (m.source ++ rest)) ∧
      ∀ m ∈ legacy id, found t m = true → t'.find m.source = none) ∧
    ∀ document compiled, ((load normalizeName id document compiled).outcome t').2 = t' := by
  obtain ⟨middle, hadopted, hdir, hsame, hprepared⟩ := load_spec h
  refine ⟨hdir, fun hthere => ?_, fun hnone => ⟨hadopted.one hnone, fun rest hrest => ?_,
    fun m hm hfound => ?_⟩, load_settled hdir normalizeName⟩
  · cases hadopted with
    | present _ heq =>
        subst heq
        exact hsame hthere
    | fresh habsent _ hparent =>
        have hkept := hparent.kept _ hthere
        have hfind := hprepared.kept (volume id) (by rwa [hkept])
        rw [hdir, hkept] at hfind
        rw [tryExists_dir hfind.symm] at habsent
        cases habsent
    | moved m honly between hparent hrenamed =>
        have hm : m ∈ legacy id :=
          List.mem_of_mem_filter (honly ▸ List.mem_cons_self : m ∈ (legacy id).filter (found t))
        obtain ⟨-, -, hdest⟩ := legacy_source hm
        have hfresh := hrenamed.fresh
        rw [hdest, hparent.kept _ hthere] at hfresh
        exact absurd hfresh hthere
  · rw [hprepared.other _ (not_prefix_longer hrest)]
    exact hadopted.below hnone rest
  · have hother := hprepared.other m.source fun hbegins =>
      source_outside hm [] (head_volume id).1 (by rwa [List.append_nil])
    rw [hother]
    exact hadopted.gone hnone hm hfound

end

def baseId : Id := ⟨some "alice.example", "base"⟩

/-- Earlier data of one component. -/
def sampleFiles : Disk Nat where
  entries := [(["db"], .dir), (["db", "base"], .dir), (["db", "base", "data"], .file (.regular 1))]
  nodup := by decide
  parents := by
    intro e he
    simp only [List.mem_cons, List.not_mem_nil, or_false] at he
    rcases he with rfl | rfl | rfl
    · exact ⟨[], "db", rfl, .inl rfl⟩
    · exact ⟨["db"], "base", rfl, .inr (by simp)⟩
    · exact ⟨["db", "base"], "data", rfl, .inr (by simp)⟩

def sampleLoad : Except Error Unit × Disk Nat :=
  (load some baseId (.ok ()) (.ok ())).outcome sampleFiles

theorem data_adopted_base : sampleLoad = (.ok (), sampleLoad.2) ∧
    sampleLoad.2.find [".volume", "base", "data"] = some (.file (.regular 1)) ∧
    sampleLoad.2.find ["db", "base"] = none := by
  have hload : sampleLoad = (.ok (), sampleLoad.2) := Prod.ext (by decide +kernel) rfl
  have hnone : sampleFiles.find (volume baseId) = none := by decide +kernel
  obtain ⟨-, -, hadopted, -⟩ := data_adopted hload
  obtain ⟨-, hdata, hgone⟩ := hadopted hnone
  refine ⟨hload, (hdata ["data"] (by simp)).trans (by decide +kernel), ?_⟩
  exact hgone (legacyMove baseId ["base"]) List.mem_cons_self (by decide +kernel)

end Pishoo.Layout
