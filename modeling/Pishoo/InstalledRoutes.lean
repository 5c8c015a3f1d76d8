import Pishoo.Expanded

namespace Pishoo.InstalledRoutes

open Result PathText Authorization Publication Component RouteAgreement FileTree WazAccounting Expanded

/-- No name on the path is one that the scan passes over. -/
def Plain (path : List Text) : Prop := ∀ name ∈ path, isRecovery name = false

/-- What the paths in a directory start with. -/
def startOf (path : List Text) : Text := path.flatMap (· ++ ['/'])

def joined (path : List Text) : Text := ['/'].intercalate path

/-- The file at a path as the scan reports it. -/
def reported (path : List Text) : String × Bytes := (String.ofList (chars "public/" ++ joined path), [])

def isDirectory (t : Tree) (path : List Text) : Bool := t.find path == some .dir

/-- The directories among the names that the scan goes on to. -/
def below (t : Tree) (directory : List Text) (names : List Text) : List (List Text) :=
  (names.filter fun name => !isRecovery name && isDirectory t (directory ++ [name])).map
    (directory ++ [·])

def Finds (t : Tree) (directory : List Text) (name : Text) (file : String × Bytes) : Prop :=
  isRecovery name = false ∧ (∃ content, t.find (directory ++ [name]) = some (.file content)) ∧
    file = reported (directory ++ [name])

def Consistent (p : Pending) : Prop := p.start = startOf p.directory ∧ p.depth = p.directory.length

/-- What has been listed, and what is still to be listed. -/
structure Holds (t : Tree) (done : List (List Text)) (walk : Walk) : Prop where
  nodup : (done ++ walk.pending.map Pending.directory).Nodup
  dirs : ∀ path ∈ done ++ walk.pending.map Pending.directory, Plain path ∧ t.find path = some .dir
  root : [] ∈ done ++ walk.pending.map Pending.directory
  closed : ∀ path ∈ done, ∀ name, isRecovery name = false → t.find (path ++ [name]) = some .dir →
    path ++ [name] ∈ done ++ walk.pending.map Pending.directory
  above : ∀ path name, path ++ [name] ∈ done ++ walk.pending.map Pending.directory → path ∈ done
  pending : ∀ p ∈ walk.pending, Consistent p
  count : walk.count = (done.map fun path => (t.names path).length).sum
  files : ∀ file, file ∈ walk.files ↔ ∃ path ∈ done, ∃ name, Finds t path name file

section

variable {t : Tree} {d : Readdir} {p : Pending} {walk walk' : Walk} {names : List Text} {name : Text}
  {done : List (List Text)}

theorem joined_concat (path : List Text) (name : Text) :
    joined (path ++ [name]) = startOf path ++ name := by
  induction path with
  | nil => simp [joined, startOf]
  | cons first path ih =>
      have hne : path ++ [name] ≠ [] := by simp
      rw [List.cons_append, joined, List.intercalate_cons_of_ne_nil hne, ← joined, ih]
      simp [startOf]

theorem joined_append {path rest : List Text} (hpath : path ≠ []) (hrest : rest ≠ []) :
    joined (path ++ rest) = joined path ++ '/' :: joined rest := by
  induction path with
  | nil => exact absurd rfl hpath
  | cons first path ih =>
      have hne : path ++ rest ≠ [] := by simp [hrest]
      rw [List.cons_append, joined, List.intercalate_cons_of_ne_nil hne, ← joined]
      by_cases hnil : path = []
      · simp [hnil, joined]
      · rw [ih hnil, joined, joined, joined, List.intercalate_cons_of_ne_nil hnil]
        simp

theorem startOf_concat (path : List Text) (name : Text) :
    startOf (path ++ [name]) = startOf path ++ name ++ ['/'] := by
  simp [startOf]

/-- What the scan of one name adds. -/
structure Listed (t : Tree) (p : Pending) (names : List Text) (walk walk' : Walk) : Prop where
  count : walk'.count = walk.count + names.length
  pending : ∃ new, walk'.pending = new ++ walk.pending ∧
    (new.map Pending.directory).Perm (below t p.directory names) ∧
    ∀ q ∈ new, Consistent q
  files : ∀ file, file ∈ walk'.files ↔
    file ∈ walk.files ∨ ∃ name ∈ names, Finds t p.directory name file

theorem scanEntry_listed (hp : Consistent p) {entry : FileTree.Entry Bytes}
    (hentry : t.find (p.directory ++ [name]) = some entry) (hcount : walk.count < 10000) :
    ∃ walk', scanEntry t p walk name = .ok walk' ∧ Listed t p [name] walk walk' := by
  have hpass : failIf (10000 < walk.count + 1) expandedError = .ok () := failIf_eq_ok.mpr (by omega)
  unfold scanEntry
  dsimp only
  rw [hpass, ok_bind]
  by_cases hrecovery : isRecovery name = true
  · rw [if_pos hrecovery]
    refine ⟨_, rfl, rfl, ⟨[], rfl, ?_, nofun⟩, fun file => ?_⟩
    · simp [below, hrecovery]
    · simp [Finds, hrecovery]
  · rw [if_neg hrecovery, hentry]
    have hplain : isRecovery name = false := by simpa using hrecovery
    cases entry with
    | dir =>
        have hchild : childDir t p.directory name = .ok (p.directory ++ [name]) :=
          mapError_eq_ok.mpr (Tree.openDir_eq_ok.mpr ⟨hentry, rfl⟩)
        dsimp only
        rw [hchild, ok_bind]
        refine ⟨_, rfl, rfl, ⟨[⟨_, _, _⟩], rfl, ?_, ?_⟩, fun file => ?_⟩
        · simp [below, hplain, isDirectory, hentry]
        · refine List.forall_mem_singleton.mpr ⟨?_, ?_⟩
          · rw [hp.1, startOf_concat]
          · rw [hp.2, List.length_append, List.length_singleton]
        · simp [Finds, hentry]
    | file content =>
        refine ⟨_, rfl, rfl, ⟨[], rfl, ?_, nofun⟩, fun file => ?_⟩
        · simp [below, isDirectory, hentry]
        · have hreported : (String.ofList (chars "public/" ++ (p.start ++ name)), ([] : Bytes)) =
              reported (p.directory ++ [name]) := by
            rw [reported, joined_concat, hp.1]
          rw [hreported, List.mem_orderedInsert]
          simp [Finds, hplain, hentry, or_comm]

theorem scanNames_listed (hp : Consistent p)
    (hnames : ∀ name ∈ names, ∃ entry, t.find (p.directory ++ [name]) = some entry)
    (hcount : walk.count + names.length ≤ 10000) :
    ∃ walk', names.foldlM (scanEntry t p) walk = .ok walk' ∧ Listed t p names walk walk' := by
  induction names generalizing walk with
  | nil =>
      exact ⟨walk, rfl, rfl, ⟨[], rfl, .nil, nofun⟩, fun file => by simp⟩
  | cons name names ih =>
      rw [List.length_cons] at hcount
      obtain ⟨hentry, hrest⟩ := List.forall_mem_cons.mp hnames
      obtain ⟨entry, hentry⟩ := hentry
      obtain ⟨next, hnext, hlisted⟩ := scanEntry_listed hp hentry (show walk.count < 10000 by omega)
      have hnextCount := hlisted.count
      rw [List.length_singleton] at hnextCount
      obtain ⟨last, hlast, hlisted'⟩ := ih hrest (show next.count + names.length ≤ 10000 by omega)
      refine ⟨last, ?_, ?_, ?_, fun file => ?_⟩
      · rw [List.foldlM_cons, hnext, ok_bind, hlast]
      · rw [hlisted'.count, hnextCount, List.length_cons]
        omega
      · obtain ⟨new, hnew, hperm, hconsistent⟩ := hlisted.pending
        obtain ⟨new', hnew', hperm', hconsistent'⟩ := hlisted'.pending
        refine ⟨new' ++ new, by rw [hnew', hnew, List.append_assoc], ?_, ?_⟩
        · rw [List.map_append]
          have happend : below t p.directory (name :: names) =
              below t p.directory [name] ++ below t p.directory names := by
            rw [below, below, below, ← List.map_append, ← List.filter_append, List.singleton_append]
          rw [happend]
          exact (hperm'.append hperm).trans List.perm_append_comm
        · intro q hq
          obtain hq | hq := List.mem_append.mp hq
          · exact hconsistent' q hq
          · exact hconsistent q hq
      · rw [hlisted'.files, hlisted.files]
        simp [or_assoc]

theorem mem_below {directory path : List Text} : path ∈ below t directory names ↔
    ∃ name ∈ names, isRecovery name = false ∧ t.find (directory ++ [name]) = some .dir ∧
      path = directory ++ [name] := by
  simp only [below, List.mem_map, List.mem_filter, isDirectory, Bool.and_eq_true, Bool.not_eq_true',
    beq_iff_eq]
  constructor
  · rintro ⟨name, ⟨hname, hplain, hdir⟩, rfl⟩
    exact ⟨name, hname, hplain, hdir, rfl⟩
  · rintro ⟨name, hname, hplain, hdir, rfl⟩
    exact ⟨name, ⟨hname, hplain, hdir⟩, rfl⟩

theorem plain_concat {path : List Text} : Plain (path ++ [name]) ↔ Plain path ∧ isRecovery name = false := by
  simp [Plain, or_imp, forall_and]

/-- One directory moves from those that are still to be listed to those that have been. -/
theorem Holds.step {pending : List Pending} {files : Files} {count : Nat}
    (h : Holds t done ⟨p :: pending, files, count⟩) (hnames : names.Perm (t.names p.directory))
    (hlisted : Listed t p names ⟨pending, files, count⟩ walk') :
    Holds t (p.directory :: done) walk' := by
  obtain ⟨new, hnew, hperm, hconsistent⟩ := hlisted.pending
  have hmem : ∀ path, path ∈ new.map Pending.directory ↔ ∃ name, isRecovery name = false ∧
      t.find (p.directory ++ [name]) = some .dir ∧ path = p.directory ++ [name] := by
    intro path
    rw [hperm.mem_iff, mem_below]
    constructor
    · rintro ⟨name, -, h⟩
      exact ⟨name, h⟩
    · rintro ⟨name, hplain, hdir, rfl⟩
      exact ⟨name, hnames.mem_iff.mpr (Tree.mem_names.mpr ⟨_, hdir⟩), hplain, hdir, rfl⟩
  have hsame : ∀ path, path ∈ p.directory :: done ++ walk'.pending.map Pending.directory ↔
      path ∈ done ++ (p :: pending).map Pending.directory ∨ path ∈ new.map Pending.directory := by
    intro path
    rw [hnew]
    simp only [List.mem_append, List.mem_cons, List.map_append, List.map_cons]
    tauto
  have hnodup := h.nodup
  have hdisjoint : p.directory ∉ done := fun hdone =>
    List.disjoint_of_nodup_append hnodup hdone (List.mem_map_of_mem List.mem_cons_self)
  have hfresh : ∀ path ∈ new.map Pending.directory,
      path ∉ done ++ (p :: pending).map Pending.directory := by
    intro path hpath hold
    obtain ⟨name, -, -, rfl⟩ := (hmem path).mp hpath
    exact hdisjoint (h.above _ _ hold)
  refine ⟨?_, fun path hpath => ?_, ?_, fun path hpath name hplain hdir => ?_,
    fun path name hpath => ?_, fun q hq => ?_, ?_, fun file => ?_⟩
  · have hbelow : (new.map Pending.directory).Nodup := by
      rw [hperm.nodup_iff]
      refine List.Nodup.map (fun _ _ heq => by simpa using heq) ?_
      exact (hnames.nodup_iff.mpr Tree.names_nodup).filter _
    have happend := hbelow.append hnodup fun path hpath hold => hfresh path hpath hold
    rw [hnew, List.map_append]
    refine (List.Perm.nodup_iff ?_).mp happend
    rw [List.map_cons, ← List.append_assoc, List.cons_append]
    refine List.perm_middle.trans (List.Perm.cons _ ?_)
    rw [← List.append_assoc]
    exact List.Perm.append_right _ List.perm_append_comm
  · obtain hold | hpath := (hsame path).mp hpath
    · exact h.dirs path hold
    · obtain ⟨name, hplain, hdir, rfl⟩ := (hmem path).mp hpath
      have hp := h.dirs p.directory (List.mem_append_right _ List.mem_cons_self)
      exact ⟨plain_concat.mpr ⟨hp.1, hplain⟩, hdir⟩
  · exact (hsame []).mpr (.inl h.root)
  · obtain rfl | hdone := List.mem_cons.mp hpath
    · exact (hsame _).mpr (.inr ((hmem _).mpr ⟨name, hplain, hdir, rfl⟩))
    · exact (hsame _).mpr (.inl (h.closed path hdone name hplain hdir))
  · obtain hold | hpath := (hsame _).mp hpath
    · exact List.mem_cons_of_mem _ (h.above path name hold)
    · obtain ⟨name', -, -, heq⟩ := (hmem _).mp hpath
      exact (List.append_inj' heq rfl).1 ▸ List.mem_cons_self
  · rw [hnew] at hq
    obtain hq | hq := List.mem_append.mp hq
    · exact hconsistent q hq
    · exact h.pending q (List.mem_cons_of_mem _ hq)
  · rw [hlisted.count, h.count, hnames.length_eq, List.map_cons, List.sum_cons, Nat.add_comm]
  · have hpast := h.files file
    dsimp only at hpast
    rw [hlisted.files, hpast]
    simp only [List.mem_cons, exists_eq_or_imp]
    constructor
    · rintro (h | ⟨name, -, hfinds⟩)
      · exact .inr h
      · exact .inl ⟨name, hfinds⟩
    · rintro (⟨name, hfinds⟩ | h)
      · obtain ⟨content, hcontent⟩ := hfinds.2.1
        exact .inr ⟨name, hnames.mem_iff.mpr (Tree.mem_names.mpr ⟨_, hcontent⟩), hfinds⟩
      · exact .inl h

/-- No directory is listed twice, so the entries bound how many are. -/
theorem Holds.length_le (h : Holds t done walk) :
    done.length + walk.pending.length ≤ t.entries.length + 1 := by
  have hsubset : done ++ walk.pending.map Pending.directory ⊆ [] :: t.entries.map Prod.fst := by
    intro path hpath
    obtain ⟨-, hdir⟩ := h.dirs path hpath
    by_cases hnil : path = []
    · exact hnil ▸ List.mem_cons_self
    · exact List.mem_cons_of_mem _ (List.mem_map.mpr ⟨_, (Tree.find_of_ne hnil).mp hdir, rfl⟩)
  have hlength := (h.nodup.subperm hsubset).length_le
  simpa using hlength

/-- When nothing is left to be listed, every directory that is not passed over has been. -/
theorem Holds.complete {files : Files} {count : Nat} (h : Holds t done ⟨[], files, count⟩)
    {path : List Text} (hplain : Plain path) (hdir : t.find path = some .dir) : path ∈ done := by
  induction path using List.reverseRecOn with
  | nil => simpa using h.root
  | append_singleton path name ih =>
      obtain ⟨hpath, hname⟩ := plain_concat.mp hplain
      have hparent := ih hpath (Tree.find_parent hdir)
      simpa using h.closed path hparent name hname hdir

theorem scanDirectories_complete {fuel : Nat} (h : Holds t done walk)
    (hfuel : t.entries.length + 1 ≤ done.length + fuel)
    (hdepth : ∀ path, t.find path = some .dir → path.length ≤ 32) (hentries : t.entries.length ≤ 10000) :
    ∃ files count done', scanDirectories d t fuel walk = .ok files ∧
      Holds t done' ⟨[], files, count⟩ := by
  induction fuel generalizing done walk with
  | zero =>
      obtain ⟨pending, files, count⟩ := walk
      cases pending with
      | nil => exact ⟨files, count, done, rfl, h⟩
      | cons p pending =>
          have hlength := h.length_le
          rw [List.length_cons] at hlength
          omega
  | succ fuel ih =>
      obtain ⟨pending, files, count⟩ := walk
      cases pending with
      | nil => exact ⟨files, count, done, rfl, h⟩
      | cons p pending =>
          have hp := h.pending p List.mem_cons_self
          have hmem : p.directory ∈ done ++ (p :: pending).map Pending.directory :=
            List.mem_append_right _ List.mem_cons_self
          have hpass : failIf (32 < p.depth) expandedError = .ok () := by
            refine failIf_eq_ok.mpr (Nat.not_lt.mpr ?_)
            rw [hp.2]
            exact hdepth _ (h.dirs _ hmem).2
          have hperm := d.perm p.directory (t.names p.directory)
          have hnodup : (p.directory :: done).Nodup := by
            refine List.nodup_cons.mpr ⟨fun hdone => ?_, h.nodup.of_append_left⟩
            exact List.disjoint_of_nodup_append h.nodup hdone (List.mem_map_of_mem List.mem_cons_self)
          have hsum := (Tree.sum_names_le (t := t) hnodup).trans hentries
          rw [List.map_cons, List.sum_cons] at hsum
          have hcount := h.count
          dsimp only at hcount
          have hlength := hperm.length_eq
          obtain ⟨next, hnext, hlisted⟩ := scanNames_listed hp
            (fun name hname => Tree.mem_names.mp (hperm.mem_iff.mp hname))
            (show (⟨pending, files, count⟩ : Walk).count + _ ≤ 10000 by dsimp only; omega)
          obtain ⟨files', count', done', hrun, hholds⟩ := ih (h.step hperm hlisted)
            (by rw [List.length_cons]; omega)
          refine ⟨files', count', done', ?_, hholds⟩
          rw [scanDirectories, hpass, ok_bind, hnext, ok_bind, hrun]

theorem holds_root : Holds t [] ⟨[⟨[], [], 0⟩], [], 0⟩ where
  nodup := by simp
  dirs path hpath := by
    obtain rfl : path = [] := by simpa using hpath
    exact ⟨nofun, Tree.find_nil⟩
  root := by simp
  closed := nofun
  above path name h := by simp at h
  pending := List.forall_mem_singleton.mpr ⟨rfl, rfl⟩
  count := rfl
  files := by simp

/-- The scan of a tree that keeps to the limits finds every file that it does not pass over. -/
theorem scanTree_spec (d : Readdir) (hdepth : ∀ path, t.find path = some .dir → path.length ≤ 32)
    (hentries : t.entries.length ≤ 10000) : ∃ files, scanTree d t = .ok files ∧ ∀ file, file ∈ files ↔
      ∃ path content, t.find path = some (.file content) ∧ Plain path ∧ file = reported path := by
  obtain ⟨files, count, done, hrun, hholds⟩ := scanDirectories_complete (d := d) holds_root
    (Nat.le_add_left _ _) hdepth hentries
  refine ⟨files, hrun, fun file => ?_⟩
  have hmem := hholds.files file
  dsimp only at hmem
  rw [hmem]
  constructor
  · rintro ⟨path, hpath, name, hname, ⟨content, hcontent⟩, rfl⟩
    have hplain := (hholds.dirs path (List.mem_append_left _ hpath)).1
    exact ⟨path ++ [name], content, hcontent, plain_concat.mpr ⟨hplain, hname⟩, rfl⟩
  · rintro ⟨path, content, hcontent, hplain, rfl⟩
    obtain rfl | ⟨parent, name, rfl⟩ := List.eq_nil_or_concat path
    · simp at hcontent
    · rw [List.concat_eq_append] at hcontent hplain ⊢
      obtain ⟨hparent, hname⟩ := plain_concat.mp hplain
      exact ⟨parent, hholds.complete hparent (Tree.find_parent hcontent), name, hname,
        ⟨content, hcontent⟩, rfl⟩

end

/-- No packaged file lies at or below a name that is kept for recovery. -/
def Unreserved (files : Files) : Prop :=
  ∀ relative content, Public files relative content → Plain (relative.splitOn '/')

/-- The installed package has the declared routes. -/
def SameRoutes (o : Parser) (d : Readdir) (t : Tree) (files : Files) (id : Id) (kind : Kind) : Prop :=
  ∃ routes installed, packageRoutes o files id kind = .ok routes ∧
    installedRoutes o d t id kind = .ok installed ∧ routeMap installed = routeMap routes

section

variable {files : Files} {t : Tree} {relative path name : Text} {content : Bytes}

theorem wazPath_parts {path : String} (h : Waz.wazPath path = true) :
    ((chars path).splitOn '/').length ≤ 33 ∧ ∀ part ∈ (chars path).splitOn '/', part ≠ [] := by
  simp only [Waz.wazPath, Bool.and_eq_true, decide_eq_true_eq, Bool.not_eq_true', List.any_eq_false] at h
  refine ⟨h.1.1.2, fun part hpart hnil => ?_⟩
  exact h.1.2 part hpart (by simp [hnil])

theorem public_splitOn {file : String} (h : publicPart file = some relative) :
    (chars file).splitOn '/' = chars "public" :: relative.splitOn '/' := by
  have hpublic : chars "public/" ++ relative = chars "public" ++ '/' :: relative := rfl
  rw [strip_eq_some.mp h, hpublic]
  exact List.splitOn_append_cons_self_of_not_mem (by decide) relative

theorem publicParts (htidy : Tidy files) (h : Public files relative content) :
    (relative.splitOn '/').length ≤ 32 ∧ ∀ part ∈ relative.splitOn '/', part ≠ [] := by
  obtain ⟨file, hfile, hpublic, -⟩ := h
  obtain ⟨hlength, hparts⟩ := wazPath_parts (htidy.paths file hfile)
  rw [public_splitOn hpublic] at hlength hparts
  rw [List.length_cons] at hlength
  exact ⟨by omega, fun part hpart => hparts part (List.mem_cons_of_mem _ hpart)⟩

theorem onTheWay_root {parts path : List Text} :
    OnTheWay [] parts path ↔ ∃ rest, parts = path ++ rest ∧ rest ≠ [] := by
  constructor
  · rintro ⟨way, rest, rfl, hrest, rfl⟩
    exact ⟨rest, rfl, hrest⟩
  · rintro ⟨rest, rfl, hrest⟩
    exact ⟨path, rest, rfl, hrest, rfl⟩

/-- The entries of the tree are the files of the package and the directories above them. -/
theorem find_dir_iff (h : AllWritten .empty files t) {path : List Text} :
    t.find path = some .dir ↔ path = [] ∨
      ∃ relative content rest, Public files relative content ∧ relative.splitOn '/' = path ++ rest ∧
        rest ≠ [] := by
  rw [h.dir, Tree.find_empty]
  simp [onTheWay_root]

theorem find_file_iff (h : AllWritten .empty files t) {path : List Text} :
    t.find path = some (.file content) ↔
      ∃ relative, Public files relative content ∧ path = relative.splitOn '/' := by
  rw [h.file, Tree.find_empty]
  by_cases hpath : path = [] <;> simp [hpath]

theorem depth_le (htidy : Tidy files) (h : AllWritten .empty files t) (path : List Text)
    (hdir : t.find path = some .dir) : path.length ≤ 32 := by
  obtain rfl | ⟨relative, content, rest, hpublic, hparts, -⟩ := (find_dir_iff h).mp hdir
  · exact Nat.zero_le _
  · have hlength := (publicParts htidy hpublic).1
    rw [hparts, List.length_append] at hlength
    omega

/-- The directory of the package, below which it is an ancestor. -/
theorem ancestor_of_parts {file : String} {path rest : List Text} (hpublic : publicPart file = some relative)
    (hparts : relative.splitOn '/' = path ++ rest) (hpath : path ≠ []) (hrest : rest ≠ []) :
    Ancestor (chars "public/" ++ joined path) (chars file) := by
  refine ⟨joined rest, ?_⟩
  have hrelative : relative = joined path ++ '/' :: joined rest := by
    rw [← joined_append hpath hrest, ← hparts]
    exact (List.intercalate_splitOn '/').symm
  rw [strip_eq_some.mp hpublic, hrelative, List.append_assoc]

theorem splitOn_joined {path : List Text} (hpath : path ≠ [])
    (h : ∀ part ∈ path, '/' ∉ part) : (joined path).splitOn '/' = path :=
  List.splitOn_intercalate '/' h hpath

/-- A directory of the tree is one of the package. -/
theorem directory_spec (h : AllWritten .empty files t) {path : List Text} (hpath : path ≠ [])
    (hdir : t.find path = some .dir) : (∀ part ∈ path, '/' ∉ part) ∧
      ∃ file ∈ files, Ancestor (chars "public/" ++ joined path) (chars file.1) := by
  obtain hnil | ⟨relative, content, rest, hpublic, hparts, hrest⟩ := (find_dir_iff h).mp hdir
  · exact absurd hnil hpath
  · obtain ⟨file, hfile, hrelative, -⟩ := hpublic
    refine ⟨fun part hpart => ?_, file, hfile, ancestor_of_parts hrelative hparts hpath hrest⟩
    have hmem : part ∈ relative.splitOn '/' := hparts ▸ List.mem_append_left _ hpart
    exact slash_not_mem_part hmem

theorem entries_le (htidy : Tidy files) (h : AllWritten .empty files t) :
    t.entries.length ≤ 10000 := by
  let paths := files.filterMap fun file => (publicPart file.1).map (·.splitOn '/')
  let dirs := (t.entries.filter fun e => e.2 == .dir).map Prod.fst
  have hpaths : paths.length ≤ files.length := List.length_filterMap_le _ _
  have hsubset : t.entries.map Prod.fst ⊆ paths ++ dirs := by
    intro path hpath
    obtain ⟨⟨_, entry⟩, he, rfl⟩ := List.mem_map.mp hpath
    cases entry with
    | dir => exact List.mem_append_right _ (List.mem_map.mpr ⟨_, List.mem_filter.mpr ⟨he, by simp⟩, rfl⟩)
    | file content =>
        obtain ⟨parent, name, rfl, -⟩ := t.parents _ he
        obtain ⟨relative, ⟨file, hfile, hrelative, -⟩, hparts⟩ :=
          (find_file_iff h).mp (Tree.find_concat.mpr he)
        exact List.mem_append_left _ (List.mem_filterMap.mpr ⟨file, hfile, by simp [hrelative, hparts]⟩)
  have hdirs : ∀ path ∈ dirs, path ≠ [] ∧ t.find path = some .dir := by
    intro path hpath
    obtain ⟨⟨_, entry⟩, he, rfl⟩ := List.mem_map.mp hpath
    obtain ⟨he, hentry⟩ := List.mem_filter.mp he
    obtain rfl : entry = .dir := by simpa using hentry
    obtain ⟨parent, name, rfl, -⟩ := t.parents _ he
    exact ⟨by simp, Tree.find_concat.mpr he⟩
  have hnodup : (dirs.map fun path => chars "public/" ++ joined path).Nodup := by
    refine List.Nodup.map_on (fun first hfirst second hsecond heq => ?_) ?_
    · obtain ⟨hne, hdir⟩ := hdirs first hfirst
      obtain ⟨hne', hdir'⟩ := hdirs second hsecond
      rw [← splitOn_joined hne (directory_spec h hne hdir).1, List.append_cancel_left heq,
        splitOn_joined hne' (directory_spec h hne' hdir').1]
    · exact t.nodup.sublist (List.Sublist.map _ List.filter_sublist)
  have hbudget := htidy.directories _ hnodup fun directory hdirectory => by
    obtain ⟨path, hpath, rfl⟩ := List.mem_map.mp hdirectory
    obtain ⟨hne, hdir⟩ := hdirs path hpath
    exact (directory_spec h hne hdir).2
  have hlength := (t.nodup.subperm hsubset).length_le
  rw [List.length_append, List.length_map] at hlength
  rw [List.length_map] at hbudget
  omega

/-- The suffix of a packaged file below the mount of its frontend. -/
def mounted (name relative : Text) : Text :=
  app ++ name ++ '/' :: if relative = chars "index.html" then [] else relative

def appKeys (files : Files) (name : Text) : List Text :=
  (files.filterMap fun file => publicPath name file.1) ++ [app ++ name]

theorem publicPath_eq (file : String) : publicPath name file = (publicPart file).map (mounted name) :=
  rfl

theorem mem_appKeys : path ∈ appKeys files name ↔
    path = app ++ name ∨ ∃ relative content, Public files relative content ∧ path = mounted name relative := by
  rw [appKeys, List.mem_append, List.mem_filterMap, List.mem_singleton, or_comm]
  refine or_congr_right ⟨?_, ?_⟩
  · rintro ⟨file, hfile, h⟩
    rw [publicPath_eq] at h
    obtain ⟨relative, hrelative, rfl⟩ := Option.map_eq_some_iff.mp h
    exact ⟨relative, file.2, ⟨file, hfile, hrelative, rfl⟩, rfl⟩
  · rintro ⟨relative, _, ⟨file, hfile, hrelative, -⟩, rfl⟩
    exact ⟨file, hfile, by rw [publicPath_eq, hrelative]; rfl⟩

theorem routeMap_const {keys : List Text} {methods : List String} :
    routeMap (keys.map fun path => (path, methods)) path = if path ∈ keys then some methods else none := by
  have hlookup (keys : List Text) : (keys.map fun path => (path, methods)).lookup path =
      if path ∈ keys then some methods else none := by
    induction keys with
    | nil => rfl
    | cons key keys ih =>
        rw [List.map_cons, List.lookup_cons, ih]
        by_cases hkey : path = key
        · simp [hkey]
        · have hne : (path == key) = false := by simpa using hkey
          simp [hkey, hne]
  rw [routeMap, ← List.map_reverse, hlookup]
  simp

theorem mounted_injective {other : Text} (hne : relative ≠ []) (hother : other ≠ [])
    (h : mounted name relative = mounted name other) : relative = other := by
  have htail := (List.cons.inj (List.append_cancel_left h)).2
  split_ifs at htail with hindex hindex'
  · rw [hindex, hindex']
  · exact absurd htail.symm hother
  · exact absurd htail hne
  · exact htail

theorem mounted_ne_root : mounted name relative ≠ app ++ name := by
  intro h
  have hlength := congrArg List.length h
  simp only [mounted, List.length_append, List.length_cons] at hlength
  omega

theorem relative_ne_nil (htidy : Tidy files) (h : Public files relative content) : relative ≠ [] := by
  rintro rfl
  exact (publicParts htidy h).2 [] (by simp) rfl

/-- The scan finds the packaged files that it does not pass over. -/
theorem public_scanned {scanned : Files} (h : AllWritten .empty files t)
    (hscanned : ∀ file, file ∈ scanned ↔ ∃ path content, t.find path = some (.file content) ∧
      Plain path ∧ file = reported path) :
    (∃ content, Public scanned relative content) ↔
      ∃ content, Public files relative content ∧ Plain (relative.splitOn '/') := by
  constructor
  · rintro ⟨_, file, hfile, hrelative, -⟩
    obtain ⟨path, content, hfind, hplain, rfl⟩ := (hscanned file).mp hfile
    obtain ⟨relative', hpublic, rfl⟩ := (find_file_iff h).mp hfind
    have hjoined : joined (relative'.splitOn '/') = relative' := List.intercalate_splitOn '/'
    have hsame : relative = relative' := by
      rw [publicPart, strip_eq_some, reported, chars, String.toList_ofList, hjoined] at hrelative
      exact (List.append_cancel_left hrelative).symm
    exact ⟨content, hsame ▸ hpublic, hsame ▸ hplain⟩
  · rintro ⟨content, hpublic, hplain⟩
    have hjoined : joined (relative.splitOn '/') = relative := List.intercalate_splitOn '/'
    refine ⟨[], reported (relative.splitOn '/'), (hscanned _).mpr ?_, ?_, rfl⟩
    · exact ⟨_, content, (find_file_iff h).mpr ⟨relative, hpublic, rfl⟩, hplain, rfl⟩
    · rw [publicPart, strip_eq_some, reported, chars, String.toList_ofList, hjoined]

theorem app_same_iff {o : Parser} {d : Readdir} {id : Id} (htidy : Tidy files)
    (h : AllWritten .empty files t) : SameRoutes o d t files id .app ↔ Unreserved files := by
  obtain ⟨scanned, hscan, hscanned⟩ := scanTree_spec d (depth_le htidy h) (entries_le htidy h)
  have hroutes (files : Files) : packageRoutes o files id .app =
      .ok ((appKeys files (chars id.name)).map fun path => (path, ["GET", "HEAD"])) := rfl
  have hinstalled : installedRoutes o d t id .app =
      .ok ((appKeys scanned (chars id.name)).map fun path => (path, ["GET", "HEAD"])) := by
    rw [installedRoutes, hscan, ok_bind, hroutes]
  have hkeys : SameRoutes o d t files id .app ↔ ∀ path,
      path ∈ appKeys scanned (chars id.name) ↔ path ∈ appKeys files (chars id.name) := by
    rw [SameRoutes]
    simp only [hroutes, hinstalled, Except.ok.injEq, exists_and_left, exists_eq_left', funext_iff,
      routeMap_const]
    refine forall_congr' fun path => ?_
    by_cases h₁ : path ∈ appKeys scanned (chars id.name) <;>
      by_cases h₂ : path ∈ appKeys files (chars id.name) <;> simp [h₁, h₂]
  rw [hkeys]
  constructor
  · intro hsame relative content hpublic
    have hmem := (hsame (mounted (chars id.name) relative)).mpr
      (mem_appKeys.mpr (.inr ⟨relative, content, hpublic, rfl⟩))
    obtain hroot | ⟨other, content', hother, hmounted⟩ := mem_appKeys.mp hmem
    · exact absurd hroot mounted_ne_root
    · obtain ⟨content'', hpublic', hplain⟩ := (public_scanned h hscanned).mp ⟨content', hother⟩
      rwa [mounted_injective (relative_ne_nil htidy hpublic) (relative_ne_nil htidy hpublic')
        hmounted]
  · intro hunreserved path
    rw [mem_appKeys, mem_appKeys]
    refine or_congr_right ⟨?_, ?_⟩
    · rintro ⟨relative, content, hpublic, rfl⟩
      obtain ⟨content', hpublic', -⟩ := (public_scanned h hscanned).mp ⟨content, hpublic⟩
      exact ⟨relative, content', hpublic', rfl⟩
    · rintro ⟨relative, content, hpublic, rfl⟩
      have hplain := hunreserved relative content hpublic
      obtain ⟨content', hpublic'⟩ := (public_scanned h hscanned).mpr ⟨content, hpublic, hplain⟩
      exact ⟨relative, content', hpublic', rfl⟩

theorem lookup_mem {key : String} (h : files.lookup key = some content) : (key, content) ∈ files := by
  induction files with
  | nil => cases h
  | cons file files ih =>
      rw [List.lookup_cons] at h
      split at h
      · rename_i hkey
        cases h
        exact eq_of_beq hkey ▸ List.mem_cons_self
      · exact List.mem_cons_of_mem _ (ih h)

/-- The file of a component is found again under its name. -/
theorem componentName_spec {id : Id} (hvalid : validName id.name = true) :
    (componentName id).splitOn '/' = [componentName id] ∧ badPart (componentName id) = false := by
  simp only [validName, Bool.and_eq_true, List.all_eq_true] at hvalid
  have hchar (c : Char) (hc : c ∈ componentName id) : c ≠ '/' ∧ c ≠ '\\' := by
    obtain hc | hc := List.mem_append.mp hc
    · have hname := hvalid.2 c hc
      constructor <;>
      · rintro rfl
        revert hname
        decide
    · have hall : ((chars ".wasm").all fun c => c != '/' && c != '\\') = true := by decide
      simpa using List.all_eq_true.mp hall c hc
  have hlong : 4 < (componentName id).length := by
    rw [componentName, List.length_append]
    exact Nat.lt_add_left _ (by decide)
  refine ⟨List.splitOn_eq_singleton fun hmem => (hchar _ hmem).1 rfl, ?_⟩
  rw [badPart, Bool.or_eq_false_iff]
  constructor
  · cases h : [[], chars ".", chars ".."].contains (componentName id) with
    | false => rfl
    | true =>
        have hshort : ∀ part ∈ [[], chars ".", chars ".."], part.length ≤ 4 := by decide
        have hle := hshort _ (List.contains_iff_mem.mp h)
        omega
  · cases h : (componentName id).contains '\\' with
    | false => rfl
    | true => exact absurd rfl (hchar _ (List.contains_iff_mem.mp h)).2

theorem lib_same {trust : Trust} {o : Parser} {d : Readdir} {metadata : Metadata} (htidy : Tidy files)
    (haccepted : Accepted trust o files metadata)
    (hwritten : writeExpanded files metadata.id .lib = .ok t) :
    SameRoutes o d t files metadata.id .lib := by
  obtain ⟨backend, hbackend, hwrite⟩ := bind_eq_ok.mp hwritten
  have hlookup := orElse_eq_ok.mp hbackend
  have hfind : t.find [componentName metadata.id] = some (.file backend) :=
    ((writeComponent_spec hwrite).file _ _).mpr (.inr ⟨rfl, rfl⟩)
  have hvalid : validName metadata.id.name = true := (packageMetadata_spec haccepted.metadata).1
  obtain ⟨hsplit, hgood⟩ := componentName_spec hvalid
  have hopen : expandedFile t [] (componentName metadata.id) = .ok backend := by
    have hpass : failIf (badPart (componentName metadata.id) = true) expandedError = .ok () := by
      simp [hgood]
    rw [expandedFile, hsplit, openFile, hpass, ok_bind, List.nil_append, hfind]
  have hread : readRuntimeWasm backend = .ok backend := by
    have hle := htidy.limits _ (lookup_mem hlookup)
    have hlimit : Waz.entryLimit "backend.wasm" = Waz.limit := by simp [Waz.entryLimit]
    rw [hlimit] at hle
    have hpass : failIf (Waz.limit < backend.length)
        (Error.invalidComponent "component exceeds 64 MiB") = .ok () :=
      failIf_eq_ok.mpr (Nat.not_lt.mpr hle)
    rw [readRuntimeWasm, hpass, ok_bind]
  have hsame : packageRoutes o [("backend.wasm", backend)] metadata.id .lib =
      packageRoutes o files metadata.id .lib := by
    have hone : List.lookup "backend.wasm" [("backend.wasm", backend)] = some backend := rfl
    rw [packageRoutes, packageRoutes, packageOpenapi, packageOpenapi, hlookup, hone]
  obtain ⟨raw, paths, hraw, hchecked⟩ := haccepted.backend (by simp [hlookup])
  have hroutes : packageRoutes o files metadata.id .lib = .ok (paths.map fun path =>
      (placeOf metadata.id ++ chars path.1, path.2.methods.map Prod.fst)) := by
    rw [packageRoutes, hraw, ok_bind, hchecked.openApi, ok_bind]
  refine ⟨_, _, hroutes, ?_, rfl⟩
  rw [installedRoutes, hopen, ok_bind, hread, ok_bind, hsame, hroutes]

end

/-- Looks into archives and components with the code of this repository. -/
def reading (t : Trust) (o : Parser) (zip : Waz.Zip) : Trust :=
  withParser { t with wazRead := Waz.readPackage zip } o

theorem readPackageAt_spec {t : Trust} {o : Parser} {zip : Waz.Zip} {bytes : Bytes} {at' : Int}
    {files : Files} (h : readPackageAt (reading t o zip) bytes at' = .ok files) :
    Tidy files ∧ ∀ metadata, packageMetadata t files = .ok metadata → Accepted t o files metadata := by
  obtain ⟨files', hfiles, h⟩ := bind_eq_ok.mp h
  obtain ⟨metadata, hmetadata, h⟩ := bind_eq_ok.mp h
  obtain ⟨_, -, h⟩ := bind_eq_ok.mp h
  obtain ⟨_, -, h⟩ := bind_eq_ok.mp h
  obtain ⟨_, -, h⟩ := bind_eq_ok.mp h
  cases h
  rw [reading, validateContents_withParser] at hmetadata
  have haccepted := accepted_of_validateContents hmetadata
  refine ⟨wazRead_tidy (Waz.readPackage_eq_ok.mp (mapError_eq_ok.mp hfiles)), fun other hother => ?_⟩
  have hsame := haccepted.metadata
  change packageMetadata t files = .ok metadata at hsame
  rw [hother] at hsame
  cases hsame
  exact ⟨haccepted.metadata, haccepted.notStd, haccepted.notApp, haccepted.backend⟩

/-- What a package declares is what the scan of its installed files finds, unless a file lies at or
below a name that is kept for recovery. -/
theorem installedRoutes_same_iff {t : Trust} {o : Parser} {zip : Waz.Zip} {bytes : Bytes} {at' : Int}
    {files : Files} {metadata : Metadata} {tree : Tree} {kind : Kind} (d : Readdir)
    (haccepted : readPackageAt (reading t o zip) bytes at' = .ok files)
    (hmetadata : packageMetadata t files = .ok metadata)
    (hwritten : writeExpanded files metadata.id kind = .ok tree) :
    SameRoutes o d tree files metadata.id kind ↔ (kind = .app → Unreserved files) := by
  obtain ⟨htidy, hspec⟩ := readPackageAt_spec haccepted
  cases kind with
  | lib => exact iff_of_true (lib_same htidy (hspec metadata hmetadata) hwritten) nofun
  | app => simpa using app_same_iff htidy (writeApp_spec hwritten)

def pageManifest : Json :=
  .obj [("format", .str "waz/1"), ("package", .obj [("author", .str "alice.example"),
      ("name", .str "page"), ("version", .str "1.0.0"), ("title", .str "Page"),
      ("description", .str "A page"), ("license", .str "MIT"), ("release-notes", .str "First")]),
    ("dependencies", .arr []), ("frontend", .str "public")]

def pageEnvelope : Json :=
  .obj [("version", .int 1), ("signature", .str "s"), ("certificates", .arr [.str "leaf", .str "issuer"])]

def pageTrust : Trust where
  sha256 := id
  decode _ := some [4]
  parse data := [([1], pageManifest), ([2], pageEnvelope)].lookup data
  normalizeName := some
  parseUrl _ := none
  wazRead _ := .ok []
  root := []
  certificate _ := some ⟨false, some ["alice.example"], "1", []⟩
  keyIdentifier _ := some ⟨"ski", "owner"⟩
  verifySignature _ _ _ := some true
  verifyChain _ _ _ := .ok ()
  serverAuth _ _ := true
  validForName _ _ := true
  validateComponent _ := .ok ()
  capabilityRows _ := .ok []

def pageMetadata : Metadata :=
  ⟨"alice.example", "page", "1.0.0", "Page", "A page", "MIT", "First", [], false, true, none⟩

/-- A package with a frontend of these files. -/
def pageFiles (files : Files) : Files :=
  [("manifest.json", [1])] ++ files ++ [("signature.json", [2])]

def readPage (files : Files) : Except Error Files :=
  readPackageAt (reading pageTrust sampleParser (WazAccounting.storedZip (pageFiles files)))
    (WazAccounting.storedArchive (pageFiles files)) 0

def plainPage : Files := [("public/a/b.txt", [7]), ("public/index.html", [5])]

def keptPage : Files := [("public/a/.previous", [7]), ("public/index.html", [5])]

def isOk {ε α : Type} : Except ε α → Bool
  | .ok _ => true
  | .error _ => false

theorem exists_of_isOk {ε α : Type} {x : Except ε α} (h : isOk x = true) : ∃ a, x = .ok a := by
  cases x with
  | error e => cases h
  | ok a => exact ⟨a, rfl⟩

theorem plainPage_read : readPage plainPage = .ok (pageFiles plainPage) := by decide +kernel

theorem keptPage_read : readPage keptPage = .ok (pageFiles keptPage) := by decide +kernel

theorem plainPage_written : ∃ tree,
    writeExpanded (pageFiles plainPage) pageMetadata.id .app = .ok tree :=
  exists_of_isOk (by decide +kernel)

theorem keptPage_written : ∃ tree,
    writeExpanded (pageFiles keptPage) pageMetadata.id .app = .ok tree :=
  exists_of_isOk (by decide +kernel)

theorem keptPage_reserved : ¬Unreserved (pageFiles keptPage) := by
  intro h
  have hpublic : Public (pageFiles keptPage) (chars "a/.previous") [7] :=
    ⟨("public/a/.previous", [7]), by decide, by decide, rfl⟩
  have hplain := h _ _ hpublic (chars ".previous") (by decide)
  exact absurd hplain (by decide)

theorem installedRoutes_same_page : ∃ tree,
    writeExpanded (pageFiles plainPage) pageMetadata.id .app = .ok tree ∧
      (SameRoutes sampleParser ⟨fun _ names => names, fun _ _ => .refl _⟩ tree (pageFiles plainPage)
        pageMetadata.id .app ↔ (Kind.app = .app → Unreserved (pageFiles plainPage))) := by
  obtain ⟨tree, hwritten⟩ := plainPage_written
  have hmetadata : packageMetadata pageTrust (pageFiles plainPage) = .ok pageMetadata := by
    decide +kernel
  exact ⟨tree, hwritten, installedRoutes_same_iff _ plainPage_read hmetadata hwritten⟩

/-- A file at a recovery name below a directory of the frontend is written, and its route is not
found again. -/
theorem kept_name_escapes : ∃ tree, readPage keptPage = .ok (pageFiles keptPage) ∧
    packageMetadata pageTrust (pageFiles keptPage) = .ok pageMetadata ∧
    writeExpanded (pageFiles keptPage) pageMetadata.id .app = .ok tree ∧
    ¬SameRoutes sampleParser ⟨fun _ names => names, fun _ _ => .refl _⟩ tree (pageFiles keptPage)
      pageMetadata.id .app := by
  obtain ⟨tree, hwritten⟩ := keptPage_written
  have hmetadata : packageMetadata pageTrust (pageFiles keptPage) = .ok pageMetadata := by
    decide +kernel
  refine ⟨tree, keptPage_read, hmetadata, hwritten, fun hsame => ?_⟩
  have hunreserved := (app_same_iff (readPackageAt_spec keptPage_read).1 (writeApp_spec hwritten)).mp hsame
  exact keptPage_reserved hunreserved

end Pishoo.InstalledRoutes
