import Pishoo.Expanded
import Pishoo.Legacy
import Pishoo.ProxyRules

namespace Pishoo.LegacyFiles

open Result PathText Publication FileTree Expanded Legacy WazAccounting

/-- A name in a directory, which need not be UTF-8. -/
inductive Name
  | text (name : Text)
  | raw (bytes : Bytes)
  deriving DecidableEq

/-- A regular file, with its device and the number of its links. -/
structure Regular where
  device : Nat
  links : Nat
  bytes : Bytes
  deriving DecidableEq

inductive Leaf
  | regular (file : Regular)
  | symlink
  | special
  deriving DecidableEq

/-- The directory of an identity, while it does not change. It is `[]`, and the order in which a
directory lists its names may be any. -/
structure Profile where
  tree : FileTree.Tree Name Leaf
  device : List Name → Nat
  order : List Name → List Name → List Name
  perm : ∀ path names, (order path names).Perm names
  proper : ∀ e ∈ tree.entries, ∀ text, .text text ∈ e.1 →
    '/' ∉ text ∧ text ∉ [[], chars ".", chars ".."]

/-- `dhttp_home::normalize_name`, and the digest of `sha2` as hexadecimal text. -/
structure Crates where
  normalizeName : String → Option String
  sha256 : Bytes → String
  digest : ∀ bytes, sha256 bytes ≠ ""

def asU64 : Json → Option Nat
  | .int n => if 0 ≤ n then some n.toNat else none
  | _ => none

/-- The names on the way to a path. -/
def resolve (path : Text) : List Name := (path.splitOn '/').map Name.text

def childDir (p : Profile) (parent : List Name) (part : Text) : Except Error (List Name) :=
  (p.tree.openDir parent (.text part)).mapError layoutError

def openFile (p : Profile) (parent : List Name) : List Text → Except Error Regular
  | [] => .error expandedError
  | [part] => do
      failIf (badPart part = true) expandedError
      match p.tree.find (parent ++ [.text part]) with
      | some (.file (.regular file)) => .ok file
      | some (.file .symlink) => .error (layoutError .notDirectory)
      | some (.file .special) => .error expandedError
      | some .dir => .error expandedError
      | none => .error (layoutError .notFound)
  | part :: next :: rest => do
      failIf (badPart part = true) expandedError
      let child ← childDir p parent part
      openFile p child (next :: rest)

/-- The directories that are still to be listed, and the files that have been found. -/
structure Walk where
  pending : List Text
  actual : List Text

def limit : Nat := 8192

def hides (keys : List Text) (path : Text) : Bool := keys.any (starts (path ++ ['/']))

def visitChild (p : Profile) (keys : List Text) (path : Text) (directory : List Name) (walk : Walk)
    (name : Name) : Except Error Walk :=
  match name with
  | .raw _ => .error expandedError
  | .text leaf => do
      let child := path ++ '/' :: leaf
      let walk ← (match p.tree.find (directory ++ [name]) with
        | some .dir => do
            failIf (hides keys child = false) expandedError
            .ok { walk with pending := child :: walk.pending }
        | some (.file (.regular _)) => .ok { walk with actual := walk.actual.insert child }
        | _ => .error expandedError)
      failIf (limit < walk.actual.length + walk.pending.length) expandedError
      .ok walk

/-- The names of a directory, in the order in which they are listed. -/
def listed (p : Profile) (directory : List Name) : List Name :=
  p.order directory (p.tree.names directory)

def visit (p : Profile) (keys : List Text) (path : Text) (walk : Walk) : Except Error Walk := do
  let directory ← (path.splitOn '/').foldlM (childDir p) []
  failIf (p.device directory ≠ p.device []) expandedError
  (listed p directory).foldlM (visitChild p keys path directory) walk

def traverse (p : Profile) (keys : List Text) : Nat → Walk → Except Error (List Text)
  | _, ⟨[], actual⟩ => .ok actual
  | 0, _ => .error expandedError
  | fuel + 1, ⟨path :: pending, actual⟩ => do
      let walk ← visit p keys path ⟨pending, actual⟩
      traverse p keys fuel walk

/-- Each directory is listed once, so the entries bound the loop. -/
def enough (p : Profile) : Nat := p.tree.entries.length + 1

/-- The paths of the lib and of all files below the directory of the app. -/
def gather (p : Profile) (keys : List Text) (lib app : Text) (hasLib hasApp : Bool) :
    Except Error (List Text) :=
  let found := if hasLib then [lib] else []
  if hasApp then traverse p keys (enough p) ⟨[app], found⟩ else .ok found

def totalLimit : Nat := 64 * 1024 * 1024

def recordOf (files : List (String × Json)) (path : Text) : Json :=
  (files.lookup (String.ofList path)).getD .null

/-- The checks of one file, and the total of the sizes with it. -/
def checkFile (c : Crates) (p : Profile) (files : List (String × Json)) (total : Nat) (path : Text) :
    Except Error Nat := do
  let record := recordOf files path
  let size ← orElse (asU64 (record.get "size")) expandedError
  failIf (totalLimit < total + size) expandedError
  let file ← openFile p [] (path.splitOn '/')
  failIf (file.links ≠ 1 ∨ file.device ≠ p.device [] ∨ file.bytes.length ≠ size) expandedError
  let sha256 ← migrationText record "sha256"
  failIf (c.sha256 file.bytes ≠ sha256) expandedError
  .ok (total + size)

def libPath (author name : String) : Text :=
  chars "lib/" ++ (if isStandardAuthor author then chars "std/" else []) ++ chars name ++ chars ".wasm"

def appPath (name : String) : Text := chars "app/" ++ chars name

def textOrder (a b : Text) : Prop := String.ofList a ≤ String.ofList b

instance : DecidableRel textOrder := fun a b =>
  inferInstanceAs (Decidable (String.ofList a ≤ String.ofList b))

def keysOf (files : List (String × Json)) : List Text := files.map fun file => chars file.1

/-- Whether the paths are those that the kinds of the package ask for. -/
def composed (keys : List Text) (lib app : Text) (hasLib hasApp : Bool) : Bool :=
  hasLib == keys.contains lib && hasApp == hides keys app &&
    keys.all fun key => key == lib || starts (app ++ ['/']) key

def verifyLegacyFiles (c : Crates) (p : Profile) (entry : Json) (hasLib hasApp : Bool) :
    Except Error Unit := do
  let name ← migrationText entry "name"
  let author ← migrationText entry "author"
  validId c.normalizeName ⟨some author, name⟩
  let files ← orElse ((Component.fieldsOf (entry.get "files")).filter fun files =>
    !files.isEmpty && files.length ≤ 4096) (.invalidConfig "invalid legacy runtime file set")
  let keys := keysOf files
  failIf (composed keys (libPath author name) (appPath name) hasLib hasApp = false)
    (.invalidConfig "legacy resource composition mismatch")
  let actual ← gather p keys (libPath author name) (appPath name) hasLib hasApp
  failIf (¬(actual ⊆ keys ∧ keys ⊆ actual)) expandedError
  let _total ← (actual.insertionSort textOrder).foldlM (checkFile c p files) 0
  .ok ()

section

variable {p : Profile} {c : Crates} {keys : List Text} {path file leaf : Text}
  {directory parent rest : List Name} {walk walk' : Walk} {name : Name} {parts : List Text}
  {files : List (String × Json)} {entry : FileTree.Entry Leaf}

theorem text_injective : Function.Injective Name.text := fun _ _ h => Name.text.inj h

theorem splitOn_inj {a b : Text} (h : a.splitOn '/' = b.splitOn '/') : a = b := by
  calc a = ['/'].intercalate (a.splitOn '/') := (List.intercalate_splitOn '/').symm
    _ = ['/'].intercalate (b.splitOn '/') := by rw [h]
    _ = b := List.intercalate_splitOn '/'

theorem resolve_inj {a b : Text} (h : resolve a = resolve b) : a = b :=
  splitOn_inj (List.map_injective_iff.mpr text_injective h)

theorem resolve_ne_nil (path : Text) : resolve path ≠ [] := by
  rw [resolve, ne_eq, List.map_eq_nil_iff]
  exact List.splitOn_ne_nil '/' path

theorem resolve_append (path tail : Text) :
    resolve (path ++ '/' :: tail) = resolve path ++ resolve tail := by
  rw [resolve, List.splitOn_append_cons_self, List.map_append]
  rfl

theorem resolve_leaf (h : '/' ∉ leaf) : resolve leaf = [.text leaf] := by
  rw [resolve, List.splitOn_eq_singleton h]
  rfl

theorem resolve_child (path : Text) (h : '/' ∉ leaf) :
    resolve (path ++ '/' :: leaf) = resolve path ++ [.text leaf] := by
  rw [resolve_append, resolve_leaf h]

/-- A text starts with a directory if its names do, and go on. -/
theorem starts_iff_resolve {key : Text} : starts (path ++ ['/']) key = true ↔
    ∃ rest, rest ≠ [] ∧ resolve key = resolve path ++ rest := by
  rw [ProxyRules.starts_iff]
  constructor
  · rintro ⟨tail, rfl⟩
    refine ⟨resolve tail, resolve_ne_nil tail, ?_⟩
    rw [List.append_assoc]
    exact resolve_append path tail
  · rintro ⟨rest, hrest, hkey⟩
    obtain ⟨first, last, hsplit, hfirst, hlast⟩ := List.map_eq_append_iff.mp hkey
    have hsame : first = path.splitOn '/' := List.map_injective_iff.mpr text_injective hfirst
    have hne : last ≠ [] := by
      rintro rfl
      exact hrest hlast.symm
    have hparts : ∀ part ∈ last, '/' ∉ part := by
      intro part hpart
      have hmem : part ∈ key.splitOn '/' := by
        rw [hsplit]
        exact List.mem_append_right _ hpart
      exact slash_not_mem_part hmem
    refine ⟨['/'].intercalate last, splitOn_inj ?_⟩
    rw [hsplit, hsame, List.append_assoc, List.singleton_append, List.splitOn_append_cons_self,
      List.splitOn_intercalate '/' hparts hne]

theorem childDir_eq_ok {child : List Name} {part : Text} : childDir p parent part = .ok child ↔
    p.tree.find (parent ++ [.text part]) = some .dir ∧ child = parent ++ [.text part] := by
  rw [childDir, mapError_eq_ok, Tree.openDir_eq_ok]

theorem openDirs_eq_ok (hparent : p.tree.find parent = some .dir) :
    parts.foldlM (childDir p) parent = .ok directory ↔
      directory = parent ++ parts.map Name.text ∧ p.tree.find directory = some .dir := by
  induction parts generalizing parent with
  | nil =>
      rw [List.map_nil, List.append_nil, List.foldlM_nil]
      constructor
      · rintro ⟨⟩
        exact ⟨rfl, hparent⟩
      · rintro ⟨rfl, -⟩
        rfl
  | cons part parts ih =>
      rw [List.foldlM_cons, bind_eq_ok]
      have hsame : parent ++ (part :: parts).map Name.text =
          parent ++ [.text part] ++ parts.map Name.text := by simp
      rw [hsame]
      constructor
      · rintro ⟨child, hchild, hrest⟩
        obtain ⟨hfind, rfl⟩ := childDir_eq_ok.mp hchild
        exact (ih hfind).mp hrest
      · rintro ⟨rfl, hfind⟩
        have hchild : p.tree.find (parent ++ [.text part]) = some .dir := by
          by_cases hparts : parts = []
          · rwa [hparts, List.map_nil, List.append_nil] at hfind
          · exact Tree.find_prefix (by simpa using hparts) hfind
        exact ⟨_, childDir_eq_ok.mpr ⟨hchild, rfl⟩, (ih hchild).mpr ⟨rfl, hfind⟩⟩

/-- A file is opened if it is a regular one, and no part of its path is a bad one. -/
theorem openFile_eq_ok {content : Regular} : openFile p parent parts = .ok content ↔
    parts ≠ [] ∧ (∀ part ∈ parts, badPart part = false) ∧
      p.tree.find (parent ++ parts.map Name.text) = some (.file (.regular content)) := by
  induction parts generalizing parent with
  | nil => exact iff_of_false (by rintro ⟨⟩) fun h => h.1 rfl
  | cons part parts ih =>
      cases parts with
      | nil =>
          rw [openFile, bind_eq_ok, List.map_singleton, List.forall_mem_singleton]
          simp only [failIf_eq_ok, Bool.not_eq_true, ne_eq, List.cons_ne_nil, not_false_eq_true,
            true_and, exists_const]
          refine and_congr_right fun _ => ?_
          split <;> rename_i hfind <;> rw [hfind] <;> simp
      | cons next rest =>
          rw [openFile, bind_eq_ok]
          simp only [failIf_eq_ok, Bool.not_eq_true, bind_eq_ok, childDir_eq_ok, exists_const]
          have hsame : parent ++ (part :: next :: rest).map Name.text =
              parent ++ [.text part] ++ (next :: rest).map Name.text := by simp
          rw [hsame, List.forall_mem_cons]
          constructor
          · rintro ⟨hbad, child, ⟨-, rfl⟩, hrest⟩
            obtain ⟨-, hbads, hfind⟩ := ih.mp hrest
            exact ⟨List.cons_ne_nil _ _, ⟨hbad, hbads⟩, hfind⟩
          · rintro ⟨-, ⟨hbad, hbads⟩, hfind⟩
            have hchild := Tree.find_prefix (by simp) hfind
            exact ⟨hbad, _, ⟨hchild, rfl⟩, ih.mpr ⟨List.cons_ne_nil _ _, hbads, hfind⟩⟩

/-- Some key lies below the directory. -/
def Hides (keys : List Text) (directory : List Name) : Prop :=
  ∃ key ∈ keys, ∃ rest, rest ≠ [] ∧ resolve key = directory ++ rest

theorem hides_iff : hides keys path = true ↔ Hides keys (resolve path) := by
  simp only [hides, List.any_eq_true, starts_iff_resolve, Hides]

/-- The names of an entry are those of a file name. -/
theorem proper_name (hfind : p.tree.find (parent ++ [.text leaf]) = some entry) :
    '/' ∉ leaf ∧ leaf ∉ [[], chars ".", chars ".."] :=
  p.proper _ (Tree.find_concat.mp hfind) leaf (by simp)

theorem proper_of_find (hpath : directory ≠ []) (hfind : p.tree.find directory = some entry)
    (hleaf : .text leaf ∈ directory) : '/' ∉ leaf ∧ leaf ∉ [[], chars ".", chars ".."] :=
  p.proper _ ((Tree.find_of_ne hpath).mp hfind) leaf hleaf

/-- An entry that the traversal goes on with. -/
structure Fine (p : Profile) (keys : List Text) (directory : List Name) (name : Name) : Prop where
  decoded : ∃ leaf, name = .text leaf
  plain : (p.tree.find (directory ++ [name]) = some .dir ∧ Hides keys (directory ++ [name])) ∨
    ∃ file, p.tree.find (directory ++ [name]) = some (.file (.regular file))

theorem visitChild_eq_ok : visitChild p keys path (resolve path) walk name = .ok walk' ↔
    ∃ leaf, name = .text leaf ∧
      (p.tree.find (resolve path ++ [name]) = some .dir ∧
          Hides keys (resolve path ++ [name]) ∧
          walk' = ⟨(path ++ '/' :: leaf) :: walk.pending, walk.actual⟩ ∨
        (∃ file, p.tree.find (resolve path ++ [name]) = some (.file (.regular file))) ∧
          walk' = ⟨walk.pending, walk.actual.insert (path ++ '/' :: leaf)⟩) ∧
      walk'.actual.length + walk'.pending.length ≤ limit := by
  cases name with
  | raw bytes =>
      refine iff_of_false (by rintro ⟨⟩) ?_
      rintro ⟨leaf, ⟨⟩, -⟩
  | text leaf =>
      simp only [Name.text.injEq, exists_eq_left', visitChild, bind_eq_ok]
      cases hfind : p.tree.find (resolve path ++ [.text leaf]) with
      | none => simp
      | some entry =>
          have hchild := resolve_child path (proper_name hfind).1
          cases entry with
          | dir =>
              simp only [bind_eq_ok, failIf_eq_ok, Bool.not_eq_false, hides_iff, hchild, Nat.not_lt]
              constructor
              · rintro ⟨w, ⟨_, hhides, hw⟩, _, hlimit, hwalk⟩
                cases hw
                cases hwalk
                exact ⟨.inl ⟨trivial, hhides, rfl⟩, hlimit⟩
              · rintro ⟨⟨-, hhides, rfl⟩ | ⟨⟨_, ⟨⟩⟩, -⟩, hlimit⟩
                exact ⟨_, ⟨(), hhides, rfl⟩, (), hlimit, rfl⟩
          | file kept =>
              cases kept with
              | regular file =>
                  simp only [failIf_eq_ok, Nat.not_lt]
                  constructor
                  · rintro ⟨w, hw, _, hlimit, hwalk⟩
                    cases hw
                    cases hwalk
                    exact ⟨.inr ⟨⟨file, rfl⟩, rfl⟩, hlimit⟩
                  · rintro ⟨⟨⟨⟩, -⟩ | ⟨-, rfl⟩, hlimit⟩
                    exact ⟨_, rfl, (), hlimit, rfl⟩
              | symlink => simp
              | special => simp

/-- A path that is a path and one of the names behind it. -/
def Child (p : Profile) (path : Text) (names : List Name) (q : Text) (entry : FileTree.Entry Leaf) :
    Prop :=
  ∃ leaf, .text leaf ∈ names ∧ q = path ++ '/' :: leaf ∧
    p.tree.find (resolve path ++ [.text leaf]) = some entry

theorem child_cons {names : List Name} {q : Text} {kept : FileTree.Entry Leaf}
    (hfind : p.tree.find (resolve path ++ [.text leaf]) = some kept) :
    Child p path (.text leaf :: names) q entry ↔
      q = path ++ '/' :: leaf ∧ kept = entry ∨ Child p path names q entry := by
  constructor
  · rintro ⟨leaf', hmem, hq, hfind'⟩
    rcases List.mem_cons.mp hmem with heq | hmem
    · cases heq
      exact .inl ⟨hq, Option.some.inj (hfind.symm.trans hfind')⟩
    · exact .inr ⟨leaf', hmem, hq, hfind'⟩
  · rintro (⟨hq, rfl⟩ | ⟨leaf', hmem, hq, hfind'⟩)
    · exact ⟨leaf, List.mem_cons_self, hq, hfind⟩
    · exact ⟨leaf', List.mem_cons_of_mem _ hmem, hq, hfind'⟩

theorem visitChildren_spec {names : List Name}
    (h : names.foldlM (visitChild p keys path (resolve path)) walk = .ok walk') :
    (∀ name ∈ names, Fine p keys (resolve path) name) ∧
    (∀ q, q ∈ walk'.pending ↔ q ∈ walk.pending ∨ Child p path names q .dir) ∧
    (∀ q, q ∈ walk'.actual ↔ q ∈ walk.actual ∨ ∃ file, Child p path names q (.file (.regular file))) ∧
    (walk.actual.Nodup → walk'.actual.Nodup) := by
  induction names generalizing walk with
  | nil =>
      cases h
      have hno (q : Text) (entry : FileTree.Entry Leaf) : ¬Child p path [] q entry := by
        rintro ⟨_, hmem, -⟩
        cases hmem
      exact ⟨List.forall_mem_nil _, fun q => by simp [hno], fun q => by simp [hno], id⟩
  | cons name names ih =>
      rw [List.foldlM_cons] at h
      obtain ⟨next, hnext, h⟩ := bind_eq_ok.mp h
      obtain ⟨hfine, hpending, hactual, hnodup⟩ := ih h
      obtain ⟨leaf, rfl, hcases, -⟩ := visitChild_eq_ok.mp hnext
      obtain ⟨hfind, hhides, rfl⟩ | ⟨⟨file, hfind⟩, rfl⟩ := hcases
      · refine ⟨List.forall_mem_cons.mpr ⟨⟨⟨leaf, rfl⟩, .inl ⟨hfind, hhides⟩⟩, hfine⟩, fun q => ?_,
          fun q => ?_, hnodup⟩
        · rw [hpending, child_cons hfind, List.mem_cons, and_iff_left rfl]
          exact or_assoc.trans or_left_comm
        · simp only [hactual, child_cons hfind, reduceCtorEq, and_false, false_or]
      · refine ⟨List.forall_mem_cons.mpr ⟨⟨⟨leaf, rfl⟩, .inr ⟨file, hfind⟩⟩, hfine⟩, fun q => ?_,
          fun q => ?_, fun h => hnodup h.insert⟩
        · simp only [hpending, child_cons hfind, reduceCtorEq, and_false, false_or]
        · simp only [hactual, child_cons hfind, List.mem_insert_iff, FileTree.Entry.file.injEq,
            Leaf.regular.injEq, exists_or, exists_and_left, exists_eq', and_true]
          exact or_assoc.trans or_left_comm

/-- The weight of the directories that are still to be listed, and of the files. -/
def load (a : Nat) (weight : List Name → Nat) (walk : Walk) : Nat :=
  a * walk.actual.length + (walk.pending.map fun q => weight (resolve q)).sum

theorem load_push {a : Nat} {weight : List Name → Nat}
    (hfind : p.tree.find (resolve path ++ [.text leaf]) = some entry) :
    load a weight ⟨(path ++ '/' :: leaf) :: walk.pending, walk.actual⟩ =
      load a weight walk + weight (resolve path ++ [.text leaf]) := by
  simp only [load, List.map_cons, List.sum_cons, resolve_child path (proper_name hfind).1]
  omega

theorem load_insert {a : Nat} {weight : List Name → Nat} {n : Nat} (h : a ≤ n) :
    load a weight ⟨walk.pending, walk.actual.insert file⟩ ≤ load a weight walk + n := by
  have hlength : (walk.actual.insert file).length ≤ walk.actual.length + 1 := by
    rw [List.length_insert]
    split <;> omega
  have hscaled := Nat.mul_le_mul_left a hlength
  rw [Nat.mul_add, Nat.mul_one] at hscaled
  simp only [load]
  omega

theorem visitChild_load {a : Nat} {weight : List Name → Nat}
    (h : visitChild p keys path (resolve path) walk name = .ok walk')
    (hfile : ∀ file, p.tree.find (resolve path ++ [name]) = some (.file (.regular file)) →
      a ≤ weight (resolve path ++ [name])) :
    load a weight walk' ≤ load a weight walk + weight (resolve path ++ [name]) := by
  obtain ⟨leaf, rfl, ⟨hfind, -, rfl⟩ | ⟨⟨file, hfind⟩, rfl⟩, -⟩ := visitChild_eq_ok.mp h
  · exact (load_push hfind).le
  · exact load_insert (hfile file hfind)

theorem visitChildren_load {a : Nat} {weight : List Name → Nat} {names : List Name}
    (h : names.foldlM (visitChild p keys path (resolve path)) walk = .ok walk')
    (hfile : ∀ name ∈ names, ∀ file, p.tree.find (resolve path ++ [name]) = some (.file (.regular file)) →
      a ≤ weight (resolve path ++ [name])) :
    load a weight walk' ≤
      load a weight walk + (names.map fun name => weight (resolve path ++ [name])).sum := by
  induction names generalizing walk with
  | nil =>
      cases h
      exact Nat.le_add_right _ _
  | cons name names ih =>
      rw [List.foldlM_cons] at h
      obtain ⟨next, hnext, h⟩ := bind_eq_ok.mp h
      obtain ⟨hfirst, hrest⟩ := List.forall_mem_cons.mp hfile
      have hstep := visitChild_load hnext hfirst
      have hloop := ih h hrest
      rw [List.map_cons, List.sum_cons]
      omega

/-- Each directory that is still to be listed hides a file. -/
theorem length_le_load {weight : List Name → Nat} {pending : List Text}
    (h : ∀ q ∈ pending, 0 < weight (resolve q)) (actual : List Text) :
    actual.length + pending.length ≤ load 1 weight ⟨pending, actual⟩ := by
  rw [load, Nat.one_mul]
  refine Nat.add_le_add_left ?_ _
  induction pending with
  | nil => exact Nat.le_refl 0
  | cons q pending ih =>
      obtain ⟨hfirst, hrest⟩ := List.forall_mem_cons.mp h
      have hloop := ih hrest
      simp only [List.length_cons, List.map_cons, List.sum_cons] at hloop ⊢
      omega

theorem visitChildren_complete {weight : List Name → Nat} {names : List Name}
    (hfine : ∀ name ∈ names, Fine p keys (resolve path) name)
    (hpending : ∀ q ∈ walk.pending, 0 < weight (resolve q))
    (hweight : ∀ name ∈ names, 0 < weight (resolve path ++ [name]))
    (hload : load 1 weight walk + (names.map fun name => weight (resolve path ++ [name])).sum ≤ limit) :
    ∃ walk', names.foldlM (visitChild p keys path (resolve path)) walk = .ok walk' := by
  induction names generalizing walk with
  | nil => exact ⟨walk, rfl⟩
  | cons name names ih =>
      obtain ⟨⟨⟨leaf, rfl⟩, hplain⟩, hfine'⟩ := List.forall_mem_cons.mp hfine
      obtain ⟨hfirst, hweight⟩ := List.forall_mem_cons.mp hweight
      rw [List.map_cons, List.sum_cons] at hload
      have hstep : ∃ next, visitChild p keys path (resolve path) walk (.text leaf) = .ok next ∧
          ∀ q ∈ next.pending, 0 < weight (resolve q) := by
        rcases hplain with ⟨hfind, hhides⟩ | ⟨file, hfind⟩
        · have hnext : ∀ q ∈ (path ++ '/' :: leaf) :: walk.pending, 0 < weight (resolve q) := by
            refine List.forall_mem_cons.mpr ⟨?_, hpending⟩
            rw [resolve_child path (proper_name hfind).1]
            exact hfirst
          refine ⟨⟨_, walk.actual⟩, visitChild_eq_ok.mpr ⟨leaf, rfl, .inl ⟨hfind, hhides, rfl⟩, ?_⟩,
            hnext⟩
          have hlength := length_le_load hnext walk.actual
          rw [load_push hfind] at hlength
          exact hlength.trans (by omega)
        · refine ⟨⟨walk.pending, _⟩, visitChild_eq_ok.mpr ⟨leaf, rfl, .inr ⟨⟨file, hfind⟩, rfl⟩, ?_⟩,
            hpending⟩
          have hlength := length_le_load hpending (walk.actual.insert (path ++ '/' :: leaf))
          have hinsert : load 1 weight ⟨walk.pending, walk.actual.insert (path ++ '/' :: leaf)⟩ ≤ _ :=
            load_insert hfirst
          exact hlength.trans (by omega)
      obtain ⟨next, hnext, hpending'⟩ := hstep
      have hfile : ∀ file, p.tree.find (resolve path ++ [.text leaf]) = some (.file (.regular file)) →
          1 ≤ weight (resolve path ++ [.text leaf]) := fun _ _ => hfirst
      have hloads := visitChild_load hnext hfile
      obtain ⟨walk', hwalk'⟩ := ih hfine' hpending' hweight (by omega)
      exact ⟨walk', by rw [List.foldlM_cons, hnext, ok_bind, hwalk']⟩

theorem visit_eq_ok : visit p keys path walk = .ok walk' ↔
    p.tree.find (resolve path) = some .dir ∧ p.device (resolve path) = p.device [] ∧
      (listed p (resolve path)).foldlM (visitChild p keys path (resolve path)) walk = .ok walk' := by
  simp only [visit, bind_eq_ok, openDirs_eq_ok Tree.find_nil, failIf_eq_ok, not_not, List.nil_append]
  constructor
  · rintro ⟨_, ⟨rfl, hfind⟩, _, hdevice, hwalk⟩
    exact ⟨hfind, hdevice, hwalk⟩
  · rintro ⟨hfind, hdevice, hwalk⟩
    exact ⟨_, ⟨rfl, hfind⟩, (), hdevice, hwalk⟩

theorem mem_listed : name ∈ listed p directory ↔
    ∃ entry, p.tree.find (directory ++ [name]) = some entry := by
  rw [listed, (p.perm _ _).mem_iff, Tree.mem_names]

/-- Below the directory there are only directories that hide a file, and regular files. -/
structure Good (p : Profile) (keys : List Text) (directory : List Name) : Prop where
  real : p.tree.find directory = some .dir
  sameDevice : p.device directory = p.device []
  plain : ∀ rest entry, rest ≠ [] → p.tree.find (directory ++ rest) = some entry →
    (∃ parts : List Text, rest = parts.map Name.text) ∧
      (entry = .dir ∧ p.device (directory ++ rest) = p.device [] ∧ Hides keys (directory ++ rest) ∨
        ∃ file, entry = .file (.regular file))

theorem Good.fine (h : Good p keys directory)
    (hname : name ∈ listed p directory) :
    Fine p keys directory name ∧
      (p.tree.find (directory ++ [name]) = some .dir → Good p keys (directory ++ [name])) := by
  obtain ⟨entry, hfind⟩ := mem_listed.mp hname
  obtain ⟨⟨parts, hparts⟩, hcases⟩ := h.plain [name] entry (List.cons_ne_nil _ _) hfind
  obtain ⟨leaf, -, hleaf⟩ := List.map_eq_singleton_iff.mp hparts.symm
  refine ⟨⟨⟨leaf, hleaf.symm⟩, ?_⟩, fun hdir => ⟨hdir, ?_, fun rest entry hrest hentry => ?_⟩⟩
  · obtain ⟨rfl, -, hhides⟩ | ⟨file, rfl⟩ := hcases
    · exact .inl ⟨hfind, hhides⟩
    · exact .inr ⟨file, hfind⟩
  · obtain ⟨rfl, hdevice, -⟩ | ⟨file, rfl⟩ := hcases
    · exact hdevice
    · cases hfind.symm.trans hdir
  · rw [List.append_assoc] at hentry
    obtain ⟨⟨parts', hparts'⟩, hplain⟩ := h.plain (name :: rest) entry (List.cons_ne_nil _ _) hentry
    obtain ⟨first, parts', rfl, -, hrest'⟩ := List.map_eq_cons_iff.mp hparts'.symm
    rw [List.append_assoc]
    exact ⟨⟨parts', hrest'.symm⟩, hplain⟩

theorem good_of_children (hdirectory : p.tree.find directory = some .dir)
    (hdevice : p.device directory = p.device [])
    (hchildren : ∀ name ∈ listed p directory, Fine p keys directory name ∧
      (p.tree.find (directory ++ [name]) = some .dir → Good p keys (directory ++ [name]))) :
    Good p keys directory := by
  refine ⟨hdirectory, hdevice, fun rest entry hrest hentry => ?_⟩
  obtain ⟨name, rest, rfl⟩ := List.exists_cons_of_ne_nil hrest
  have hsame : directory ++ name :: rest = directory ++ [name] ++ rest := by simp
  cases rest with
  | nil =>
      obtain ⟨⟨⟨leaf, rfl⟩, hplain⟩, hgood⟩ := hchildren name (mem_listed.mpr ⟨entry, hentry⟩)
      refine ⟨⟨[leaf], rfl⟩, ?_⟩
      rcases hplain with ⟨hfind, hhides⟩ | ⟨file, hfind⟩
      · cases hentry.symm.trans hfind
        exact .inl ⟨rfl, (hgood hfind).sameDevice, hhides⟩
      · cases hentry.symm.trans hfind
        exact .inr ⟨file, rfl⟩
  | cons next rest =>
      rw [hsame] at hentry ⊢
      have hdir := Tree.find_prefix (List.cons_ne_nil next rest) hentry
      obtain ⟨⟨⟨leaf, rfl⟩, -⟩, hgood⟩ := hchildren name (mem_listed.mpr ⟨.dir, hdir⟩)
      obtain ⟨⟨parts, hparts⟩, hplain⟩ :=
        (hgood hdir).plain (next :: rest) entry (List.cons_ne_nil _ _) hentry
      exact ⟨⟨leaf :: parts, by rw [List.map_cons, hparts]⟩, hplain⟩

/-- The path leads to a regular file below the directory. -/
def Held (p : Profile) (directory : List Name) (file : Text) : Prop :=
  (∃ rest, rest ≠ [] ∧ resolve file = directory ++ rest) ∧
    ∃ content, p.tree.find (resolve file) = some (.file (.regular content))

theorem Child.resolve {names : List Name} {q : Text} (h : Child p path names q entry) :
    ∃ leaf, .text leaf ∈ names ∧ LegacyFiles.resolve q = LegacyFiles.resolve path ++ [.text leaf] ∧
      p.tree.find (LegacyFiles.resolve q) = some entry := by
  obtain ⟨leaf, hmem, rfl, hfind⟩ := h
  have hchild := resolve_child path (proper_name hfind).1
  exact ⟨leaf, hmem, hchild, by rw [hchild]; exact hfind⟩

theorem held_iff (path q : Text) : Held p (resolve path) q ↔
    (∃ file, Child p path (listed p (resolve path)) q (.file (.regular file))) ∨
      ∃ sub, Child p path (listed p (resolve path)) sub .dir ∧ Held p (resolve sub) q := by
  constructor
  · rintro ⟨⟨rest, hrest, hq⟩, content, hfind⟩
    obtain ⟨name, rest, rfl⟩ := List.exists_cons_of_ne_nil hrest
    obtain ⟨before, after, -, -, hafter⟩ := List.map_eq_append_iff.mp hq
    obtain ⟨leaf, after, rfl, rfl, rfl⟩ := List.map_eq_cons_iff.mp hafter
    rw [hq] at hfind
    cases after with
    | nil =>
        refine .inl ⟨content, leaf, mem_listed.mpr ⟨_, hfind⟩, resolve_inj ?_, hfind⟩
        rw [hq, resolve_child path (proper_name hfind).1]
        rfl
    | cons next after =>
        have hsame : resolve path ++ .text leaf :: (next :: after).map Name.text =
            resolve path ++ [.text leaf] ++ (next :: after).map Name.text := by simp
        rw [hsame] at hfind
        have hdir := Tree.find_prefix (by simp) hfind
        have hchild := resolve_child path (proper_name hdir).1
        refine .inr ⟨path ++ '/' :: leaf, ⟨leaf, mem_listed.mpr ⟨_, hdir⟩, rfl, hdir⟩, ?_⟩
        refine ⟨⟨(next :: after).map Name.text, by simp, ?_⟩, content, ?_⟩
        · rw [hq, hsame, hchild]
        · rw [hq, hsame]
          exact hfind
  · rintro (⟨file, hchild⟩ | ⟨sub, hchild, ⟨rest, hrest, hq⟩, hheld⟩)
    · obtain ⟨leaf, -, hq, hfind⟩ := hchild.resolve
      exact ⟨⟨[.text leaf], List.cons_ne_nil _ _, hq⟩, file, hfind⟩
    · obtain ⟨leaf, -, hsub, -⟩ := hchild.resolve
      refine ⟨⟨.text leaf :: rest, List.cons_ne_nil _ _, ?_⟩, hheld⟩
      rw [hq, hsub, List.append_assoc]
      rfl

theorem resolve_listed {q : Text}
    (h : Child p path (listed p (resolve path)) q entry) :
    ∃ name ∈ listed p (resolve path),
      resolve q = resolve path ++ [name] ∧ p.tree.find (resolve q) = some entry := by
  obtain ⟨leaf, hmem, hq, hfind⟩ := h.resolve
  exact ⟨_, hmem, hq, hfind⟩

/-- What the loop accepts, and what it finds. -/
theorem traverse_ok {fuel : Nat} {found : List Text} (h : traverse p keys fuel walk = .ok found) :
    (∀ q ∈ walk.pending, Good p keys (resolve q)) ∧
    (∀ file, file ∈ found ↔ file ∈ walk.actual ∨ ∃ q ∈ walk.pending, Held p (resolve q) file) ∧
    (walk.actual.Nodup → found.Nodup) := by
  induction fuel generalizing walk with
  | zero =>
      obtain ⟨_ | ⟨path, pending⟩, actual⟩ := walk
      · cases h
        exact ⟨List.forall_mem_nil _, fun file => by simp, id⟩
      · cases h
  | succ fuel ih =>
      obtain ⟨_ | ⟨path, pending⟩, actual⟩ := walk
      · cases h
        exact ⟨List.forall_mem_nil _, fun file => by simp, id⟩
      · obtain ⟨next, hnext, h⟩ := bind_eq_ok.mp h
        obtain ⟨hreal, hdevice, hnext⟩ := visit_eq_ok.mp hnext
        obtain ⟨hfine, hpending, hactual, hnodup⟩ := visitChildren_spec hnext
        obtain ⟨hgood, hfound, hnodup'⟩ := ih h
        refine ⟨List.forall_mem_cons.mpr ⟨?_, fun q hq => hgood q ((hpending q).mpr (.inl hq))⟩,
          fun file => ?_, hnodup' ∘ hnodup⟩
        · refine good_of_children hreal hdevice fun name hname => ⟨hfine name hname, fun hdir => ?_⟩
          obtain ⟨leaf, rfl⟩ := (hfine name hname).decoded
          have hchild := hgood (path ++ '/' :: leaf) ((hpending _).mpr (.inr ⟨leaf, hname, rfl, hdir⟩))
          rwa [resolve_child path (proper_name hdir).1] at hchild
        · rw [hfound, hactual, or_assoc]
          refine or_congr_right ?_
          simp only [List.exists_mem_cons_iff, held_iff path file, or_assoc]
          refine or_congr_right ?_
          constructor
          · rintro ⟨q, hq, hin⟩
            rcases (hpending q).mp hq with hq | hchild
            · exact .inr ⟨q, hq, hin⟩
            · exact .inl ⟨q, hchild, hin⟩
          · rintro (⟨q, hchild, hin⟩ | ⟨q, hq, hin⟩)
            · exact ⟨q, (hpending q).mpr (.inr hchild), hin⟩
            · exact ⟨q, (hpending q).mpr (.inl hq), hin⟩

/-- How many expected paths start with the directory. -/
def expectedUnder (keys : List Text) (directory : List Name) : Nat := under (keys.map resolve) directory

/-- How many entries lie at the directory and below it. -/
def entriesUnder (p : Profile) (directory : List Name) : Nat :=
  under (p.tree.entries.map Prod.fst) directory

theorem sum_listed_le (paths : List (List Name)) (directory : List Name) :
    ((listed p directory).map fun name => under paths (directory ++ [name])).sum +
      paths.count directory ≤ under paths directory :=
  sum_under_le ((p.perm _ _).nodup_iff.mpr Tree.names_nodup)

/-- The entries of a directory are fewer than those at the directory and below it. -/
theorem visit_shrinks {pending actual : List Text}
    (h : visit p keys path ⟨pending, actual⟩ = .ok walk') :
    load 0 (entriesUnder p) walk' < load 0 (entriesUnder p) ⟨path :: pending, actual⟩ := by
  obtain ⟨hreal, -, hwalk⟩ := visit_eq_ok.mp h
  have hload : load 0 (entriesUnder p) walk' ≤ _ :=
    visitChildren_load hwalk fun _ _ _ _ => Nat.zero_le _
  have hmem : (resolve path, FileTree.Entry.dir) ∈ p.tree.entries :=
    (Tree.find_of_ne (resolve_ne_nil path)).mp hreal
  have hcount : 0 < (p.tree.entries.map Prod.fst).count (resolve path) :=
    List.count_pos_iff.mpr (List.mem_map_of_mem hmem)
  have hsum := sum_listed_le (p := p) (p.tree.entries.map Prod.fst) (resolve path)
  simp only [load, entriesUnder, Nat.zero_mul, Nat.zero_add, List.map_cons, List.sum_cons] at hload hsum ⊢
  omega

/-- More fuel than entries changes nothing: the loop ends. -/
theorem traverse_fuel {fuel more : Nat} (hload : load 0 (entriesUnder p) walk < fuel)
    (hmore : fuel ≤ more) : traverse p keys more walk = traverse p keys fuel walk := by
  induction fuel generalizing walk more with
  | zero => exact absurd hload (Nat.not_lt_zero _)
  | succ fuel ih =>
      obtain ⟨more, rfl⟩ := Nat.exists_eq_add_of_le' (Nat.lt_of_lt_of_le (Nat.succ_pos fuel) hmore)
      obtain ⟨_ | ⟨path, pending⟩, actual⟩ := walk
      · rfl
      · rw [traverse, traverse]
        cases hvisit : visit p keys path ⟨pending, actual⟩ with
        | error e => rfl
        | ok next =>
            have hshrinks := visit_shrinks hvisit
            rw [ok_bind, ok_bind]
            exact ih (by omega) (by omega)

theorem start_load (app : Text) (found : List Text) :
    load 0 (entriesUnder p) ⟨[app], found⟩ < enough p := by
  have hcount : entriesUnder p (resolve app) ≤ p.tree.entries.length := by
    rw [← List.length_map Prod.fst]
    exact List.countP_le_length
  simp only [load, List.map_singleton, List.sum_singleton, enough]
  omega

theorem Hides.pos (h : Hides keys directory) : 0 < expectedUnder keys directory := by
  obtain ⟨key, hkey, rest, -, hrest⟩ := h
  have hmem : directory ++ rest ∈ keys.map resolve := List.mem_map.mpr ⟨key, hkey, hrest⟩
  exact under_pos hmem

/-- The budget is not exhausted as long as each directory hides an expected file, and each file is an
expected one. -/
theorem traverse_complete {fuel : Nat} (hgood : ∀ q ∈ walk.pending, Good p keys (resolve q))
    (hhides : ∀ q ∈ walk.pending, Hides keys (resolve q))
    (hheld : ∀ q ∈ walk.pending, ∀ file, Held p (resolve q) file → file ∈ keys)
    (hbudget : load 1 (expectedUnder keys) walk ≤ limit)
    (hfuel : load 0 (entriesUnder p) walk < fuel) : ∃ found, traverse p keys fuel walk = .ok found := by
  induction fuel generalizing walk with
  | zero => exact absurd hfuel (Nat.not_lt_zero _)
  | succ fuel ih =>
      obtain ⟨_ | ⟨path, pending⟩, actual⟩ := walk
      · exact ⟨actual, rfl⟩
      · obtain ⟨hfirst, hgood⟩ := List.forall_mem_cons.mp hgood
        obtain ⟨-, hhides⟩ := List.forall_mem_cons.mp hhides
        obtain ⟨hheldFirst, hheld⟩ := List.forall_mem_cons.mp hheld
        have hpos : ∀ name ∈ listed p (resolve path),
            0 < expectedUnder keys (resolve path ++ [name]) := by
          intro name hname
          obtain ⟨⟨leaf, rfl⟩, ⟨-, hhides⟩ | ⟨content, hfind⟩⟩ := (hfirst.fine hname).1
          · exact hhides.pos
          · have hchild : Child p path (listed p (resolve path))
                (path ++ '/' :: leaf) (.file (.regular content)) := ⟨leaf, hname, rfl, hfind⟩
            have hkey := hheldFirst _ ((held_iff path _).mpr (.inl ⟨content, hchild⟩))
            have hmem := List.mem_map_of_mem (f := resolve) hkey
            rw [resolve_child path (proper_name hfind).1, ← List.append_nil (resolve path ++ _)] at hmem
            exact under_pos hmem
        have hsum := sum_listed_le (p := p) (keys.map resolve) (resolve path)
        have hstart : load 1 (expectedUnder keys) ⟨pending, actual⟩ +
            ((listed p (resolve path)).map fun name =>
              expectedUnder keys (resolve path ++ [name])).sum ≤ limit := by
          refine le_trans ?_ hbudget
          simp only [load, List.map_cons, List.sum_cons]
          simp only [expectedUnder] at hsum ⊢
          omega
        obtain ⟨next, hnext⟩ := visitChildren_complete (fun name hname => (hfirst.fine hname).1)
          (fun q hq => (hhides q hq).pos) hpos hstart
        have hvisit : visit p keys path ⟨pending, actual⟩ = .ok next :=
          visit_eq_ok.mpr ⟨hfirst.real, hfirst.sameDevice, hnext⟩
        obtain ⟨-, hpending, -, -⟩ := visitChildren_spec hnext
        have hload := visitChildren_load hnext fun name hname _ _ => hpos name hname
        have hshrinks := visit_shrinks hvisit
        have hsub : ∀ q, Child p path (listed p (resolve path)) q .dir →
            Good p keys (resolve q) ∧ Hides keys (resolve q) ∧
              ∀ file, Held p (resolve q) file → file ∈ keys := by
          intro q hchild
          obtain ⟨name, hname, hq, hdir⟩ := resolve_listed hchild
          obtain ⟨hfine, hgoodChild⟩ := hfirst.fine hname
          rw [hq] at hdir
          refine ⟨?_, ?_, fun file hfile => hheldFirst file ((held_iff path file).mpr (.inr ⟨q, hchild, hfile⟩))⟩
          · rw [hq]
            exact hgoodChild hdir
          · obtain ⟨-, hhides⟩ | ⟨content, hfind⟩ := hfine.plain
            · rw [hq]
              exact hhides
            · cases hdir.symm.trans hfind
        obtain ⟨found, hfound⟩ := ih
          (fun q hq => ((hpending q).mp hq).elim (hgood q) fun h => (hsub q h).1)
          (fun q hq => ((hpending q).mp hq).elim (hhides q) fun h => (hsub q h).2.1)
          (fun q hq => ((hpending q).mp hq).elim (hheld q) fun h => (hsub q h).2.2)
          (hload.trans hstart) (by omega)
        exact ⟨found, by rw [traverse, hvisit, ok_bind, hfound]⟩

theorem migrationText_eq_ok {value : Json} {key text : String} :
    migrationText value key = .ok text ↔ value.get key = .str text ∧ text ≠ "" := by
  rw [migrationText, orElse_eq_ok, Option.filter_eq_some_iff, decide_eq_true_eq]
  refine and_congr_left fun _ => ?_
  cases value.get key <;> simp [Json.asStr]

/-- The file is the one that the record describes. -/
structure Agrees (c : Crates) (p : Profile) (record : Json) (content : Regular) : Prop where
  size : asU64 (record.get "size") = some content.bytes.length
  single : content.links = 1
  sameDevice : content.device = p.device []
  sha256 : record.get "sha256" = .str (c.sha256 content.bytes)

def sizeOf (record : Json) : Nat := (asU64 (record.get "size")).getD 0

/-- No part of the path is one that is never opened. -/
def Openable (path : Text) : Prop := ∀ part ∈ path.splitOn '/', badPart part = false

/-- The path leads to a regular file that the record describes. -/
def Recorded (c : Crates) (p : Profile) (record : Json) (path : Text) : Prop :=
  ∃ content, p.tree.find (resolve path) = some (.file (.regular content)) ∧ Agrees c p record content

theorem checkFile_eq_ok {total total' : Nat} : checkFile c p files total path = .ok total' ↔
    Openable path ∧ Recorded c p (recordOf files path) path ∧
      total' = total + sizeOf (recordOf files path) ∧ total' ≤ totalLimit := by
  simp only [checkFile, bind_eq_ok, orElse_eq_ok, failIf_eq_ok, openFile_eq_ok, migrationText_eq_ok,
    not_or, not_not, List.nil_append, Nat.not_lt]
  constructor
  · rintro ⟨size, hsize, _, hlimit, content, ⟨-, hparts, hfind⟩, _, ⟨hlinks, hdevice, rfl⟩, sha256,
      ⟨hsha256, -⟩, _, rfl, htotal⟩
    cases htotal
    refine ⟨hparts, ⟨content, hfind, hsize, hlinks, hdevice, hsha256⟩, ?_, hlimit⟩
    rw [sizeOf, hsize, Option.getD_some]
  · rintro ⟨hparts, ⟨content, hfind, hagrees⟩, htotal, hlimit⟩
    rw [sizeOf, hagrees.size, Option.getD_some] at htotal
    subst htotal
    exact ⟨_, hagrees.size, (), hlimit, content, ⟨List.splitOn_ne_nil _ _, hparts, hfind⟩, (),
      ⟨hagrees.single, hagrees.sameDevice, rfl⟩, _, ⟨hagrees.sha256, c.digest _⟩, (), rfl, rfl⟩

theorem checkFiles_isOk {paths : List Text} {total : Nat} (htotal : total ≤ totalLimit) :
    (∃ total', paths.foldlM (checkFile c p files) total = .ok total') ↔
      (∀ path ∈ paths, Openable path ∧ Recorded c p (recordOf files path) path) ∧
        total + (paths.map fun path => sizeOf (recordOf files path)).sum ≤ totalLimit := by
  induction paths generalizing total with
  | nil => simpa [pure, Except.pure] using htotal
  | cons path paths ih =>
      simp only [List.foldlM_cons, bind_eq_ok, List.forall_mem_cons, List.map_cons, List.sum_cons]
      constructor
      · rintro ⟨total', next, hnext, hrest⟩
        obtain ⟨hopen, hrecorded, rfl, hlimit⟩ := checkFile_eq_ok.mp hnext
        obtain ⟨hall, hsum⟩ := (ih hlimit).mp ⟨total', hrest⟩
        exact ⟨⟨⟨hopen, hrecorded⟩, hall⟩, by omega⟩
      · rintro ⟨⟨⟨hopen, hrecorded⟩, hall⟩, hsum⟩
        have hlimit : total + sizeOf (recordOf files path) ≤ totalLimit := by omega
        obtain ⟨total', hrest⟩ := (ih hlimit).mpr ⟨hall, by omega⟩
        exact ⟨total', _, checkFile_eq_ok.mpr ⟨hopen, hrecorded, rfl, hlimit⟩, hrest⟩

/-- All entries below the directory are regular files, and directories with a file below them on the
same device. -/
structure Plain (p : Profile) (directory : List Name) : Prop where
  real : p.tree.find directory = some .dir
  sameDevice : p.device directory = p.device []
  below : ∀ rest entry, rest ≠ [] → p.tree.find (directory ++ rest) = some entry →
    (∃ parts : List Text, rest = parts.map Name.text) ∧
      (entry = .dir ∧ p.device (directory ++ rest) = p.device [] ∧
          (∃ file, Held p (directory ++ rest) file) ∨
        ∃ file, entry = .file (.regular file))

/-- The path lies below the directory. -/
def Within (directory : List Name) (path : Text) : Prop :=
  ∃ rest, rest ≠ [] ∧ resolve path = directory ++ rest

theorem Within.of_append (h : Within (directory ++ rest) path) : Within directory path := by
  obtain ⟨rest', hrest', hpath⟩ := h
  exact ⟨rest ++ rest', by simp [hrest'], by rw [hpath, List.append_assoc]⟩

theorem good_iff_plain (hkeys : ∀ path, Within directory path → (path ∈ keys ↔ Held p directory path)) :
    Good p keys directory ↔ Plain p directory := by
  have hhides (rest : List Name) :
      Hides keys (directory ++ rest) ↔ ∃ file, Held p (directory ++ rest) file := by
    constructor
    · rintro ⟨key, hkey, hwithin⟩
      have hheld := (hkeys key (Within.of_append hwithin)).mp hkey
      exact ⟨key, hwithin, hheld.2⟩
    · rintro ⟨file, hwithin, hfile⟩
      have hkey := (hkeys file (Within.of_append hwithin)).mpr ⟨Within.of_append hwithin, hfile⟩
      exact ⟨file, hkey, hwithin⟩
  constructor
  · rintro ⟨hreal, hdevice, hplain⟩
    refine ⟨hreal, hdevice, fun rest entry hrest hentry => ?_⟩
    rw [← hhides]
    exact hplain rest entry hrest hentry
  · rintro ⟨hreal, hdevice, hbelow⟩
    refine ⟨hreal, hdevice, fun rest entry hrest hentry => ?_⟩
    rw [hhides]
    exact hbelow rest entry hrest hentry

/-- The paths are those of the kinds that the package has. -/
structure Composition (keys : List Text) (lib app : Text) (hasLib hasApp : Bool) : Prop where
  library : hasLib = true ↔ lib ∈ keys
  frontend : hasApp = true ↔ ∃ key ∈ keys, Within (resolve app) key
  only : ∀ key ∈ keys, key = lib ∨ Within (resolve app) key

theorem composed_iff {lib app : Text} {hasLib hasApp : Bool} :
    composed keys lib app hasLib hasApp = true ↔ Composition keys lib app hasLib hasApp := by
  have hlib : hasLib = keys.contains lib ↔ (hasLib = true ↔ lib ∈ keys) := by
    rw [Bool.eq_iff_iff, List.contains_iff_mem]
  have happ : hasApp = hides keys app ↔ (hasApp = true ↔ Hides keys (resolve app)) := by
    rw [Bool.eq_iff_iff, hides_iff]
  rw [composed, Bool.and_eq_true, Bool.and_eq_true, beq_iff_eq, beq_iff_eq, hlib, happ,
    List.all_eq_true]
  simp only [Bool.or_eq_true, beq_iff_eq, starts_iff_resolve]
  exact ⟨fun ⟨⟨hlib, happ⟩, honly⟩ => ⟨hlib, happ, honly⟩, fun ⟨hlib, happ, honly⟩ => ⟨⟨hlib, happ⟩, honly⟩⟩

/-- The lib and what is found below the directory of the app are exactly the expected files. -/
structure Matching (c : Crates) (p : Profile) (files : List (String × Json)) (lib app : Text)
    (hasLib hasApp : Bool) : Prop where
  composition : Composition (keysOf files) lib app hasLib hasApp
  exact : ∀ path, path ∈ keysOf files ↔
    hasLib = true ∧ path = lib ∨ hasApp = true ∧ Held p (resolve app) path
  plain : hasApp = true → Plain p (resolve app)
  recorded : ∀ file ∈ files, Recorded c p file.2 (chars file.1)
  total : (files.map fun file => sizeOf file.2).sum ≤ totalLimit

theorem recordOf_mem (hnodup : (files.map Prod.fst).Nodup) {file : String × Json} (h : file ∈ files) :
    recordOf files (chars file.1) = file.2 := by
  have hname : String.ofList (chars file.1) = file.1 := String.ofList_toList
  rw [recordOf, hname, Json.lookup_of_mem hnodup h]
  rfl

theorem keysOf_nodup (hnodup : (files.map Prod.fst).Nodup) : (keysOf files).Nodup := by
  have hsame : keysOf files = (files.map Prod.fst).map chars := by
    rw [keysOf, List.map_map]
    rfl
  rw [hsame]
  exact hnodup.map fun _ _ h => String.toList_inj.mp h

theorem sum_sizes (hnodup : (files.map Prod.fst).Nodup) {actual : List Text}
    (hperm : actual.Perm (keysOf files)) :
    (actual.map fun path => sizeOf (recordOf files path)).sum =
      (files.map fun file => sizeOf file.2).sum := by
  have hfiles : (keysOf files).map (fun path => sizeOf (recordOf files path)) =
      files.map fun file => sizeOf file.2 := by
    rw [keysOf, List.map_map]
    exact List.map_congr_left fun file hfile => congrArg sizeOf (recordOf_mem hnodup hfile)
  rw [(hperm.map _).sum_nat, hfiles]

theorem libPath_apart (author name : String) : ¬resolve (appPath name) <+: resolve (libPath author name) := by
  have happ : resolve (appPath name) = .text (chars "app") :: resolve (chars name) :=
    resolve_append (chars "app") (chars name)
  have hlib : ∃ rest, resolve (libPath author name) = .text (chars "lib") :: resolve rest := by
    refine ⟨(if isStandardAuthor author then chars "std/" else []) ++ chars name ++ chars ".wasm", ?_⟩
    rw [libPath, List.append_assoc, List.append_assoc]
    rw [List.append_assoc]
    exact resolve_append (chars "lib") _
  obtain ⟨rest, hlib⟩ := hlib
  rw [happ, hlib, List.cons_prefix_cons]
  rintro ⟨hsame, -⟩
  exact absurd (Name.text.inj hsame) (by decide)

theorem Within.isPrefix (h : Within directory path) : directory <+: resolve path := by
  obtain ⟨rest, -, hpath⟩ := h
  exact ⟨rest, hpath.symm⟩

section

variable {lib app : Text} {hasLib hasApp : Bool} {actual : List Text}

theorem gather_nodup (h : gather p keys lib app hasLib hasApp = .ok actual) : actual.Nodup := by
  have hfound : (if hasLib then [lib] else []).Nodup := by
    split
    · exact List.nodup_singleton lib
    · exact List.nodup_nil
  cases hasApp with
  | false =>
      cases h
      exact hfound
  | true => exact (traverse_ok h).2.2 hfound

theorem mem_found : path ∈ (if hasLib then [lib] else []) ↔ hasLib = true ∧ path = lib := by
  cases hasLib <;> simp

/-- The lib and the files of the app are the expected ones if and only if the tree matches. -/
theorem gather_iff (happ : hasApp = true ↔ ∃ key ∈ keys, Within (resolve app) key)
    (hapart : ¬resolve app <+: resolve lib) (hlength : keys.length < limit) :
    (∃ actual, gather p keys lib app hasLib hasApp = .ok actual ∧ actual ⊆ keys ∧ keys ⊆ actual) ↔
      (∀ path, path ∈ keys ↔
        hasLib = true ∧ path = lib ∨ hasApp = true ∧ Held p (resolve app) path) ∧
      (hasApp = true → Plain p (resolve app)) := by
  have hkeys (hexact : ∀ path, path ∈ keys ↔
      hasLib = true ∧ path = lib ∨ hasApp = true ∧ Held p (resolve app) path) (htrue : hasApp = true) :
      ∀ path, Within (resolve app) path → (path ∈ keys ↔ Held p (resolve app) path) := by
    intro path hwithin
    rw [hexact]
    constructor
    · rintro (⟨-, rfl⟩ | ⟨-, hheld⟩)
      · exact absurd hwithin.isPrefix hapart
      · exact hheld
    · exact fun hheld => .inr ⟨htrue, hheld⟩
  cases hasApp with
  | false =>
      simp only [gather, Bool.false_eq_true, if_false, false_and, or_false, false_imp_iff, and_true,
        Except.ok.injEq, exists_eq_left']
      constructor
      · rintro ⟨hsub, hsuper⟩ path
        rw [← mem_found]
        exact ⟨fun h => hsuper h, fun h => hsub h⟩
      · intro hexact
        exact ⟨fun path h => (hexact path).mpr (mem_found.mp h),
          fun path h => mem_found.mpr ((hexact path).mp h)⟩
  | true =>
      obtain ⟨key, hkey, hwithin⟩ := happ.mp rfl
      have hgather : gather p keys lib app hasLib true =
          traverse p keys (enough p) ⟨[app], if hasLib then [lib] else []⟩ := rfl
      rw [hgather]
      constructor
      · rintro ⟨actual, hfound, hsub, hsuper⟩
        obtain ⟨hgood, hmem, -⟩ := traverse_ok hfound
        have hexact : ∀ path, path ∈ keys ↔
            hasLib = true ∧ path = lib ∨ true = true ∧ Held p (resolve app) path := by
          intro path
          have hactual : path ∈ keys ↔ path ∈ actual := ⟨fun h => hsuper h, fun h => hsub h⟩
          rw [hactual, hmem, mem_found]
          simp
        refine ⟨hexact, fun _ => (good_iff_plain (hkeys hexact rfl)).mp ?_⟩
        exact hgood app (List.mem_singleton_self app)
      · rintro ⟨hexact, hplain⟩
        have hgood := (good_iff_plain (hkeys hexact rfl)).mpr (hplain rfl)
        have hheld : ∀ file, Held p (resolve app) file → file ∈ keys := fun file h =>
          (hexact file).mpr (.inr ⟨rfl, h⟩)
        have hbudget : load 1 (expectedUnder keys) ⟨[app], if hasLib then [lib] else []⟩ ≤ limit := by
          have hcount : expectedUnder keys (resolve app) ≤ keys.length := by
            rw [← List.length_map resolve]
            exact List.countP_le_length
          have hfound : (if hasLib then [lib] else []).length ≤ 1 := by
            cases hasLib <;> simp
          simp only [load, List.map_singleton, List.sum_singleton]
          omega
        have hone {P : Text → Prop} (h : P app) : ∀ q ∈ [app], P q := List.forall_mem_singleton.mpr h
        have hhides : Hides keys (resolve app) := ⟨key, hkey, hwithin⟩
        obtain ⟨actual, hactual⟩ := traverse_complete (hone hgood) (hone hhides) (hone hheld)
          hbudget (start_load app _)
        obtain ⟨-, hmem, -⟩ := traverse_ok hactual
        have hsame : ∀ path, path ∈ actual ↔ path ∈ keys := by
          intro path
          rw [hmem, hexact, mem_found]
          simp
        exact ⟨actual, hactual, fun path h => (hsame path).mp h, fun path h => (hsame path).mpr h⟩

end

/-- The names of an entry, and the files that it expects. -/
structure Described (c : Crates) (entry : Json) (name author : String)
    (files : List (String × Json)) : Prop where
  hasName : migrationText entry "name" = .ok name
  hasAuthor : migrationText entry "author" = .ok author
  valid : validId c.normalizeName ⟨some author, name⟩ = .ok ()
  hasFiles : entry.get "files" = .obj files
  nonempty : files ≠ []
  few : files.length ≤ 4096

/-- No part of the path has a backslash. -/
def Unescaped (path : Text) : Prop := ∀ part ∈ path.splitOn '/', '\\' ∉ part

theorem openable_iff (hfind : p.tree.find (resolve path) = some entry) :
    Openable path ↔ Unescaped path := by
  refine forall₂_congr fun part hpart => ?_
  have hmem : Name.text part ∈ resolve path := List.mem_map_of_mem hpart
  have hproper := (proper_of_find (resolve_ne_nil path) hfind hmem).2
  rw [badPart, Bool.or_eq_false_iff, ← Bool.not_eq_true, List.contains_iff_mem, ← Bool.not_eq_true,
    List.contains_iff_mem]
  exact and_iff_right hproper

theorem filesOf_eq_some {entry : Json} : (Component.fieldsOf (entry.get "files")).filter
      (fun files => !files.isEmpty && files.length ≤ 4096) = some files ↔
    entry.get "files" = .obj files ∧ files ≠ [] ∧ files.length ≤ 4096 := by
  rw [Option.filter_eq_some_iff, Bool.and_eq_true, Bool.not_eq_true', List.isEmpty_eq_false_iff,
    decide_eq_true_eq]
  refine and_congr_left fun _ => ?_
  cases entry.get "files" <;> simp [Component.fieldsOf]

theorem recorded_iff (hnodup : (files.map Prod.fst).Nodup) {actual : List Text}
    (hperm : actual.Perm (keysOf files)) :
    (∀ path ∈ actual, Openable path ∧ Recorded c p (recordOf files path) path) ↔
      (∀ file ∈ files, Recorded c p file.2 (chars file.1)) ∧ ∀ key ∈ keysOf files, Unescaped key := by
  have hmem : ∀ path, path ∈ actual ↔ ∃ file ∈ files, chars file.1 = path := fun path => by
    rw [hperm.mem_iff, keysOf, List.mem_map]
  constructor
  · intro hall
    have hfile : ∀ file ∈ files, Openable (chars file.1) ∧ Recorded c p file.2 (chars file.1) := by
      intro file hfile
      have hpath := hall _ ((hmem _).mpr ⟨file, hfile, rfl⟩)
      rwa [recordOf_mem hnodup hfile] at hpath
    refine ⟨fun file h => (hfile file h).2, fun key hkey => ?_⟩
    obtain ⟨file, h, rfl⟩ := List.mem_map.mp hkey
    obtain ⟨hopen, content, hfind, -⟩ := hfile file h
    exact (openable_iff hfind).mp hopen
  · rintro ⟨hrecorded, hunescaped⟩ path hpath
    obtain ⟨file, hfile, rfl⟩ := (hmem path).mp hpath
    rw [recordOf_mem hnodup hfile]
    obtain ⟨content, hfind, hagrees⟩ := hrecorded file hfile
    exact ⟨(openable_iff hfind).mpr (hunescaped _ (List.mem_map_of_mem hfile)), content, hfind, hagrees⟩

theorem verifyLegacyFiles_iff {entry : Json} {hasLib hasApp : Bool} (hkeyed : entry.keyed = true) :
    verifyLegacyFiles c p entry hasLib hasApp = .ok () ↔ ∃ name author files,
      Described c entry name author files ∧
      Matching c p files (libPath author name) (appPath name) hasLib hasApp ∧
      ∀ key ∈ keysOf files, Unescaped key := by
  have hunfold : verifyLegacyFiles c p entry hasLib hasApp = .ok () ↔ ∃ name author files,
      Described c entry name author files ∧
      Composition (keysOf files) (libPath author name) (appPath name) hasLib hasApp ∧
      ∃ actual, gather p (keysOf files) (libPath author name) (appPath name) hasLib hasApp = .ok actual ∧
        (actual ⊆ keysOf files ∧ keysOf files ⊆ actual) ∧
        ∃ total, (actual.insertionSort textOrder).foldlM (checkFile c p files) 0 = .ok total := by
    simp only [verifyLegacyFiles, bind_eq_ok, failIf_eq_ok, not_not, Bool.not_eq_false, composed_iff,
      orElse_eq_ok, filesOf_eq_some]
    constructor
    · rintro ⟨name, hname, author, hauthor, _, hid, files, ⟨hfiles, hsome, hfew⟩, _, hcomposed, actual,
        hactual, _, hsame, total, htotal, -⟩
      exact ⟨name, author, files, ⟨hname, hauthor, hid, hfiles, hsome, hfew⟩, hcomposed, actual, hactual,
        hsame, total, htotal⟩
    · rintro ⟨name, author, files, ⟨hname, hauthor, hid, hfiles, hsome, hfew⟩, hcomposed, actual, hactual,
        hsame, total, htotal⟩
      exact ⟨name, hname, author, hauthor, (), hid, files, ⟨hfiles, hsome, hfew⟩, (), hcomposed, actual,
        hactual, (), hsame, total, htotal, trivial⟩
  rw [hunfold]
  refine exists_congr fun name => exists_congr fun author => exists_congr fun files =>
    and_congr_right fun hdescribed => ?_
  have hnodup : (files.map Prod.fst).Nodup :=
    Json.nodup_of_keyed (Json.keyed_get hkeyed hdescribed.hasFiles)
  have hlength : (keysOf files).length < limit := by
    have hfew := hdescribed.few
    rw [keysOf, List.length_map, limit]
    omega
  have hperm {actual : List Text}
      (h : gather p (keysOf files) (libPath author name) (appPath name) hasLib hasApp = .ok actual)
      (hsame : actual ⊆ keysOf files ∧ keysOf files ⊆ actual) : actual.Perm (keysOf files) :=
    (List.perm_ext_iff_of_nodup (gather_nodup h) (keysOf_nodup hnodup)).mpr fun path =>
      ⟨fun h => hsame.1 h, fun h => hsame.2 h⟩
  have hchecked {actual : List Text} (h : actual.Perm (keysOf files)) :
      (∃ total, (actual.insertionSort textOrder).foldlM (checkFile c p files) 0 = .ok total) ↔
        ((∀ file ∈ files, Recorded c p file.2 (chars file.1)) ∧ ∀ key ∈ keysOf files, Unescaped key) ∧
          (files.map fun file => sizeOf file.2).sum ≤ totalLimit := by
    have hsorted := (List.perm_insertionSort textOrder actual).trans h
    rw [checkFiles_isOk (Nat.zero_le _), recorded_iff hnodup hsorted, Nat.zero_add,
      sum_sizes hnodup hsorted]
  constructor
  · rintro ⟨hcomposition, actual, hactual, hsame, htotal⟩
    obtain ⟨⟨hrecorded, hunescaped⟩, htotal⟩ := (hchecked (hperm hactual hsame)).mp htotal
    obtain ⟨hexact, hplain⟩ := (gather_iff hcomposition.frontend (libPath_apart author name) hlength).mp
      ⟨actual, hactual, hsame⟩
    exact ⟨⟨hcomposition, hexact, hplain, hrecorded, htotal⟩, hunescaped⟩
  · rintro ⟨hmatching, hunescaped⟩
    obtain ⟨actual, hactual, hsame⟩ := (gather_iff hmatching.composition.frontend
      (libPath_apart author name) hlength).mpr ⟨hmatching.exact, hmatching.plain⟩
    exact ⟨hmatching.composition, actual, hactual, hsame, (hchecked (hperm hactual hsame)).mpr
      ⟨⟨hmatching.recorded, hunescaped⟩, hmatching.total⟩⟩

end

/-- The files of an entry are accepted exactly if the tree has them and nothing else, and no path has
a backslash; and the traversal ends. -/
theorem legacy_files_exact {c : Crates} {p : Profile} {entry : Json} {hasLib hasApp : Bool}
    (hkeyed : entry.keyed = true) :
    (verifyLegacyFiles c p entry hasLib hasApp = .ok () ↔ ∃ name author files,
      Described c entry name author files ∧
      Matching c p files (libPath author name) (appPath name) hasLib hasApp ∧
      ∀ key ∈ keysOf files, Unescaped key) ∧
    ∀ keys app found more, enough p ≤ more →
      traverse p keys more ⟨[app], found⟩ = traverse p keys (enough p) ⟨[app], found⟩ :=
  ⟨verifyLegacyFiles_iff hkeyed, fun _ app found _ => traverse_fuel (start_load app found)⟩

/-- The frontend of a package, with one file. -/
def sampleProfile (leaf : Text) (h : '/' ∉ leaf ∧ leaf ∉ [[], chars ".", chars ".."]) : Profile where
  tree :=
    { entries := [([.text (chars "app")], .dir), ([.text (chars "app"), .text (chars "page")], .dir),
        ([.text (chars "app"), .text (chars "page"), .text leaf], .file (.regular ⟨0, 1, [65]⟩))]
      nodup := by simp
      parents := by
        simp only [List.forall_mem_cons, List.not_mem_nil, false_imp_iff, implies_true, and_true]
        exact ⟨⟨[], _, rfl, .inl rfl⟩, ⟨[.text (chars "app")], _, rfl, .inr (by simp)⟩,
          ⟨[.text (chars "app"), .text (chars "page")], _, rfl, .inr (by simp)⟩⟩ }
  device _ := 0
  order _ names := names
  perm _ _ := .refl _
  proper := by
    intro e he text htext
    have hcases : text = chars "app" ∨ text = chars "page" ∨ text = leaf := by
      simp only [List.mem_cons, List.not_mem_nil, or_false] at he
      obtain rfl | rfl | rfl := he <;> simp only [List.mem_cons, List.not_mem_nil, or_false,
        Name.text.injEq] at htext <;> tauto
    obtain rfl | rfl | rfl := hcases
    · decide
    · decide
    · exact h

def sampleCrates : Crates where
  normalizeName := some
  sha256 _ := "00"
  digest _ := by decide

def sampleFiles (path : String) : List (String × Json) :=
  [(path, .obj [("size", .int 1), ("sha256", .str "00")])]

def sampleEntry (path : String) : Json :=
  .obj [("name", .str "page"), ("author", .str "alice.example"), ("files", .obj (sampleFiles path))]

/-- The page of an app is the file that is expected. -/
theorem legacy_files_exact_page : ∃ name author files,
    Described sampleCrates (sampleEntry "app/page/index.html") name author files ∧
      Matching sampleCrates (sampleProfile (chars "index.html") (by decide)) files
        (libPath author name) (appPath name) false true := by
  have hverified : verifyLegacyFiles sampleCrates (sampleProfile (chars "index.html") (by decide))
      (sampleEntry "app/page/index.html") false true = .ok () := by rfl
  obtain ⟨name, author, files, hdescribed, hmatching, -⟩ :=
    (legacy_files_exact (by decide)).1.mp hverified
  exact ⟨name, author, files, hdescribed, hmatching⟩

/-- A file with a backslash in its name is found, but never opened. -/
theorem backslash_rejected :
    Described sampleCrates (sampleEntry "app/page/a\\b") "page" "alice.example"
      (sampleFiles "app/page/a\\b") ∧
    Matching sampleCrates (sampleProfile (chars "a\\b") (by decide)) (sampleFiles "app/page/a\\b")
      (libPath "alice.example" "page") (appPath "page") false true ∧
    verifyLegacyFiles sampleCrates (sampleProfile (chars "a\\b") (by decide))
      (sampleEntry "app/page/a\\b") false true = .error expandedError := by
  have hcomposition : Composition (keysOf (sampleFiles "app/page/a\\b"))
      (libPath "alice.example" "page") (appPath "page") false true := composed_iff.mp (by rfl)
  have hgather : gather (sampleProfile (chars "a\\b") (by decide)) (keysOf (sampleFiles "app/page/a\\b"))
      (libPath "alice.example" "page") (appPath "page") false true = .ok [chars "app/page/a\\b"] := by
    rfl
  obtain ⟨hexact, hplain⟩ := (gather_iff hcomposition.frontend (libPath_apart "alice.example" "page")
    (by decide)).mp ⟨_, hgather, List.Subset.refl _, List.Subset.refl _⟩
  have hrecorded : ∀ file ∈ sampleFiles "app/page/a\\b", Recorded sampleCrates
      (sampleProfile (chars "a\\b") (by decide)) file.2 (chars file.1) :=
    List.forall_mem_singleton.mpr ⟨⟨0, 1, [65]⟩, by rfl, ⟨by rfl, rfl, rfl, by rfl⟩⟩
  exact ⟨⟨by rfl, by rfl, by rfl, by rfl, List.cons_ne_nil _ _, by decide⟩,
    ⟨hcomposition, hexact, hplain, hrecorded, by decide⟩, by rfl⟩

end Pishoo.LegacyFiles
