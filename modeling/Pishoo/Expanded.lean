import Pishoo.FileTree
import Pishoo.RouteAgreement
import Pishoo.WazAccounting

namespace Pishoo.Expanded

open Result PathText Authorization Publication Component RouteAgreement FileTree WazAccounting

abbrev Tree : Type := FileTree.Tree Text Bytes

def expandedError : Error := .invalidComponent "invalid or modified expanded package"

def layoutError : FileTree.Fault → Error
  | .notFound => .io "No such file or directory"
  | .alreadyExists => .io "File exists"
  | .notDirectory => .invalidInput "resource layout must contain real directories and regular files"

/-- The names that the journal and the backup of a transaction have. -/
def recoveryNames : List Text := [chars ".transaction.json", chars ".previous"]

def isRecovery (name : Text) : Bool := recoveryNames.contains name

def publicPart (path : String) : Option Text := strip (chars "public/") (chars path)

def writeComponent (t : Tree) (parent : List Text) (name : Text) (bytes : Bytes) : Except Error Tree :=
  (t.create parent name (.file bytes)).mapError layoutError

/-- `mkdirat`, for which a directory that is there already is no error. -/
def makeDir (t : Tree) (parent : List Text) (name : Text) : Except Error Tree :=
  match t.create parent name .dir with
  | .ok t => .ok t
  | .error .alreadyExists => .ok t
  | .error fault => .error (layoutError fault)

def childDir (t : Tree) (parent : List Text) (name : Text) : Except Error (List Text) :=
  (t.openDir parent name).mapError layoutError

def writeFile (t : Tree) (data : Bytes) (parent : List Text) : List Text → Except Error Tree
  | [] => .ok t
  | [name] => writeComponent t parent name data
  | name :: next :: rest => do
      let t ← makeDir t parent name
      let child ← childDir t parent name
      writeFile t data child (next :: rest)

def writeAppFile (t : Tree) (file : String × Bytes) : Except Error Tree :=
  match publicPart file.1 with
  | none => .ok t
  | some relative => do
      failIf ((relative.splitOn '/').head?.any isRecovery = true)
        (.invalidComponent "reserved recovery path in App")
      writeFile t file.2 [] (relative.splitOn '/')

def componentName (id : Id) : Text := chars id.name ++ chars ".wasm"

/-- What an installation writes into the new directory of a package. -/
def writeExpanded (files : Files) (id : Id) : Kind → Except Error Tree
  | .lib => do
      let backend ← orElse (files.lookup "backend.wasm") expandedError
      writeComponent .empty [] (componentName id) backend
  | .app => files.foldlM writeAppFile .empty

/-- The parts that never lead to a file. -/
def badPart (part : Text) : Bool := [[], chars ".", chars ".."].contains part || part.contains '\\'

def openFile (t : Tree) (parent : List Text) : List Text → Except Error Bytes
  | [] => .error expandedError
  | [name] => do
      failIf (badPart name = true) expandedError
      match t.find (parent ++ [name]) with
      | some (.file content) => .ok content
      | some .dir => .error expandedError
      | none => .error (layoutError .notFound)
  | name :: next :: rest => do
      failIf (badPart name = true) expandedError
      let child ← childDir t parent name
      openFile t child (next :: rest)

def expandedFile (t : Tree) (parent : List Text) (path : Text) : Except Error Bytes :=
  openFile t parent (path.splitOn '/')

def readRuntimeWasm (content : Bytes) : Except Error Bytes := do
  failIf (Waz.limit < content.length) (.invalidComponent "component exceeds 64 MiB")
  .ok content

/-- The order in which a directory lists its names, which may be any. -/
structure Readdir where
  order : List Text → List Text → List Text
  perm : ∀ path names, (order path names).Perm names

/-- A directory that is still to be listed, with what the paths in it start with. -/
structure Pending where
  directory : List Text
  start : Text
  depth : Nat

structure Walk where
  pending : List Pending
  files : Files
  count : Nat

def scanEntry (t : Tree) (p : Pending) (scan : Walk) (name : Text) : Except Error Walk := do
  let scan := { scan with count := scan.count + 1 }
  failIf (10000 < scan.count) expandedError
  if isRecovery name then .ok scan
  else
    let path := p.start ++ name
    match t.find (p.directory ++ [name]) with
    | some .dir => do
        let child ← childDir t p.directory name
        .ok { scan with pending := ⟨child, path ++ ['/'], p.depth + 1⟩ :: scan.pending }
    | some (.file _) =>
        .ok { scan with
          files := scan.files.orderedInsert Waz.named (String.ofList (chars "public/" ++ path), []) }
    | none => .error expandedError

def scanDirectories (d : Readdir) (t : Tree) : Nat → Walk → Except Error Files
  | _, ⟨[], files, _⟩ => .ok files
  | 0, _ => .error expandedError
  | fuel + 1, ⟨p :: pending, files, count⟩ => do
      failIf (32 < p.depth) expandedError
      let scan ← (d.order p.directory (t.names p.directory)).foldlM (scanEntry t p)
        ⟨pending, files, count⟩
      scanDirectories d t fuel scan

/-- Each directory is listed once, so the entries bound the loop. -/
def scanTree (d : Readdir) (t : Tree) : Except Error Files :=
  scanDirectories d t (t.entries.length + 1) ⟨[⟨[], [], 0⟩], [], 0⟩

def installedRoutes (o : Parser) (d : Readdir) (t : Tree) (id : Id) :
    Kind → Except Error (List (Text × List String))
  | .lib => do
      let content ← expandedFile t [] (componentName id)
      let backend ← readRuntimeWasm content
      packageRoutes o [("backend.wasm", backend)] id .lib
  | .app => do
      let files ← scanTree d t
      packageRoutes o files id .app

/-- The map that routes make: a later one takes the place of an earlier one. -/
def routeMap (routes : List (Text × List String)) (path : Text) : Option (List String) :=
  routes.reverse.lookup path

section

variable {t t' : Tree} {parent parts path : List Text} {name : Text} {data : Bytes}

theorem slash_not_mem_part {text part : Text} (h : part ∈ text.splitOn '/') : '/' ∉ part := by
  induction text generalizing part with
  | nil =>
      obtain rfl : part = [] := by simpa using h
      exact List.not_mem_nil
  | cons c text ih =>
      rw [List.splitOn_cons_eq_if_modifyHead] at h
      split at h
      · obtain rfl | h := List.mem_cons.mp h
        · exact List.not_mem_nil
        · exact ih h
      · rename_i hc
        obtain ⟨first, rest, hsplit⟩ := List.exists_cons_of_ne_nil (List.splitOn_ne_nil '/' text)
        rw [hsplit, List.modifyHead_cons, List.mem_cons] at h
        obtain rfl | h := h
        · have hfirst := ih (hsplit ▸ List.mem_cons_self)
          simp only [beq_iff_eq] at hc
          simp [hfirst, Ne.symm hc]
        · exact ih (hsplit ▸ List.mem_cons_of_mem _ h)

theorem mem_of_mem_part {text part : Text} {c : Char} (h : part ∈ text.splitOn '/') (hc : c ∈ part) :
    c ∈ text := by
  induction text generalizing part with
  | nil =>
      obtain rfl : part = [] := by simpa using h
      exact hc
  | cons first text ih =>
      rw [List.splitOn_cons_eq_if_modifyHead] at h
      split at h
      · obtain rfl | h := List.mem_cons.mp h
        · cases hc
        · exact List.mem_cons_of_mem _ (ih h hc)
      · obtain ⟨head, rest, hsplit⟩ := List.exists_cons_of_ne_nil (List.splitOn_ne_nil '/' text)
        rw [hsplit, List.modifyHead_cons, List.mem_cons] at h
        obtain rfl | h := h
        · obtain rfl | hc := List.mem_cons.mp hc
          · exact List.mem_cons_self
          · exact List.mem_cons_of_mem _ (ih (hsplit ▸ List.mem_cons_self) hc)
        · exact List.mem_cons_of_mem _ (ih (hsplit ▸ List.mem_cons_of_mem _ h) hc)

/-- A directory on the way to a file. -/
def OnTheWay (parent parts path : List Text) : Prop :=
  ∃ way rest, parts = way ++ rest ∧ rest ≠ [] ∧ path = parent ++ way

/-- The tree has one more file, and the directories on the way to it. -/
structure Written (t : Tree) (parent parts : List Text) (data : Bytes) (t' : Tree) : Prop where
  file : ∀ path content, t'.find path = some (.file content) ↔
    t.find path = some (.file content) ∨ path = parent ++ parts ∧ content = data
  dir : ∀ path, t'.find path = some .dir ↔ t.find path = some .dir ∨ OnTheWay parent parts path

theorem writeComponent_spec (h : writeComponent t parent name data = .ok t') :
    Written t parent [name] data t' := by
  obtain ⟨hparent, hfresh, hfind⟩ := Tree.create_spec (mapError_eq_ok.mp h)
  refine ⟨fun path content => ?_, fun path => ?_⟩
  · rw [hfind]
    split
    · rename_i hpath
      subst hpath
      simp [hfresh, eq_comm]
    · rename_i hpath
      simp [hpath]
  · rw [hfind]
    constructor
    · split
      · rintro ⟨⟩
      · exact .inl
    · rintro (h | ⟨way, rest, hparts, hrest, rfl⟩)
      · split
        · rename_i hpath
          rw [← hpath, h] at hfresh
          cases hfresh
        · exact h
      · have hway : way = [] := by
          cases way with
          | nil => rfl
          | cons first way =>
              have hlength := congrArg List.length hparts
              have hpos := List.length_pos_of_ne_nil hrest
              simp only [List.length_cons, List.length_append, List.length_nil] at hlength
              omega
        rw [hway, List.append_nil, if_neg (by simp)]
        exact hparent

theorem makeDir_spec (h : makeDir t parent name = .ok t')
    (hdir : t'.find (parent ++ [name]) = some .dir) (path : List Text) (entry : FileTree.Entry Bytes) :
    t'.find path = some entry ↔ t.find path = some entry ∨ path = parent ++ [name] ∧ entry = .dir := by
  unfold makeDir at h
  split at h
  · rename_i created hcreate
    cases h
    obtain ⟨-, hfresh, hfind⟩ := Tree.create_spec hcreate
    rw [hfind]
    split
    · rename_i hpath
      subst hpath
      simp [hfresh, eq_comm]
    · rename_i hpath
      simp [hpath]
  · cases h
    constructor
    · exact .inl
    · rintro (h | ⟨rfl, rfl⟩)
      · exact h
      · exact hdir
  · cases h

theorem childDir_eq_ok {child : List Text} (h : childDir t parent name = .ok child) :
    t.find (parent ++ [name]) = some .dir ∧ child = parent ++ [name] :=
  Tree.openDir_eq_ok.mp (mapError_eq_ok.mp h)

theorem onTheWay_cons {rest : List Text} (hrest : rest ≠ []) : OnTheWay parent (name :: rest) path ↔
    path = parent ∨ OnTheWay (parent ++ [name]) rest path := by
  constructor
  · rintro ⟨_ | ⟨_, way⟩, rest', hparts, hrest', rfl⟩
    · exact .inl (List.append_nil _)
    · obtain ⟨rfl, rfl⟩ := List.cons.inj hparts
      exact .inr ⟨way, rest', rfl, hrest', by simp⟩
  · rintro (rfl | ⟨way, rest', rfl, hrest', rfl⟩)
    · exact ⟨[], name :: rest, rfl, by simp, by simp⟩
    · exact ⟨name :: way, rest', rfl, hrest', by simp⟩

theorem writeFile_spec (h : writeFile t data parent parts = .ok t') (hparts : parts ≠ [])
    (hparent : t.find parent = some .dir) : Written t parent parts data t' := by
  induction parts generalizing t parent with
  | nil => exact absurd rfl hparts
  | cons name parts ih =>
      cases parts with
      | nil => exact writeComponent_spec h
      | cons next rest =>
          obtain ⟨made, hmake, h⟩ := bind_eq_ok.mp h
          obtain ⟨child, hchild, h⟩ := bind_eq_ok.mp h
          obtain ⟨hdir, rfl⟩ := childDir_eq_ok hchild
          have hmade := makeDir_spec hmake hdir
          have hwritten := ih h (by simp) hdir
          refine ⟨fun path content => ?_, fun path => ?_⟩
          · rw [hwritten.file, hmade]
            simp
          · rw [hwritten.dir, hmade, @onTheWay_cons parent path name (next :: rest) (by simp)]
            constructor
            · rintro ((h | ⟨rfl, -⟩) | h)
              · exact .inl h
              · exact .inr (.inr ⟨[], next :: rest, rfl, by simp, by simp⟩)
              · exact .inr (.inr h)
            · rintro (h | rfl | h)
              · exact .inl (.inl h)
              · exact .inl (.inl hparent)
              · exact .inr h

/-- A file with the path below `public` that it has. -/
def Public (files : Files) (relative : Text) (content : Bytes) : Prop :=
  ∃ file ∈ files, publicPart file.1 = some relative ∧ content = file.2

/-- The tree has these files more, and the directories on the way to them. -/
structure AllWritten (t : Tree) (files : Files) (t' : Tree) : Prop where
  file : ∀ path content, t'.find path = some (.file content) ↔ t.find path = some (.file content) ∨
    ∃ relative, Public files relative content ∧ path = relative.splitOn '/'
  dir : ∀ path, t'.find path = some .dir ↔ t.find path = some .dir ∨
    ∃ relative content, Public files relative content ∧ OnTheWay [] (relative.splitOn '/') path
  first : ∀ relative content, Public files relative content →
    (relative.splitOn '/').head?.any isRecovery = false

theorem public_cons {file : String × Bytes} {files : Files} {relative : Text} {content : Bytes} :
    Public (file :: files) relative content ↔
      publicPart file.1 = some relative ∧ content = file.2 ∨ Public files relative content := by
  simp [Public, List.mem_cons]

theorem writeAppFile_spec {file : String × Bytes} (h : writeAppFile t file = .ok t') :
    AllWritten t [file] t' := by
  unfold writeAppFile at h
  split at h
  · rename_i hnone
    cases h
    have hnot : ∀ relative content, ¬Public [file] relative content := by
      rintro relative content ⟨file', hfile, hpublic, -⟩
      obtain rfl := List.mem_singleton.mp hfile
      rw [hnone] at hpublic
      cases hpublic
    exact ⟨fun path content => by simp [hnot], fun path => by simp [hnot],
      fun relative content hpublic => absurd hpublic (hnot relative content)⟩
  · rename_i relative hrelative
    obtain ⟨_, hfirst, h⟩ := bind_eq_ok.mp h
    have hwritten := writeFile_spec h (List.splitOn_ne_nil _ _) Tree.find_nil
    have hpublic : ∀ relative' content, Public [file] relative' content ↔
        relative' = relative ∧ content = file.2 := by
      intro relative' content
      rw [public_cons, hrelative]
      simp [Public, eq_comm]
    refine ⟨fun path content => ?_, fun path => ?_, fun relative' content h => ?_⟩
    · rw [hwritten.file]
      simp [hpublic, and_comm]
    · rw [hwritten.dir]
      simp [hpublic]
    · obtain ⟨rfl, -⟩ := (hpublic _ _).mp h
      simpa using hfirst

theorem AllWritten.trans {t'' : Tree} {file : String × Bytes} {files : Files}
    (h : AllWritten t [file] t') (h' : AllWritten t' files t'') : AllWritten t (file :: files) t'' := by
  have hpublic : ∀ relative content, Public (file :: files) relative content ↔
      Public [file] relative content ∨ Public files relative content := by
    intro relative content
    rw [public_cons, public_cons]
    simp [Public]
  refine ⟨fun path content => ?_, fun path => ?_, fun relative content hrelative => ?_⟩
  · rw [h'.file, h.file]
    simp only [hpublic, or_and_right, exists_or, or_assoc]
  · rw [h'.dir, h.dir]
    simp only [hpublic, or_and_right, exists_or, or_assoc]
  · obtain hfirst | hrest := (hpublic _ _).mp hrelative
    · exact h.first _ _ hfirst
    · exact h'.first _ _ hrest

theorem writeApp_spec {files : Files} (h : files.foldlM writeAppFile t = .ok t') :
    AllWritten t files t' := by
  induction files generalizing t with
  | nil =>
      cases h
      have hnot : ∀ relative content, ¬Public [] relative content := by
        rintro relative content ⟨_, ⟨⟩, _⟩
      exact ⟨fun path content => by simp [hnot], fun path => by simp [hnot],
        fun relative content hpublic => absurd hpublic (hnot relative content)⟩
  | cons file files ih =>
      rw [List.foldlM_cons] at h
      obtain ⟨next, hnext, h⟩ := bind_eq_ok.mp h
      exact (writeAppFile_spec hnext).trans (ih h)

end

end Pishoo.Expanded
