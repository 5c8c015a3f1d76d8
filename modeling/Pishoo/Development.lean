import Pishoo.AppAuthorization
import Pishoo.Forwarding
import Pishoo.Json
import Pishoo.Machine
import Pishoo.Publication

namespace Pishoo.Development

open Result Machine PathText Authorization Router Forwarding

/-- What `same_file` compares. -/
structure Stamp where
  dev : Nat
  ino : Nat
  size : Nat
  mtime : Int
  mtimeNsec : Int
  ctime : Int
  ctimeNsec : Int
  deriving DecidableEq

structure Metadata extends Stamp where
  uid : Nat
  mode : Nat
  isDir : Bool
  isFile : Bool

def sameFile (left right : Metadata) : Bool := left.toStamp == right.toStamp

/-- The files during one request: the identity's directory, what is opened below `dev` without
following links and what is read there, the metadata of the component after it has been read, and how
the preparation of the data directories ends. -/
structure Files where
  owner : Metadata
  opened : List Text → Option Metadata
  bytes : List Text → Bytes
  after : Metadata
  prepared : Except Nat Unit

/-- What is relied on of the crates. `compile` is the rest of `Lib::load`. -/
structure Crates (γ : Type) where
  parse : Bytes → Option Json
  normalizeName : String → Option String
  compile : Id → Bytes → Except Nat γ

def internal : Nat := 500

/-- `mode & 0o022`. -/
def writable (m : Metadata) : Bool := m.mode &&& 18 != 0

def root (files : Files) : Except Nat Metadata := do
  let root ← orStatus ((files.opened []).filter (·.isDir)) routeNotFound
  failIf (root.uid ≠ files.owner.uid ∨ writable root = true) denied
  .ok root

def child (files : Files) (parent : Metadata) (path : List Text) (directory : Bool) :
    Except Nat Metadata := do
  let file ← orStatus ((files.opened path).filter fun m => !directory || m.isDir) routeNotFound
  failIf (file.uid ≠ parent.uid ∨ file.dev ≠ parent.dev ∨ writable file = true ∨
    (if directory then file.isDir else file.isFile) = false) denied
  .ok file

def manifestPath (name : Text) : List Text := [name, chars "manifest.json"]

def libPath (name : Text) : List Text := [name, chars "lib.wasm"]

section

variable {γ : Type} (c : Crates γ)

def authorFromDirectory (files : Files) (directory : Metadata) (name : Text) :
    Except Nat String := do
  let _ ← child files directory (manifestPath name) false
  let bytes := (files.bytes (manifestPath name)).take 1048577
  failIf (1048576 < bytes.length) denied
  let manifest ← orStatus (c.parse bytes) denied
  let author ← orStatus ((manifest.get "package").get "author").asStr denied
  failIf (((manifest.get "package").get "name").asStr ≠ some (String.ofList name) ∨
    c.normalizeName author ≠ some author) denied
  .ok author

def author (files : Files) (name : Text) : Except Nat String := do
  let root ← root files
  let directory ← child files root [name] true
  authorFromDirectory c files directory name

/-- The component of a project and its author. -/
def openLib (files : Files) (expected : String) (name : Text) : Except Nat Metadata := do
  let root ← root files
  let directory ← child files root [name] true
  let file ← child files directory (libPath name) false
  let author ← authorFromDirectory c files directory name
  failIf (author ≠ expected) routeNotFound
  .ok file

def libLoad (id : Id) (bytes : Bytes) : Except Nat γ := do
  failIf (67108864 < bytes.length) internal
  c.compile id bytes

/-- The component is read, if it is the same file after that. -/
def readLib (files : Files) (metadata : Metadata) (id : Id) (name : Text) : Except Nat γ := do
  let bytes := (files.bytes (libPath name)).take 67108865
  failIf (sameFile metadata files.after = false) internal
  files.prepared
  libLoad c id bytes

end

/-- A compiled project with the metadata of the file that it comes from. -/
structure DevLib (γ : Type) where
  id : Id
  metadata : Metadata
  lib : γ

/-- The part of the sandbox that concerns the projects. -/
structure Sandbox (γ : Type) where
  devLibs : List (DevLib γ)
  closed : Bool

section

variable {γ : Type}

def Sandbox.drop (s : Sandbox γ) (name : Text) : Sandbox γ :=
  { s with devLibs := s.devLibs.filter fun d => d.id.name != String.ofList name }

def Sandbox.close (_ : Sandbox γ) : Sandbox γ := ⟨[], true⟩

def idOf (author : String) (name : Text) : Id := ⟨some author, String.ofList name⟩

def Sandbox.find (s : Sandbox γ) (id : Id) (metadata : Metadata) : Option (DevLib γ) :=
  (s.devLibs.find? (·.id == id)).filter fun d => sameFile d.metadata metadata

def Sandbox.insert (s : Sandbox γ) (d : DevLib γ) : Sandbox γ :=
  { s with devLibs := s.devLibs.filter (·.id != d.id) ++ [d] }

/-- `load`. Files that have changed or gone are never answered with code from before. -/
def load (c : Crates γ) (files : Files) (s : Sandbox γ) (expected : String) (name : Text) :
    Except Nat γ × Sandbox γ :=
  match openLib c files expected name with
  | .error status => (.error status, s.drop name)
  | .ok metadata =>
      if s.closed then (.error denied, s)
      else match s.find (idOf expected name) metadata with
        | some d => (.ok d.lib, s)
        | none => match readLib c files metadata (idOf expected name) name with
          | .error status => (.error status, s.drop name)
          | .ok lib => (.ok lib, (s.drop name).insert ⟨idOf expected name, metadata, lib⟩)

/-- A request finds a project missing or loads it, or the server is closed. -/
inductive Event
  | missing (name : Text)
  | load (files : Files) (expected : String) (name : Text)
  | close

def step (c : Crates γ) (s : Sandbox γ) : Event → Option (Sandbox γ)
  | .missing name => some (s.drop name)
  | .load files expected name => some (load c files s expected name).2
  | .close => some s.close

/-- A file that has kept its metadata while it was read has the content that belongs to them. -/
def Honest (content : Stamp → Bytes) (files : Files) : Prop :=
  ∀ name metadata, files.opened (libPath name) = some metadata → sameFile metadata files.after = true →
    files.bytes (libPath name) = content metadata.toStamp

def Honestly (content : Stamp → Bytes) (_ : Sandbox γ) : Event → Prop
  | .load files _ _ => Honest content files
  | _ => True

/-- Each cached project is the only one of its name, and the code of the file that it comes from. -/
structure Current (c : Crates γ) (content : Stamp → Bytes) (s : Sandbox γ) : Prop where
  names : (s.devLibs.map fun d => d.id.name).Nodup
  compiled : ∀ d ∈ s.devLibs, libLoad c d.id (content d.metadata.toStamp) = .ok d.lib
  closed : s.closed = true → s.devLibs = []

/-- A component that the identity's account owns and no other account may write. -/
structure Trusted (files : Files) (name : Text) (metadata : Metadata) : Prop where
  opened : files.opened (libPath name) = some metadata
  owner : metadata.uid = files.owner.uid
  unwritable : writable metadata = false
  file : metadata.isFile = true

variable {c : Crates γ} {content : Stamp → Bytes} {files : Files} {s s' : Sandbox γ} {expected : String}
  {name : Text} {metadata : Metadata} {d : DevLib γ}

theorem mem_drop : d ∈ (s.drop name).devLibs ↔ d ∈ s.devLibs ∧ d.id.name ≠ String.ofList name := by
  rw [Sandbox.drop, List.mem_filter, bne_iff_ne]

theorem mem_insert_drop {e : DevLib γ} (he : e.id.name = String.ofList name) :
    d ∈ ((s.drop name).insert e).devLibs ↔ d ∈ (s.drop name).devLibs ∨ d = e := by
  rw [Sandbox.insert, List.mem_append, List.mem_singleton, List.mem_filter, bne_iff_ne]
  refine or_congr_left (and_iff_left_of_imp fun hd hsame => ?_)
  have hname : d.id.name = e.id.name := congrArg Id.name hsame
  exact (mem_drop.mp hd).2 (hname.trans he)

theorem Current.drop (h : Current c content s) (name : Text) : Current c content (s.drop name) where
  names := h.names.sublist (List.filter_sublist.map _)
  compiled d hd := h.compiled d (mem_drop.mp hd).1
  closed hclosed := by
    rw [Sandbox.drop, h.closed hclosed]
    rfl

theorem Current.insert_drop (h : Current c content s) (hopen : s.closed = false) {e : DevLib γ}
    (he : e.id.name = String.ofList name)
    (hlib : libLoad c e.id (content e.metadata.toStamp) = .ok e.lib) :
    Current c content ((s.drop name).insert e) := by
  refine ⟨?_, fun d hd => ?_, fun hclosed => ?_⟩
  · rw [Sandbox.insert, List.map_append, List.nodup_append']
    refine ⟨(h.drop name).names.sublist (List.filter_sublist.map _), List.nodup_singleton _, ?_⟩
    rw [List.disjoint_right]
    intro x hx hmem
    obtain rfl : x = e.id.name := List.mem_singleton.mp hx
    obtain ⟨d, hd, hname⟩ := List.mem_map.mp hmem
    exact (mem_drop.mp (List.mem_filter.mp hd).1).2 (hname.trans he)
  · obtain hd | rfl := (mem_insert_drop he).mp hd
    · exact (h.drop name).compiled d hd
    · exact hlib
  · exact absurd (hopen.symm.trans hclosed) (by decide)

theorem child_eq_ok {parent : Metadata} {path : List Text} {directory : Bool} {file : Metadata} :
    child files parent path directory = .ok file ↔ files.opened path = some file ∧
      file.uid = parent.uid ∧ file.dev = parent.dev ∧ writable file = false ∧
        (directory = true → file.isDir = true) ∧ (directory = false → file.isFile = true) := by
  simp only [child, bind_eq_ok, orStatus_eq_ok, Option.filter_eq_some_iff, failIf_eq_ok, not_or,
    not_not, Bool.not_eq_true, Bool.not_eq_false]
  constructor
  · rintro ⟨m, ⟨hopened, -⟩, _, ⟨huid, hdev, hmode, hkind⟩, hfile⟩
    cases hfile
    refine ⟨hopened, huid, hdev, hmode, ?_, ?_⟩
    · rintro rfl
      exact hkind
    · rintro rfl
      exact hkind
  · rintro ⟨hopened, huid, hdev, hmode, hdir, hfile⟩
    refine ⟨file, ⟨hopened, ?_⟩, (), ⟨huid, hdev, hmode, ?_⟩, rfl⟩
    · cases directory with
      | true => exact hdir rfl
      | false => rfl
    · cases directory with
      | true => exact hdir rfl
      | false => exact hfile rfl

theorem openLib_trusted (h : openLib c files expected name = .ok metadata) :
    Trusted files name metadata := by
  simp only [openLib, root, bind_eq_ok, orStatus_eq_ok, failIf_eq_ok, not_or, not_not,
    child_eq_ok] at h
  obtain ⟨top, ⟨_, -, _, ⟨howner, -⟩, htop⟩, directory, ⟨-, hdirectory, -⟩, file,
    ⟨hopened, huid, -, hmode, -, hfile⟩, _, -, _, -, hresult⟩ := h
  cases htop
  cases hresult
  exact ⟨hopened, huid.trans (hdirectory.trans howner), hmode, hfile trivial⟩

theorem libLoad_take {id : Id} {bytes : Bytes} {lib : γ}
    (h : libLoad c id (bytes.take 67108865) = .ok lib) : libLoad c id bytes = .ok lib := by
  obtain ⟨_, hsize, -⟩ := bind_eq_ok.mp h
  rw [failIf_eq_ok, List.length_take] at hsize
  have hwhole : bytes.take 67108865 = bytes := List.take_of_length_le (by omega)
  rw [hwhole] at h
  exact h

theorem readLib_current {id : Id} {lib : γ} (hhonest : Honest content files)
    (htrusted : Trusted files name metadata) (h : readLib c files metadata id name = .ok lib) :
    libLoad c id (content metadata.toStamp) = .ok lib := by
  simp only [readLib, bind_eq_ok, failIf_eq_ok, Bool.not_eq_false] at h
  obtain ⟨_, hsame, _, -, h⟩ := h
  rw [hhonest name metadata htrusted.opened hsame] at h
  exact libLoad_take h

theorem find_eq_some {id : Id} (h : s.find id metadata = some d) :
    d ∈ s.devLibs ∧ d.id = id ∧ d.metadata.toStamp = metadata.toStamp := by
  obtain ⟨hfind, hsame⟩ := Option.filter_eq_some_iff.mp h
  have hid : (d.id == id) = true := List.find?_some (p := fun d : DevLib γ => d.id == id) hfind
  exact ⟨List.mem_of_find?_eq_some hfind, beq_iff_eq.mp hid, beq_iff_eq.mp hsame⟩

theorem Current.unique (h : Current c content s) {e : DevLib γ} (hd : d ∈ s.devLibs)
    (he : e ∈ s.devLibs) (hname : d.id.name = e.id.name) : d = e :=
  List.inj_on_of_nodup_map h.names hd he hname

/-- The project is answered with the code of the file as it is now, and cached as nothing else. -/
structure Answered (c : Crates γ) (content : Stamp → Bytes) (files : Files) (s s' : Sandbox γ)
    (expected : String) (name : Text) (lib : γ) : Prop where
  running : s.closed = false
  current : ∃ metadata, openLib c files expected name = .ok metadata ∧ Trusted files name metadata ∧
    libLoad c (idOf expected name) (content metadata.toStamp) = .ok lib
  cached : ∀ d ∈ s'.devLibs, d.id.name = String.ofList name → d.id = idOf expected name ∧ d.lib = lib

/-- What a request for a project does to the cache. -/
structure Loaded (c : Crates γ) (content : Stamp → Bytes) (files : Files) (s s' : Sandbox γ)
    (expected : String) (name : Text) (result : Except Nat γ) : Prop where
  current : Current c content s'
  others : ∀ d : DevLib γ, d.id.name ≠ String.ofList name → (d ∈ s'.devLibs ↔ d ∈ s.devLibs)
  answered : ∀ lib, result = .ok lib → Answered c content files s s' expected name lib
  refused : ∀ status, result = .error status → ∀ d ∈ s'.devLibs, d.id.name ≠ String.ofList name

theorem dropped (h : Current c content s) (status : Nat) :
    Loaded c content files s (s.drop name) expected name (.error status) where
  current := h.drop name
  others d hd := by rw [mem_drop, and_iff_left hd]
  answered := by rintro _ ⟨⟩
  refused _ _ d hd := (mem_drop.mp hd).2

theorem load_spec (h : Current c content s) (hhonest : Honest content files) :
    Loaded c content files s (load c files s expected name).2 expected name
      (load c files s expected name).1 := by
  rw [load]
  split
  · exact dropped h _
  · rename_i metadata hopened
    have htrusted := openLib_trusted hopened
    split
    · rename_i hclosed
      have hempty := h.closed hclosed
      refine ⟨h, fun d _ => Iff.rfl, by rintro _ ⟨⟩, fun _ _ d hd => ?_⟩
      rw [hempty] at hd
      cases hd
    · rename_i hopen
      rw [Bool.not_eq_true] at hopen
      split
      · rename_i d hfound
        obtain ⟨hd, hid, hstamp⟩ := find_eq_some hfound
        have hcompiled := h.compiled d hd
        rw [hid, hstamp] at hcompiled
        refine ⟨h, fun d _ => Iff.rfl, fun lib hlib => ?_, by rintro _ ⟨⟩⟩
        cases hlib
        refine ⟨hopen, ⟨metadata, hopened, htrusted, hcompiled⟩, fun e he hname => ?_⟩
        obtain rfl : e = d := h.unique he hd (by rw [hname, hid]; rfl)
        exact ⟨hid, rfl⟩
      · split
        · exact dropped h _
        · rename_i lib hread
          have hlib := readLib_current hhonest htrusted hread
          have hname : (idOf expected name).name = String.ofList name := rfl
          refine ⟨h.insert_drop hopen hname hlib, fun d hd => ?_, fun lib' hlib' => ?_, by rintro _ ⟨⟩⟩
          · rw [mem_insert_drop hname, mem_drop, and_iff_left hd]
            refine or_iff_left ?_
            rintro rfl
            exact hd hname
          · cases hlib'
            refine ⟨hopen, ⟨metadata, hopened, htrusted, hlib⟩, fun d hd hdname => ?_⟩
            obtain hd | rfl := (mem_insert_drop hname).mp hd
            · exact absurd hdname (mem_drop.mp hd).2
            · exact ⟨rfl, rfl⟩

theorem step_current {e : Event} (h : Current c content s) (hhonest : Honestly content s e)
    (hstep : step c s e = some s') : Current c content s' := by
  cases e with
  | missing name =>
      cases hstep
      exact h.drop name
  | load files expected name =>
      cases hstep
      exact (load_spec h hhonest).current
  | close =>
      cases hstep
      exact ⟨List.nodup_nil, by rintro _ ⟨⟩, fun _ => rfl⟩

theorem current_empty : Current c content (⟨[], false⟩ : Sandbox γ) :=
  ⟨List.nodup_nil, by rintro _ ⟨⟩, by rintro ⟨⟩⟩

end

/-- The project as the router meets it. -/
def projectOf {γ : Type} (c : Crates γ) (files : Files) (s : Sandbox γ) (name : Text)
    (app : Except Nat Directory) : Project where
  author := author c files name
  app := app
  load := do
    let author ← author c files name
    let _ ← (load c files s author name).1
    .ok ()

def IsProject (handler : Handler) : Prop := ∃ name path, handler = .project name path

section

variable {server : Server} {request : Request} {handler : Handler} {name path suffix : Text}
  {project : Project}

theorem apiRoute_installed (h : (apiRoute server request).source = .router handler) :
    ¬IsProject handler := by
  rintro ⟨name, path, rfl⟩
  unfold apiRoute at h
  split at h
  · rw [invoke, respond_source] at h
    cases h
  · cases h

theorem serveTable_installed {route : ApiRoute}
    (h : (serveTable server request route).source = .router handler) : ¬IsProject handler := by
  cases route with
  | reject =>
      rintro ⟨name, path, rfl⟩
      cases h
  | api => exact apiRoute_installed h

theorem apiRouter_installed (h : (apiRouter server request).source = .router handler) :
    ¬IsProject handler := by
  unfold apiRouter at h
  split at h
  · exact serveTable_installed h
  · unfold frontend at h
    split at h
    · exact apiRoute_installed h
    · rintro ⟨name, path, rfl⟩
      split at h
      · rw [respond_source] at h
        cases h
      · cases h

theorem proxyPass_installed (h : (proxyPass server request).source = .router handler) :
    ¬IsProject handler := by
  rintro ⟨name, path, rfl⟩
  unfold proxyPass at h
  dsimp only at h
  split at h
  · cases h
  · split at h
    · cases h
    · split at h
      · rw [answer_source] at h
        cases h
      · cases h

/-- What is installed never answers as a project. -/
theorem routes_installed (h : (routes server request).source = .router handler) :
    ¬IsProject handler := by
  unfold routes at h
  dsimp only at h
  split at h
  · rintro ⟨name, path, rfl⟩
    rw [answer_source] at h
    cases h
  · split at h
    · exact serveTable_installed h
    · split at h
      · exact apiRouter_installed h
      · exact proxyPass_installed h

theorem requireOwner_eq_ok : requireOwner server request = .ok () ↔
    ∃ visitor, request.visitor = some visitor ∧ server.owner = some visitor := by
  rw [requireOwner]
  constructor
  · intro h
    split at h
    · rename_i hsame
      rw [Bool.and_eq_true, beq_iff_eq] at hsame
      obtain ⟨visitor, hvisitor⟩ := Option.isSome_iff_exists.mp hsame.1
      exact ⟨visitor, hvisitor, hsame.2.symm.trans hvisitor⟩
    · cases h
  · rintro ⟨visitor, hvisitor, howner⟩
    rw [hvisitor, howner, if_pos]
    rw [Bool.and_eq_true, beq_iff_eq]
    exact ⟨rfl, rfl⟩

theorem serveProject_project {isFrontend : Bool}
    (h : (serveProject server name suffix project isFrontend request).source =
      .router (.project name path)) :
    requireOwner server request = .ok () ∧ project.load = .ok () := by
  unfold serveProject at h
  dsimp only at h
  split at h
  · rw [respond_source] at h
    cases h
  · split at h
    · cases h
    · cases h
    · exact ⟨‹_›, ‹_›⟩

theorem developmentRouter_project
    (h : (developmentRouter server (routes server) request).source = .router (.project name path)) :
    ∃ project, findProject server name = .ok (some project) ∧
      requireOwner server request = .ok () ∧ project.load = .ok () := by
  have hinstalled : (routes server request).source ≠ .router (.project name path) :=
    fun h => routes_installed h ⟨name, path, rfl⟩
  obtain ⟨handler, hsource, hanswers⟩ := developmentRouter_answers server request
  rw [h] at hsource
  obtain rfl : Handler.project name path = handler := by simpa using hsource
  obtain ⟨⟩ | ⟨⟩ | ⟨⟩ | ⟨⟩ | ⟨⟩ | hproject | ⟨⟩ := hanswers
  unfold developmentRouter at h
  dsimp only at h
  rw [hproject] at h
  dsimp only at h
  split at h
  · exact absurd h hinstalled
  · split at h
    · cases h
    · split at h
      · exact absurd h hinstalled
      · exact ⟨_, hproject, serveProject_project h⟩

end

/-- After every run, what is cached has been compiled from the content of the file that it is cached
for, and a request for a project is answered with the code of its file as it is now, or the cache
holds nothing of that name. The other projects are left alone. The router lets a project answer the
owner only. -/
theorem dev_libs_current {γ : Type} {c : Crates γ} {content : Stamp → Bytes} {es : List Event}
    {s : Sandbox γ} (h : Trace (step c) (Honestly content) ⟨[], false⟩ es s) :
    Current c content s ∧
    (∀ files expected name, Honest content files →
      Loaded c content files s (load c files s expected name).2 expected name
        (load c files s expected name).1) ∧
    ∀ files server request name path app, Honest content files →
      server.projects name = .ok (some (projectOf c files s name app)) →
      (currentRouter server request).source = .router (.project name path) →
      (∃ owner, server.owner = some owner ∧ identify server.access request = .ok (some owner)) ∧
      ∃ expected lib, author c files name = .ok expected ∧
        Answered c content files s (load c files s expected name).2 expected name lib := by
  have hcurrent : Current c content s := h.invariant current_empty fun _ _ _ => step_current
  refine ⟨hcurrent, fun files expected name => load_spec hcurrent,
    fun files server request name path app hhonest hproject hsource => ?_⟩
  obtain ⟨admitted, hvet, hsource⟩ := AppAuthorization.currentRouter_source hsource
  obtain ⟨visitor, hvisitor, rfl, -⟩ := AppAuthorization.vet_ok hvet
  obtain ⟨project, hfound, howner, hload⟩ := developmentRouter_project hsource
  obtain ⟨owner, hseen, howner⟩ := requireOwner_eq_ok.mp howner
  have hsame : project = projectOf c files s name app := by
    unfold findProject at hfound
    split at hfound
    · rw [hproject] at hfound
      cases hfound
      rfl
    · cases hfound
  subst hsame
  simp only [projectOf, bind_eq_ok] at hload
  obtain ⟨expected, hauthor, lib, hlib, -⟩ := hload
  refine ⟨⟨owner, howner, ?_⟩, expected, lib, hauthor, (load_spec hcurrent hhonest).answered lib hlib⟩
  rw [hvisitor]
  exact congrArg Except.ok hseen

def sampleMetadata (size : Nat) (isDir : Bool) : Metadata :=
  ⟨⟨1, size, size, 0, 0, 0, 0⟩, 1000, 420, isDir, !isDir⟩

/-- A project `shop` whose component has the given size. -/
def sampleFiles (size : Nat) : Files where
  owner := sampleMetadata 0 true
  opened path := some (sampleMetadata size (decide (path.length < 2)))
  bytes path := if path.getLastD [] = chars "manifest.json" then [0] else List.replicate size 1
  after := sampleMetadata size false
  prepared := .ok ()

def sampleCrates : Crates Nat where
  parse _ := some (.obj [("package", .obj [("author", .str "alice.example"), ("name", .str "shop")])])
  normalizeName := some
  compile _ bytes := .ok bytes.length

def sampleContent (stamp : Stamp) : Bytes := List.replicate stamp.size 1

theorem sampleFiles_honest (size : Nat) : Honest sampleContent (sampleFiles size) := by
  intro name metadata hopened _
  cases hopened
  rfl

/-- The component is replaced between two requests. -/
theorem dev_libs_current_replaced : ∃ s, Trace (step sampleCrates) (Honestly sampleContent) ⟨[], false⟩
    [.load (sampleFiles 2) "alice.example" (chars "shop"),
      .load (sampleFiles 3) "alice.example" (chars "shop")] s ∧
    Current sampleCrates sampleContent s ∧ s.devLibs.map DevLib.lib = [3] := by
  have htrace : Trace (step sampleCrates) (Honestly sampleContent) ⟨[], false⟩
      [.load (sampleFiles 2) "alice.example" (chars "shop"),
        .load (sampleFiles 3) "alice.example" (chars "shop")] _ :=
    Trace.cons (sampleFiles_honest 2) rfl (Trace.cons (sampleFiles_honest 3) rfl .nil)
  exact ⟨_, htrace, (dev_libs_current htrace).1, by decide +kernel⟩

end Pishoo.Development
