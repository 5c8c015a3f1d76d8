import Pishoo.CapabilityOffer
import Pishoo.EvidenceBinding

namespace Pishoo.CapabilityDeclarations

open Result Registry Registration Publication Component CapabilityRows CapabilitySaving
open CapabilityOffer RouteAgreement PathText
open Router (targetOf)

/-- The trust that looks into a component with this parser. -/
def withRows (t : Trust) (o : Parser) : Trust :=
  { withParser t o with capabilityRows := capabilityRows o t.parse }

/-- The registry, and the components below `.volume/lib`. -/
structure State where
  registry : Registry
  backends : Slot → Option Bytes

def State.empty : State := ⟨.empty, fun _ => none⟩

def idOf (text : String) : Id :=
  match afterSegment (chars text) with
  | [] => ⟨none, text⟩
  | _ :: name => ⟨some (String.ofList (segment (chars text))), String.ofList name⟩

def validText (value : Json) : Bool :=
  value.asStr.any fun text => (text.toList.any fun c => !whitespace c) && !text.toList.any control

def validTitle (title : Json) : Bool :=
  validText title || (fieldsOf title).any fun values =>
    values.length == 2 && validText (title.get "en") && validText (title.get "zh-CN")

def readEndpoint (available taken declared : List (String × String)) (operation : Json) :
    Except Error (List (String × String)) := do
  failIf ((fieldsOf operation).map List.length ≠ some 2)
    (.badRequest "endpoint requires exactly method and path")
  let method ← orElse (operation.get "method").asStr (.badRequest "invalid endpoint method")
  let path ← orElse (operation.get "path").asStr (.badRequest "invalid endpoint path")
  failIf (available.contains (method, path) = false ∨
      (taken ++ declared).contains (method, path) = true)
    (.badRequest "endpoint is unavailable or belongs to multiple groups")
  .ok (declared ++ [(method, path)])

def readGroup (t : Trust) (o : Parser) (available : List (String × String)) (rows : List GroupRow)
    (group : Json) : Except Error (List GroupRow) := do
  failIf ((fieldsOf group).map List.length ≠ some 3)
    (.badRequest "group requires exactly id, title and endpoints")
  let id ← orElse (group.get "id").asStr (.badRequest "invalid group id")
  validId t.normalizeName (idOf id)
  failIf ('/' ∈ chars id ∨ id ∈ rows.map GroupRow.id) (.badRequest "invalid or duplicate group id")
  failIf (validTitle (group.get "title") = false)
    (.badRequest "title must be text or contain en and zh-CN text")
  let operations ← orElse ((asArr (group.get "endpoints")).filter fun v => !v.isEmpty)
    (.badRequest "group must contain endpoints")
  let declared ← operations.foldlM (readEndpoint available (rows.flatMap GroupRow.endpoints)) []
  .ok (rows ++ [⟨id, titleOf o group, declared⟩])

/-- The operations that can be granted: those of the component that is on disk, and the app. -/
def available (o : Parser) (s : State) (p : Package) : Except Error (List (String × String)) := do
  let bytes ← orElse (s.backends (slotOf p.id .lib)) (.io "No such file or directory (os error 2)")
  let paths ← validateLib o bytes
  .ok ((if p.hasApp then [("GET", "/app/" ++ p.name)] else []) ++ paths.flatMap fun path =>
    path.2.methods.map fun operation => (operation.1, Installation.placeOf p.id ++ path.1))

def writeDeclarations (t : Trust) (o : Parser) (s : State) (name : String) (put : Bool)
    (groups : Json) : Except Error Registry := do
  let installed := (s.registry.package name).filter Package.hasLib
  failIf (put = true ∧ installed = none) .routeNotFound
  let groups ← orElse (asArr groups) (.badRequest "permissions must be an array")
  let available ← (match installed with
    | some p => if put = true ∧ groups ≠ [] then available o s p else .ok []
    | none => .ok [])
  let rows ← groups.foldlM (readGroup t o available) []
  permissions s.registry name rows

/-- What can happen to the declarations. -/
inductive Event
  | install (docs : List Document) (sandbox : Sandbox) (now : String → Int)
  | remove (id : Id)
  | put (name : String) (groups : Json)
  | delete (name : String)

def itemsOf (t : Trust) (o : Parser) (docs : List Document) : List Item :=
  docs.map (itemOf (withRows t o))

/-- The component of the document from which the release has been read. -/
def stagedBackend (t : Trust) (docs : List Document) (rel : Release) : Option Bytes :=
  ((docs.find? fun doc => doc.id == rel.id).bind fun doc =>
    (t.wazRead doc.bytes).toOption).bind fun files => files.lookup "backend.wasm"

def replacedBackends (t : Trust) (docs : List Document) (changed : List Release)
    (backends : Slot → Option Bytes) (slot : Slot) : Option Bytes :=
  match changed.find? fun rel => slotOf rel.id .lib == slot with
  | some rel => if rel.hasLib then stagedBackend t docs rel else none
  | none => backends slot

/-- What is committed before the transaction of an event: the migration of the registry. -/
def prepared (t : Trust) (o : Parser) (s : State) : Event → Except Error State
  | .install docs sandbox _ => do
      acceptBatch sandbox (itemsOf t o docs)
      let r ← migrateRegistration s.registry
      .ok { s with registry := r }
  | .remove id => do
      validId t.normalizeName id
      let r ← migrateRegistration s.registry
      .ok { s with registry := r }
  | .put .. => .ok s
  | .delete _ => .ok s

def transaction (t : Trust) (o : Parser) (s : State) : Event → Except Error State
  | .install docs sandbox now => do
      let tx ← installTx t.normalizeName s.registry sandbox (itemsOf t o docs) now
      .ok ⟨tx.2, replacedBackends t docs tx.1 s.backends⟩
  | .remove id =>
      if (s.registry.registered id).isSome then do
        let r ← removeTx s.registry id
        .ok ⟨r, Function.update s.backends (slotOf id .lib) none⟩
      else .ok s
  | .put name groups => do
      let r ← writeDeclarations t o s name true groups
      .ok { s with registry := r }
  | .delete name => do
      let r ← writeDeclarations t o s name false (.arr [])
      .ok { s with registry := r }

/-- An event that fails leaves what has been committed before it failed. -/
def next (t : Trust) (o : Parser) (s : State) (e : Event) : State :=
  match prepared t o s e with
  | .error _ => s
  | .ok s' => match transaction t o s' e with
    | .error _ => s'
    | .ok s'' => s''

def run (t : Trust) (o : Parser) (es : List Event) : State := es.foldl (next t o) .empty

/-- The row is an operation of the component at its mount, or the grant of the app. -/
def Described (t : Trust) (o : Parser) (backends : Slot → Option Bytes) (p : Package)
    (x : LibCapabilityOperation) : Prop :=
  (∃ backend document path, backends (slotOf p.id .lib) = some backend ∧
    documentOf o t.parse [("backend.wasm", backend)] = .ok document ∧
    HasOperation document x.method path ∧ x.path = Installation.placeOf p.id ++ path) ∨
  p.hasApp = true ∧ x.method = "GET" ∧ x.path = "/app/" ++ p.name

/-- The declarations agree with the packages that are installed. -/
structure Consistent (t : Trust) (o : Parser) (s : State) : Prop where
  capabilities : ∀ c ∈ s.registry.capabilities,
    ∃ p, s.registry.package c.libName = some p ∧ p.hasLib = true
  operations : ∀ x ∈ s.registry.operations,
    ∃ p, s.registry.package x.libName = some p ∧ p.hasLib = true ∧
      Described t o s.backends p x
  routes : ∀ x ∈ s.registry.operations, ∀ y ∈ s.registry.operations, x.route = y.route → x = y
  parents : ∀ x ∈ s.registry.operations, x.parent ∈ s.registry.capabilities.map LibCapability.key

/-- `save_registration` up to the groups. -/
def beforeGroups (r : Registry) (rel : Release) (now : Int) : Except Error Registry := do
  checkName r rel.id
  checkOwner r rel
  checkRequired r rel
  let r ← r.upsertPackage rel.row now
  let r ← r.deleteDependencies rel.id.name
  rel.dependencies.foldlM (saveDependency rel.id) r

theorem saveRegistration_eq (r : Registry) (rel : Release) (now : Int) :
    saveRegistration r rel now = (do
      let r ← beforeGroups r rel now
      let groups ← groupRows rel
      permissions r rel.id.name groups) := by
  simp only [saveRegistration, beforeGroups, bind_assoc]

/-- A registry that a transaction may have in hand when it saves a package: some packages of its
batch are saved, the others are not. -/
inductive Midway (t : Trust) (o : Parser) (s : State) : Registry → Prop
  | intro {docs sandbox now s' changed done rest r₀ r}
      (hprepared : prepared t o s (.install docs sandbox now) = .ok s')
      (hexamine : examineAll t.normalizeName s'.registry sandbox [] (itemsOf t o docs) = .ok changed)
      (hsplit : changed = done ++ rest)
      (hdelete : changed.foldlM (fun r rel => r.deleteDependencies rel.id.name) s'.registry = .ok r₀)
      (hsave : done.foldlM (saveAt now) r₀ = .ok r) : Midway t o s r

/-- Saving the groups of the package violates no constraint. -/
def Saves (rel : Release) (r : Registry) : Prop :=
  ∃ rows r', groupRows rel = .ok rows ∧ permissions r rel.id.name rows = .ok r'

/-- The rows of a name agree with the package of that name. -/
structure Kept (t : Trust) (o : Parser) (backends : Slot → Option Bytes) (e : Entry) : Prop where
  installed : ∀ p, e.package = some p → p.hasLib = true → ∃ files m, Accepted t o files m ∧
    m.id = p.id ∧ m.hasLib = true ∧ m.hasApp = p.hasApp ∧
      backends (slotOf p.id .lib) = files.lookup "backend.wasm"
  owned : e.capabilities ≠ [] ∨ e.operations ≠ [] → ∃ p, e.package = some p ∧ p.hasLib = true
  described : ∀ p, e.package = some p → ∀ x ∈ e.operations, Described t o backends p x

def Agreed (t : Trust) (o : Parser) (s : State) : Prop :=
  ∀ name, Kept t o s.backends (s.registry.entry name)

section

variable {t : Trust} {o : Parser} {files : Files} {m : Metadata} {rel : Release} {raw : Bytes}
  {paths : List (String × PathItem)} {document : Json} {r r' : Registry} {s s' : State}
  {gs : List AccessGroup} {p : Package} {x : LibCapabilityOperation} {name : String}
  {backends backends' : Slot → Option Bytes} {e : Entry} {docs : List Document} {doc : Document}

theorem scanPart_agrees {size : Nat} {scan scan' : Scan} {lib lib' : LibScan} {part : Option Part}
    (hsame : lib.toScan = scan) (h : scanPart scan part = .ok scan')
    (h' : scanLibPart size lib part = .ok lib') : lib'.toScan = scan' := by
  subst hsame
  cases part with
  | none => cases h
  | some part =>
      obtain ⟨payload, sectionEnd⟩ := part
      obtain ⟨middle, hmiddle, h'⟩ := bind_eq_ok.mp h'
      cases h'
      cases payload with
      | custom name data finish =>
          simp only [scanPart] at h
          dsimp only at hmiddle
          split at h
          · rename_i hname
            split at h
            · cases h
            · rename_i hnot
              simp only [not_or, not_not] at hnot
              cases h
              rw [if_pos hname, if_neg (by simp [hnot.1]), if_neg hnot.2.1, if_neg hnot.2.2] at hmiddle
              cases hmiddle
              rfl
          · rename_i hname
            cases h
            rw [if_neg hname] at hmiddle
            split at hmiddle
            · split at hmiddle
              · cases hmiddle
              · cases hmiddle
                rfl
            · cases hmiddle
              rfl
      | version component =>
          cases h
          cases hmiddle
          rfl
      | _ =>
          cases h
          cases hmiddle
          rfl

theorem scan_agrees {size : Nat} {parts : List (Option Part)} {scan scan' : Scan} {lib lib' : LibScan}
    (hsame : lib.toScan = scan) (h : parts.foldlM scanPart scan = .ok scan')
    (h' : parts.foldlM (scanLibPart size) lib = .ok lib') : lib'.toScan = scan' := by
  induction parts generalizing scan lib with
  | nil =>
      cases h
      cases h'
      exact hsame
  | cons part parts ih =>
      rw [List.foldlM_cons] at h h'
      obtain ⟨scan₁, h₁, h⟩ := bind_eq_ok.mp h
      obtain ⟨lib₁, h₁', h'⟩ := bind_eq_ok.mp h'
      exact ih (scanPart_agrees hsame h₁ h₁') h h'

/-- The component on disk has the paths of the package from which it has been written. -/
theorem validateLib_agrees {backend : Bytes} {paths' : List (String × PathItem)}
    (hbackend : files.lookup "backend.wasm" = some backend) (hraw : packageOpenapi o files = .ok raw)
    (hpaths : validateOpenapi o raw = .ok paths) (h : validateLib o backend = .ok paths') :
    paths' = paths := by
  obtain ⟨backend', hbackend', hraw⟩ := bind_eq_ok.mp hraw
  obtain rfl : backend = backend' := Option.some.inj (hbackend.symm.trans (orElse_eq_ok.mp hbackend'))
  obtain ⟨scan, hscan, hraw⟩ := bind_eq_ok.mp hraw
  obtain ⟨_, -, h⟩ := bind_eq_ok.mp h
  obtain ⟨lib, hlib, h⟩ := bind_eq_ok.mp h
  obtain ⟨_, -, h⟩ := bind_eq_ok.mp h
  obtain ⟨raw', hraw', h⟩ := bind_eq_ok.mp h
  have hopen : validateOpenapi o raw' = .ok paths' := by
    dsimp only at h
    split at h
    · exact h
    · obtain ⟨_, -, h⟩ := bind_eq_ok.mp h
      exact h
  have hagrees : lib.toScan = scan := scan_agrees rfl hscan hlib
  rw [orElse_eq_ok, ← hagrees] at hraw
  rw [orElse_eq_ok, hraw] at hraw'
  cases hraw'
  exact Except.ok.inj (hopen.symm.trans hpaths)

theorem comes_of_evidence (h : evidence (withRows t o) doc = .ok rel) :
    ∃ files m, t.wazRead doc.bytes = .ok files ∧ Comes t o files m rel := by
  obtain ⟨_, -, h⟩ := bind_eq_ok.mp h
  obtain ⟨time, -, h⟩ := bind_eq_ok.mp h
  obtain ⟨files, hread, h⟩ := bind_eq_ok.mp h
  obtain ⟨facts, -, h⟩ := bind_eq_ok.mp h
  obtain ⟨_, -, h⟩ := bind_eq_ok.mp h
  obtain ⟨m, hm, h⟩ := bind_eq_ok.mp h
  cases h
  obtain ⟨files', hfiles, hread⟩ := bind_eq_ok.mp hread
  obtain ⟨m', hvalid, hread⟩ := bind_eq_ok.mp hread
  obtain ⟨_, -, hread⟩ := bind_eq_ok.mp hread
  obtain ⟨_, -, hread⟩ := bind_eq_ok.mp hread
  obtain ⟨_, -, hread⟩ := bind_eq_ok.mp hread
  cases hread
  have hvalid' : Component.validateContents t o files = .ok m' := by
    rw [← validateContents_withParser]
    exact hvalid
  have hmetadata : packageMetadata t files = .ok m := hm
  have hsame : m' = m := Except.ok.inj
    ((accepted_of_validateContents hvalid').metadata.symm.trans hmetadata)
  subst hsame
  exact ⟨files, m', mapError_eq_ok.mp hfiles, hvalid', rfl, rfl, rfl, rfl⟩

theorem Kept.congr (h : Kept t o backends e)
    (hbackends : ∀ p, e.package = some p → backends' (slotOf p.id .lib) = backends (slotOf p.id .lib)) :
    Kept t o backends' e := by
  refine ⟨fun p hp hlib => ?_, h.owned, fun p hp x hx => ?_⟩
  · obtain ⟨files, m, haccepted, hid, hmlib, happ, hbackend⟩ := h.installed p hp hlib
    exact ⟨files, m, haccepted, hid, hmlib, happ, (hbackends p hp).trans hbackend⟩
  · refine (h.described p hp x hx).imp_left ?_
    rintro ⟨backend, document, path, hbackend, hrest⟩
    exact ⟨backend, document, path, (hbackends p hp).trans hbackend, hrest⟩

theorem Accepted.opened (h : Accepted t o files m) (hlib : m.hasLib = true) :
    ∃ raw paths document backend, Opened t o files m raw paths document ∧
      files.lookup "backend.wasm" = some backend ∧
      documentOf o t.parse [("backend.wasm", backend)] = .ok document := by
  obtain ⟨raw, paths, document, hopened⟩ := opened_of_accepted h hlib
  obtain ⟨backend, hbackend, -⟩ := bind_eq_ok.mp hopened.found
  have hbackend : files.lookup "backend.wasm" = some backend := orElse_eq_ok.mp hbackend
  refine ⟨raw, paths, document, backend, hopened, hbackend, ?_⟩
  have hsame : List.lookup "backend.wasm" [("backend.wasm", backend)] = files.lookup "backend.wasm" :=
    hbackend.symm
  rw [documentOf_congr hsame]
  exact hopened.documentOf

/-- The groups that a package declares are described by it. -/
theorem described_rows (hcomes : Comes t o files m rel) (hid : p.id = rel.id)
    (happ : p.hasApp = rel.hasApp)
    (hbackend : backends (slotOf p.id .lib) = files.lookup "backend.wasm") {rows : List GroupRow}
    (hrows : groupRows rel = .ok rows) (hx : x ∈ Entry.declaredOperations name rows) :
    Described t o backends p x := by
  obtain ⟨row, hrow, y, hy, rfl⟩ := mem_declaredOperations.mp hx
  cases hlib : rel.hasLib with
  | false =>
      rw [groupRows, hlib] at hrows
      cases hrows
      cases hrow
  | true =>
      obtain ⟨raw, paths, document, backend, hopened, hlookup, hdocument⟩ :=
        Accepted.opened (accepted_of_validateContents hcomes.accepted) (hcomes.hasLib ▸ hlib)
      obtain ⟨gs, -, hperm, hmapped⟩ := hcomes.rows hopened
      rw [hmapped] at hrows
      cases hrows
      obtain ⟨g, hg, rfl⟩ := List.mem_map.mp hrow
      obtain ⟨e, he, rfl⟩ | ⟨hasks, rfl⟩ := mem_rowOf hy
      · obtain ⟨path, hpath, heq, method, hmethod, hupper, hsome⟩ := operation_of_endpoint hperm hg he
        refine .inl ⟨backend, document, path.1, hbackend.trans hlookup, hdocument, ?_, ?_⟩
        · exact ⟨path.2, hpath, method, hmethod, hsome, hupper⟩
        · rw [hid, ← heq]
      · obtain ⟨entry, hentry, rfl⟩ := List.mem_map.mp (hperm.subset hg)
        refine .inr ⟨?_, rfl, ?_⟩
        · rw [happ, hcomes.hasApp]
          by_contra hno
          have hnone := hopened.grouped.2 (by simpa using hno) entry hentry
          exact absurd (hasks.symm.trans hnone) (by decide)
        · rw [show p.name = rel.id.name from congrArg Id.name hid]

/-- What is described lies at the name of its package. -/
theorem Kept.owner (hfaithful : Faithful t.parse o) (h : Kept t o backends e)
    (hp : e.package = some p) (hlib : p.hasLib = true) (hx : x ∈ e.operations) :
    ownerOf (chars x.path) = chars p.name ∧ ∃ app tail, targetOf (chars x.path) =
      ⟨app, !app && standard p.id, tail⟩ := by
  obtain ⟨files, m, haccepted, hid, hmlib, -, hbackend⟩ := h.installed p hp hlib
  obtain ⟨raw, paths, document, backend, hopened, hlookup, hdocument⟩ :=
    Accepted.opened haccepted hmlib
  have hname : m.name = p.name := congrArg Id.name hid
  have hslash := hopened.slash
  obtain ⟨backend', document', path, hbackend', hdocument', ⟨item, hitem, -⟩, hpath⟩ |
    ⟨-, -, hpath⟩ := h.described p hp x hx
  · rw [hbackend, hlookup] at hbackend'
    cases hbackend'
    rw [hdocument] at hdocument'
    cases hdocument'
    obtain ⟨tail, hroute⟩ := hopened.route hfaithful hitem
    rw [hpath, ← hid]
    refine ⟨(hroute.ownerOf hslash).trans (congrArg chars hname), false, tail, ?_⟩
    simpa using hroute.target
  · rw [hname] at hslash
    rw [hpath]
    refine ⟨owner_app hslash, true, chars p.name, ?_⟩
    rw [chars_append, show chars "/app/" = Authorization.app from rfl, targetOf_app]
    rfl

theorem Agreed.owner (hfaithful : Faithful t.parse o) (h : Agreed t o s)
    (hx : x ∈ s.registry.operations) : ∃ p, s.registry.package x.libName = some p ∧
      p.hasLib = true ∧ ownerOf (chars x.path) = chars x.libName ∧
      ∃ app tail, targetOf (chars x.path) = ⟨app, !app && standard p.id, tail⟩ := by
  have hmem : x ∈ (s.registry.entry x.libName).operations := Entry.mem_operations.mpr ⟨hx, rfl⟩
  obtain ⟨p, hp, hlib⟩ := (h x.libName).owned (.inr (List.ne_nil_of_mem hmem))
  obtain ⟨howner, htarget⟩ := (h x.libName).owner hfaithful hp hlib hmem
  have hname : p.name = x.libName := (package_eq_some.mp hp).2
  rw [hname] at howner
  exact ⟨p, hp, hlib, howner, htarget⟩

theorem Agreed.owned (hfaithful : Faithful t.parse o) (h : Agreed t o s) : Owned s.registry := by
  intro x hx
  obtain ⟨p, -, -, howner, -⟩ := h.owner hfaithful hx
  exact howner

theorem Agreed.placed (hfaithful : Faithful t.parse o) (h : Agreed t o s) :
    Installation.Placed s.registry := by
  intro x hx
  obtain ⟨p, hp, -, -, app, tail, htarget⟩ := h.owner hfaithful hx
  rw [misplaced, Bool.and_eq_false_iff]
  by_cases htake : x.path.toList.take 5 = "/std/".toList
  · refine .inr ?_
    have hpath : chars x.path = Router.standardPrefix ++ x.path.toList.drop 5 := by
      rw [show Router.standardPrefix = "/std/".toList from rfl, ← htake, List.take_append_drop]
      rfl
    rw [hpath, targetOf_standard] at htarget
    rw [Router.Target.mk.injEq] at htarget
    obtain ⟨rfl, hstandard, -⟩ := htarget
    rw [List.any_eq_false]
    intro q hq hqname
    simp only [Bool.and_eq_true, beq_iff_eq] at hqname
    have hqp : q = p := Option.some.inj ((package_eq_some.mpr ⟨hq, hqname.1.1⟩).symm.trans hp)
    have hauthor : p.author.any isStandardAuthor = true := by
      rw [← show standard p.id = p.author.any isStandardAuthor from rfl]
      simpa using hstandard.symm
    rw [hqp, hauthor] at hqname
    exact absurd hqname.2 (by simp)
  · exact .inl (by simpa using htake)

theorem documents_nodup {normalizeName : String → Option String} {sandbox : Sandbox}
    {seen : List String} {items : List Item} {changed : List Release}
    (h : examineAll normalizeName r sandbox seen items = .ok changed) :
    (items.map fun item => item.id.name).Nodup ∧ ∀ item ∈ items, item.id.name ∉ seen := by
  induction items generalizing seen changed with
  | nil => exact ⟨List.nodup_nil, by simp⟩
  | cons item items ih =>
      obtain ⟨out, hout, h⟩ := bind_eq_ok.mp h
      obtain ⟨rels, hrels, -⟩ := bind_eq_ok.mp h
      obtain ⟨hnodup, hseen⟩ := ih hrels
      obtain ⟨hnew, -⟩ := CommitDiscriminator.examine_ok hout
      rw [List.map_cons, List.nodup_cons, List.forall_mem_cons]
      refine ⟨⟨fun hmem => ?_, hnodup⟩, hnew, fun other hother hin =>
        hseen other hother (List.mem_cons_of_mem _ hin)⟩
      obtain ⟨other, hother, hname⟩ := List.mem_map.mp hmem
      exact hseen other hother (hname ▸ List.mem_cons_self)

/-- A release of a batch comes from the files of its document. -/
theorem comes_of_batch {sandbox : Sandbox} {changed : List Release}
    (h : examineAll t.normalizeName r sandbox [] (itemsOf t o docs) = .ok changed)
    (hrel : rel ∈ changed) : ∃ files m, Comes t o files m rel ∧
      stagedBackend t docs rel = files.lookup "backend.wasm" := by
  obtain ⟨item, hitem, haccepted⟩ := accepted_of_mem h hrel
  obtain ⟨doc, hdoc, rfl⟩ := List.mem_map.mp hitem
  obtain ⟨files, m, hfiles, hcomes⟩ := comes_of_evidence haccepted.evidence
  refine ⟨files, m, hcomes, ?_⟩
  have hnodup := (documents_nodup h).1
  rw [itemsOf, List.map_map] at hnodup
  have hfind : docs.find? (fun doc => doc.id == rel.id) = some doc := by
    cases hfound : docs.find? fun doc => doc.id == rel.id with
    | none =>
        have hid : doc.id = rel.id := haccepted.identity.symm
        exact absurd (beq_iff_eq.mpr hid) (List.find?_eq_none.mp hfound doc hdoc)
    | some doc' =>
        have hid : doc'.id = rel.id := by simpa using List.find?_some hfound
        refine congrArg some (List.inj_on_of_nodup_map hnodup (List.mem_of_find?_eq_some hfound) hdoc ?_)
        exact congrArg Id.name (hid.trans haccepted.identity)
  rw [stagedBackend, hfind, Option.bind_some, hfiles]
  rfl

theorem replacedBackends_of_mem {changed : List Release}
    (hnames : (changed.map fun rel => rel.id.name).Nodup) (hrel : rel ∈ changed) :
    replacedBackends t docs changed backends (slotOf rel.id .lib) =
      if rel.hasLib then stagedBackend t docs rel else none := by
  have hfind : changed.find? (fun other => slotOf other.id .lib == slotOf rel.id .lib) = some rel := by
    cases hfound : changed.find? fun other => slotOf other.id .lib == slotOf rel.id .lib with
    | none => simpa using List.find?_eq_none.mp hfound rel hrel
    | some other =>
        have hslot : slotOf other.id .lib = slotOf rel.id .lib := by simpa using List.find?_some hfound
        exact congrArg some (List.inj_on_of_nodup_map hnames (List.mem_of_find?_eq_some hfound) hrel
          (congrArg Slot.name hslot))
  rw [replacedBackends, hfind]

theorem replacedBackends_other {changed : List Release} {slot : Slot}
    (h : slot.name ∉ changed.map fun rel => rel.id.name) :
    replacedBackends t docs changed backends slot = backends slot := by
  have hfind : changed.find? (fun other => slotOf other.id .lib == slot) = none := by
    rw [List.find?_eq_none]
    intro other hother heq
    have hslot : slotOf other.id .lib = slot := by simpa using heq
    exact h (hslot ▸ List.mem_map_of_mem hother)
  rw [replacedBackends, hfind]

theorem Agreed.install {sandbox : Sandbox} {now : String → Int} {changed : List Release}
    (h : Agreed t o s)
    (htx : installTx t.normalizeName s.registry sandbox (itemsOf t o docs) now = .ok (changed, r)) :
    Agreed t o ⟨r, replacedBackends t docs changed s.backends⟩ := by
  obtain ⟨hexamine, hsave⟩ := examineAll_of_installTx htx
  have hnames := (CommitDiscriminator.examineAll_names hexamine).1
  intro name
  change Kept t o _ (r.entry name)
  by_cases hn : name ∈ changed.map fun rel => rel.id.name
  · obtain ⟨rel, hrel, rfl⟩ := List.mem_map.mp hn
    obtain ⟨rows, hrows, hentry⟩ := Entry.saveAll_entry hsave hnames hrel
    obtain ⟨files, m, hcomes, hstaged⟩ := comes_of_batch hexamine hrel
    let row := (s.registry.package rel.id.name).elim (fresh rel.row (now rel.id.name))
      (upgrade rel.row (now rel.id.name))
    have hregisters : Installation.Registers row rel :=
      Installation.registers_row fun q hq => (package_eq_some.mp hq).2
    have hbackend : replacedBackends t docs changed s.backends (slotOf row.id .lib) =
        files.lookup "backend.wasm" := by
      rw [hregisters.id, replacedBackends_of_mem hnames hrel, hstaged]
      split
      · rfl
      · rename_i hno
        have hlib := (packageMetadata_spec (accepted_of_validateContents hcomes.accepted).metadata).2.1
        rw [← hcomes.hasLib] at hlib
        rw [hlib, Option.not_isSome_iff_eq_none] at hno
        exact hno.symm
    rw [hentry]
    refine ⟨fun p hp hlib => ?_, fun hne => ⟨row, rfl, ?_⟩, fun p hp x hx => ?_⟩
    · cases hp
      refine ⟨files, m, accepted_of_validateContents hcomes.accepted, ?_, ?_, ?_, hbackend⟩
      · rw [← hcomes.id]
        exact hregisters.id.symm
      · rw [← hcomes.hasLib, ← hregisters.hasLib]
        exact hlib
      · rw [← hcomes.hasApp]
        exact hregisters.hasApp.symm
    · rw [hregisters.hasLib]
      by_contra hno
      rw [groupRows, if_neg hno] at hrows
      cases hrows
      simp [Entry.declaredCapabilities, Entry.declaredOperations] at hne
    · cases hp
      exact described_rows hcomes hregisters.id hregisters.hasApp hbackend hrows hx
  · rw [Entry.saveAll_entry_other hsave hn]
    refine (h name).congr fun p hp => replacedBackends_other ?_
    rw [show (slotOf p.id .lib).name = name from (package_eq_some.mp hp).2]
    exact hn

theorem Agreed.remove {id : Id} (h : Agreed t o s) (htx : removeTx s.registry id = .ok r) :
    Agreed t o ⟨r, Function.update s.backends (slotOf id .lib) none⟩ := by
  intro name
  change Kept t o _ (r.entry name)
  rw [Entry.removeTx_entry htx]
  split
  · exact ⟨by simp, by simp, by simp⟩
  · rename_i hn
    refine (h name).congr fun p hp => ?_
    have hname : p.name = name := (package_eq_some.mp hp).2
    refine Function.update_of_ne (fun hslot => hn ?_) _ _
    rw [← hname]
    exact congrArg Slot.name hslot

theorem readEndpoint_available {offered taken declared declared' : List (String × String)}
    {operation : Json} (h : readEndpoint offered taken declared operation = .ok declared')
    (hdeclared : ∀ x ∈ declared, x ∈ offered) : ∀ x ∈ declared', x ∈ offered := by
  obtain ⟨_, -, h⟩ := bind_eq_ok.mp h
  obtain ⟨method, -, h⟩ := bind_eq_ok.mp h
  obtain ⟨path, -, h⟩ := bind_eq_ok.mp h
  obtain ⟨_, havailable, h⟩ := bind_eq_ok.mp h
  cases h
  rw [failIf_eq_ok, not_or, Bool.not_eq_false, List.contains_iff_mem] at havailable
  intro x hx
  obtain hx | hx := List.mem_append.mp hx
  · exact hdeclared x hx
  · rw [List.mem_singleton.mp hx]
    exact havailable.1

theorem readGroup_available {offered : List (String × String)} {rows rows' : List GroupRow}
    {group : Json} (h : readGroup t o offered rows group = .ok rows')
    (hrows : ∀ row ∈ rows, ∀ x ∈ row.endpoints, x ∈ offered) :
    ∀ row ∈ rows', ∀ x ∈ row.endpoints, x ∈ offered := by
  obtain ⟨_, -, h⟩ := bind_eq_ok.mp h
  obtain ⟨id, -, h⟩ := bind_eq_ok.mp h
  obtain ⟨_, -, h⟩ := bind_eq_ok.mp h
  obtain ⟨_, -, h⟩ := bind_eq_ok.mp h
  obtain ⟨_, -, h⟩ := bind_eq_ok.mp h
  obtain ⟨operations, -, h⟩ := bind_eq_ok.mp h
  obtain ⟨declared, hdeclared, h⟩ := bind_eq_ok.mp h
  cases h
  intro row hrow
  obtain hrow | hrow := List.mem_append.mp hrow
  · exact hrows row hrow
  · rw [List.mem_singleton.mp hrow]
    exact foldlM_invariant (P := fun declared => ∀ x ∈ declared, x ∈ offered) hdeclared (by simp)
      fun operation _ _ _ hb hstep => readEndpoint_available hstep hb

/-- What is offered for a lib is described by its package. -/
theorem available_described (hfaithful : Faithful t.parse o) (h : Agreed t o s)
    (hp : s.registry.package name = some p) (hlib : p.hasLib = true)
    {offered : List (String × String)} (hoffered : available o s p = .ok offered)
    {id : String} {y : String × String} (hy : y ∈ offered) :
    Described t o s.backends p ⟨name, id, y.1, y.2⟩ := by
  obtain ⟨backend, hbackend, hoffered⟩ := bind_eq_ok.mp hoffered
  obtain ⟨paths', hpaths', hoffered⟩ := bind_eq_ok.mp hoffered
  cases hoffered
  obtain ⟨files, m, haccepted, hid, hmlib, happ, hdisk⟩ := (h name).installed p hp hlib
  obtain ⟨raw, paths, document, backend', hopened, hlookup, hdocument⟩ :=
    Accepted.opened haccepted hmlib
  rw [orElse_eq_ok, hdisk, hlookup] at hbackend
  cases hbackend
  have hpaths := hopened.checked.openApi
  obtain rfl := validateLib_agrees hlookup hopened.found hpaths hpaths'
  obtain ⟨⟨version, hopen⟩, -⟩ := validateOpenapi_spec hpaths
  obtain hy | hy := List.mem_append.mp hy
  · split at hy
    · rename_i happ
      rw [List.mem_singleton.mp hy]
      exact .inr ⟨happ, rfl, rfl⟩
    · cases hy
  · obtain ⟨path, hpath, hy⟩ := List.mem_flatMap.mp hy
    obtain ⟨operation, hoperation, rfl⟩ := List.mem_map.mp hy
    obtain ⟨item, hitem, method, hmethod, hsome, hupper⟩ :=
      hfaithful.methods raw version _ document hopen hopened.parsed path hpath operation hoperation
    exact .inl ⟨backend, document, path.1, hdisk.trans hlookup, hdocument,
      ⟨item, hitem, method, hmethod, hsome, hupper⟩, rfl⟩

theorem Agreed.write (hfaithful : Faithful t.parse o) {put : Bool} {groups : Json}
    (hput : put = true ∨ groups = .arr []) (h : Agreed t o s)
    (hwrite : writeDeclarations t o s name put groups = .ok r) :
    Agreed t o { s with registry := r } := by
  obtain ⟨_, hinstalled, hwrite⟩ := bind_eq_ok.mp hwrite
  obtain ⟨entries, hentries, hwrite⟩ := bind_eq_ok.mp hwrite
  obtain ⟨offered, hoffered, hwrite⟩ := bind_eq_ok.mp hwrite
  obtain ⟨rows, hrows, hwrite⟩ := bind_eq_ok.mp hwrite
  have hall := foldlM_invariant (P := fun rows : List GroupRow =>
    ∀ row ∈ rows, ∀ x ∈ row.endpoints, x ∈ offered) hrows (by simp)
    fun group _ _ _ hb hstep => readGroup_available hstep hb
  intro other
  change Kept t o s.backends (r.entry other)
  rw [Entry.permissions_entry hwrite]
  split
  · subst other
    refine ⟨(h name).installed, fun hne => ?_, fun p hp x hx => ?_⟩
    · have hentries' : entries ≠ [] := by
        rintro rfl
        cases hrows
        simp [Entry.declaredCapabilities, Entry.declaredOperations] at hne
      obtain hput | hput := hput
      · have hsome := failIf_eq_ok.mp hinstalled
        obtain ⟨p, hp⟩ := Option.ne_none_iff_exists'.mp fun hnone => hsome ⟨hput, hnone⟩
        rw [Option.filter_eq_some_iff] at hp
        exact ⟨p, hp.1, hp.2⟩
      · rw [hput, orElse_eq_ok] at hentries
        cases hentries
        exact absurd rfl hentries'
    · obtain ⟨row, hrow, y, hy, rfl⟩ := mem_declaredOperations.mp hx
      have hy := hall row hrow y hy
      change s.registry.package name = some p at hp
      split at hoffered
      · rename_i q hq
        rw [Option.filter_eq_some_iff, hp] at hq
        obtain ⟨hq, hlib⟩ := hq
        cases hq
        split at hoffered
        · exact available_described hfaithful h hp hlib hoffered hy
        · cases hoffered
          cases hy
      · cases hoffered
        cases hy
  · exact h other

theorem Agreed.prepared (hfaithful : Faithful t.parse o) (h : Agreed t o s) {event : Event}
    (hprepared : prepared t o s event = .ok s') : s' = s := by
  cases event with
  | install docs sandbox now =>
      obtain ⟨_, -, hprepared⟩ := bind_eq_ok.mp hprepared
      obtain ⟨r, hr, hprepared⟩ := bind_eq_ok.mp hprepared
      cases hprepared
      rw [Installation.migrateRegistration_eq (h.placed hfaithful) hr]
  | remove id =>
      obtain ⟨_, -, hprepared⟩ := bind_eq_ok.mp hprepared
      obtain ⟨r, hr, hprepared⟩ := bind_eq_ok.mp hprepared
      cases hprepared
      rw [Installation.migrateRegistration_eq (h.placed hfaithful) hr]
  | put | delete =>
      cases hprepared
      rfl

theorem Agreed.transaction (hfaithful : Faithful t.parse o) (h : Agreed t o s) {event : Event}
    (hstep : transaction t o s event = .ok s') : Agreed t o s' := by
  cases event with
  | install docs sandbox now =>
      obtain ⟨tx, htx, hs⟩ := bind_eq_ok.mp hstep
      cases hs
      exact h.install htx
  | remove id =>
      rw [CapabilityDeclarations.transaction] at hstep
      split at hstep
      · obtain ⟨r, hr, hs⟩ := bind_eq_ok.mp hstep
        cases hs
        exact h.remove hr
      · cases hstep
        exact h
  | put name groups =>
      obtain ⟨r, hr, hs⟩ := bind_eq_ok.mp hstep
      cases hs
      exact h.write hfaithful (.inl rfl) hr
  | delete name =>
      obtain ⟨r, hr, hs⟩ := bind_eq_ok.mp hstep
      cases hs
      exact h.write hfaithful (.inr rfl) hr

theorem Agreed.next (hfaithful : Faithful t.parse o) (h : Agreed t o s) (event : Event) :
    Agreed t o (next t o s event) := by
  rw [CapabilityDeclarations.next]
  split
  · exact h
  · rename_i s₁ hprepared
    rw [h.prepared hfaithful hprepared]
    split
    · exact h
    · exact h.transaction hfaithful ‹_›

theorem agreed_empty : Agreed t o .empty := by
  intro name
  exact ⟨by simp [State.empty, Registry.empty, Registry.entry, package, Rows.select],
    by simp [State.empty, Registry.empty, Registry.entry],
    by simp [State.empty, Registry.empty, Registry.entry]⟩

theorem agreed_run (hfaithful : Faithful t.parse o) (es : List Event) : Agreed t o (run t o es) := by
  induction es using List.reverseRecOn with
  | nil => exact agreed_empty
  | append_singleton es event ih =>
      rw [run, List.foldl_concat]
      exact ih.next hfaithful event

theorem Agreed.consistent (h : Agreed t o s) : Consistent t o s where
  capabilities c hc :=
    (h c.libName).owned (.inl (List.ne_nil_of_mem (Entry.mem_capabilities.mpr ⟨hc, rfl⟩)))
  operations x hx := by
    have hmem := Entry.mem_operations.mpr ⟨hx, rfl⟩
    obtain ⟨p, hp, hlib⟩ := (h x.libName).owned (.inr (List.ne_nil_of_mem hmem))
    exact ⟨p, hp, hlib, (h x.libName).described p hp x hmem⟩
  routes x hx y hy := List.inj_on_of_nodup_map s.registry.valid.operationKeys hx hy
  parents := s.registry.valid.parents

theorem rows_owner (hfaithful : Faithful t.parse o) (hcomes : Comes t o files m rel)
    {rows : List GroupRow} (hrows : groupRows rel = .ok rows) :
    ∀ row ∈ rows, ∀ y ∈ row.endpoints, ownerOf (chars y.2) = chars rel.id.name := by
  cases hlib : rel.hasLib with
  | false =>
      rw [groupRows, hlib] at hrows
      cases hrows
      simp
  | true =>
      obtain ⟨raw, paths, document, hopened⟩ :=
        opened_of_accepted (accepted_of_validateContents hcomes.accepted) (hcomes.hasLib ▸ hlib)
      obtain ⟨gs, -, hperm, hmapped⟩ := hcomes.rows hopened
      rw [hmapped] at hrows
      cases hrows
      rw [show rel.id.name = m.name from congrArg Id.name hcomes.id]
      exact hopened.owner hfaithful hcomes.id hperm

theorem owned_congr (h : Owned r) (hoperations : r'.operations = r.operations) : Owned r' := by
  intro x hx
  exact h x (hoperations ▸ hx)

theorem owned_save (hfaithful : Faithful t.parse o) {now : Int} (hcomes : Comes t o files m rel)
    (h : Owned r) (hsave : saveRegistration r rel now = .ok r') : Owned r' := by
  obtain ⟨rows, hrows, hentry⟩ := Entry.saveRegistration_entry hsave
  intro x hx
  have hmem := Entry.mem_operations.mpr ⟨hx, rfl⟩
  rw [hentry] at hmem
  split at hmem
  · rename_i hname
    obtain ⟨row, hrow, y, hy, hxy⟩ := mem_declaredOperations.mp hmem
    have howner := rows_owner hfaithful hcomes hrows row hrow y hy
    rw [← hname] at howner
    rw [show x.path = y.2 from congrArg LibCapabilityOperation.path hxy]
    exact howner
  · exact h x (Entry.mem_operations.mp hmem).1

theorem Midway.owned (hfaithful : Faithful t.parse o) (hagreed : Agreed t o s)
    (h : Midway t o s r) : Owned r := by
  obtain ⟨hprepared, hexamine, hsplit, hdelete, hsave⟩ := h
  rw [hagreed.prepared hfaithful hprepared] at hexamine hdelete
  have hdeleted := foldlM_invariant (P := Owned) hdelete (hagreed.owned hfaithful)
    fun rel _ _ _ hb hstep => owned_congr hb (deleteDependencies_eq hstep).2.2.2
  refine foldlM_invariant (P := Owned) hsave hdeleted fun rel hrel _ _ hb hstep => ?_
  obtain ⟨files, m, hcomes, -⟩ := comes_of_batch hexamine
    (hsplit ▸ List.mem_append.mpr (.inl hrel))
  exact owned_save hfaithful hcomes hb hstep

theorem owned_beforeGroups {now : Int} (h : Owned r) (hbefore : beforeGroups r rel now = .ok r') :
    Owned r' := by
  obtain ⟨_, -, hbefore⟩ := bind_eq_ok.mp hbefore
  obtain ⟨_, -, hbefore⟩ := bind_eq_ok.mp hbefore
  obtain ⟨_, -, hbefore⟩ := bind_eq_ok.mp hbefore
  obtain ⟨r₁, h₁, hbefore⟩ := bind_eq_ok.mp hbefore
  obtain ⟨r₂, h₂, hbefore⟩ := bind_eq_ok.mp hbefore
  have howned₁ := owned_congr h (upsertPackage_rest h₁).2.2
  have howned₂ := owned_congr howned₁ (deleteDependencies_eq h₂).2.2.2
  refine foldlM_invariant (P := Owned) hbefore howned₂ fun dep _ _ _ hb hstep => ?_
  obtain ⟨_, -, hstep⟩ := bind_eq_ok.mp hstep
  obtain ⟨_, -, hstep⟩ := bind_eq_ok.mp hstep
  exact owned_congr hb (insertDependency_eq hstep).2.2.2

theorem sound_nil (name : String) : Sound name [] :=
  ⟨List.nodup_nil, by simp, List.nodup_nil, by simp, by simp⟩

theorem saves_iff (hfaithful : Faithful t.parse o) (hcomes : Comes t o files m rel)
    (howned : Owned r) : Saves rel r ↔ PlainTitles t o files := by
  have haccepted := accepted_of_validateContents hcomes.accepted
  cases hlib : rel.hasLib with
  | false =>
      have hnone : files.lookup "backend.wasm" = none := by
        rw [← Option.not_isSome_iff_eq_none, ← (packageMetadata_spec haccepted.metadata).2.1,
          ← hcomes.hasLib, hlib]
        simp
      have hdocument : documentOf o t.parse files = .error (invalid "package has no backend") := by
        rw [CapabilityRows.documentOf, packageOpenapi, hnone]
        rfl
      refine iff_of_true ?_ fun document h => ?_
      · obtain ⟨r', h'⟩ := permissions_ok_iff.mpr (declaring_valid howned (sound_nil rel.id.name))
        exact ⟨[], r', by rw [groupRows, hlib]; rfl, h'⟩
      · rw [hdocument] at h
        cases h
  | true =>
      obtain ⟨raw, paths, document, hopened⟩ := opened_of_accepted haccepted (hcomes.hasLib ▸ hlib)
      obtain ⟨gs, -, hperm, hrows⟩ := hcomes.rows hopened
      have hname : rel.id.name = m.name := congrArg Id.name hcomes.id
      have hplain : PlainTitles t o files ↔ ∀ entry ∈ groupsOf document, Plain entry.2 := by
        constructor
        · intro h
          exact h document hopened.documentOf
        · intro h document' hdocument'
          rw [hopened.documentOf] at hdocument'
          cases hdocument'
          exact h
      rw [hplain]
      constructor
      · rintro ⟨rows, r', hrows', hsaved⟩
        rw [hrows] at hrows'
        cases hrows'
        have hchecks : ∀ row ∈ gs.map (rowOf rel),
            (LibCapability.mk rel.id.name row.id row.title).checks = true := by
          intro row hrow
          refine r'.valid.capabilityChecks _ ?_
          rw [permissions_tables hsaved]
          exact List.mem_append.mpr (.inr (List.mem_map_of_mem hrow))
        exact (titles_checked hfaithful hopened hperm rel.id.name).mp hchecks
      · intro h
        have hsound := hopened.sound hfaithful hcomes.id hperm h
        rw [← hname] at hsound
        obtain ⟨r', h'⟩ := permissions_ok_iff.mpr (declaring_valid howned hsound)
        exact ⟨_, r', hrows, h'⟩

end

/-- After every run the declarations agree with the installed packages, and whenever a package is
saved its groups violate no constraint, just if all of its titles are plain. -/
theorem capability_declarations (t : Trust) (o : Parser) (hfaithful : Faithful t.parse o)
    (es : List Event) : Consistent t o (run t o es) ∧
      ∀ r, Midway t o (run t o es) r → ∀ files m rel now r₁, Comes t o files m rel →
        beforeGroups r rel now = .ok r₁ → (Saves rel r₁ ↔ PlainTitles t o files) := by
  have hagreed := agreed_run (t := t) hfaithful es
  refine ⟨hagreed.consistent, fun r hr files m rel now r₁ hcomes hbefore => ?_⟩
  exact saves_iff hfaithful hcomes (owned_beforeGroups (hr.owned hfaithful hagreed) hbefore)

/-- The document of a lib whose only group has this title. -/
def titledDocument (title : String) : Json :=
  .obj [("openapi", .str "3.1.0"), ("info", .obj [("title", .str "API"), ("version", .str "1.0.0")]),
    ("x-access-groups", .obj [("readers", .obj [("title", .str title),
      ("operations", .arr [.str "list"])])]),
    ("paths", .obj [("/items", .obj [("get", .obj [("operationId", .str "list"),
      ("summary", .str "List"), ("x-access-group", .str "readers")])])])]

def titledTrust (title : String) : Trust :=
  { EvidenceBinding.sampleTrust with
    parse := fun data => if data = [4] then some (titledDocument title)
      else EvidenceBinding.sampleParse data
    wazRead := fun _ => .ok [("backend.wasm", magic ++ [4]), ("manifest.json", [1]),
      ("signature.json", [2])] }

def titledParser : Parser where
  parts backend := [some ⟨.version true, none⟩,
    some ⟨.custom openApiName (backend.drop 8) (backend.length + 16), some (backend.length + 16)⟩]
  openApi raw := if raw = [4] then .ok ⟨"3.1.0", some [("/items", ⟨false, [("GET", some "list")]⟩)]⟩
    else .error "invalid document"
  text _ := "\x7b\x7d"
  grantee _ := true
  effect _ := true
  verifySignature _ _ _ _ := .ok ()

def titledInstall : Event :=
  .install [EvidenceBinding.sampleDocument] .empty fun _ => 100

def grants : Json :=
  .arr [.obj [("id", .str "all"), ("title", .str "All"),
    ("endpoints", .arr [.obj [("method", .str "GET"), ("path", .str "/base/items")]])]]

def operationsOf (s : State) : List (String × String × String) :=
  s.registry.operations.map fun x => (x.capabilityId, x.method, x.path)

theorem titled_faithful (title : String) : Faithful (titledTrust title).parse titledParser := by
  have hparse (raw : Bytes) : (titledTrust title).parse raw = if raw = [4] then
    some (titledDocument title) else EvidenceBinding.sampleParse raw := rfl
  have hopen {raw : Bytes} {version : String} {paths : List (String × PathItem)}
      (h : titledParser.openApi raw = .ok ⟨version, some paths⟩) : raw = [4] ∧
        paths = [("/items", ⟨false, [("GET", some "list")]⟩)] := by
    rw [show titledParser.openApi raw = if raw = [4] then
      .ok ⟨"3.1.0", some [("/items", ⟨false, [("GET", some "list")]⟩)]⟩
      else .error "invalid document" from rfl] at h
    split at h
    · cases h
      exact ⟨‹_›, rfl⟩
    · cases h
  constructor
  · intro raw v h
    rw [hparse, EvidenceBinding.sampleParse] at h
    split at h
    · cases h
      rfl
    · split at h
      · cases h
        rfl
      · split at h
        · cases h
          rfl
        · split at h
          · cases h
            rfl
          · cases h
  · intro fields
    have hbraces : "\x7b\x7d".toList.head? = some '{' := by decide
    exact hbraces
  · intro raw version paths document h hdocument path hpath
    obtain ⟨rfl, rfl⟩ := hopen h
    cases hdocument
    rw [show path = _ from List.mem_singleton.mp hpath]
    exact List.mem_singleton_self _
  · intro raw version paths document h hdocument path hpath operation hoperation
    obtain ⟨rfl, rfl⟩ := hopen h
    cases hdocument
    obtain rfl := List.mem_singleton.mp hpath
    obtain rfl := List.mem_singleton.mp hoperation
    exact ⟨_, List.mem_singleton_self _, "get", by decide, rfl, by decide⟩

theorem capability_declarations_run :
    Faithful (titledTrust "Readers").parse titledParser ∧
      operationsOf (run (titledTrust "Readers") titledParser [titledInstall]) =
        [("readers", "GET", "/base/items")] ∧
      operationsOf (run (titledTrust "Readers") titledParser [titledInstall, .put "base" grants]) =
        [("all", "GET", "/base/items")] ∧
      Consistent (titledTrust "Readers") titledParser
        (run (titledTrust "Readers") titledParser [titledInstall, .put "base" grants]) := by
  have hfaithful := titled_faithful "Readers"
  refine ⟨hfaithful, by decide +kernel, by decide +kernel, ?_⟩
  exact (capability_declarations _ _ hfaithful [titledInstall, .put "base" grants]).1

/-- The saving of the first package of a batch, up to whether its groups are taken. -/
def firstSave (t : Trust) (o : Parser) (docs : List Document) (now : String → Int) :
    Except Error Bool := do
  let s ← prepared t o .empty (.install docs .empty now)
  let changed ← examineAll t.normalizeName s.registry .empty [] (itemsOf t o docs)
  let r ← changed.foldlM (fun r rel => r.deleteDependencies rel.id.name) s.registry
  let rel ← orElse changed.head? (.badRequest "empty batch")
  let r ← beforeGroups r rel (now rel.id.name)
  let rows ← groupRows rel
  .ok (permissions r rel.id.name rows).isOk

/-- A package whose title begins with a NUL character is accepted, but its groups are refused. -/
theorem nul_title_refused :
    ¬∀ t o, Faithful t.parse o → ∀ es, Consistent t o (run t o es) ∧
      ∀ r, Midway t o (run t o es) r → ∀ files m rel now r₁, Comes t o files m rel →
        beforeGroups r rel now = .ok r₁ → Saves rel r₁ := by
  intro h
  have hrun : firstSave (titledTrust "\x00") titledParser [EvidenceBinding.sampleDocument]
      (fun _ => 100) = .ok false := by
    decide +kernel
  obtain ⟨s, hs, hrun⟩ := bind_eq_ok.mp hrun
  obtain ⟨changed, hchanged, hrun⟩ := bind_eq_ok.mp hrun
  obtain ⟨r, hr, hrun⟩ := bind_eq_ok.mp hrun
  obtain ⟨rel, hrel, hrun⟩ := bind_eq_ok.mp hrun
  obtain ⟨r₁, hr₁, hrun⟩ := bind_eq_ok.mp hrun
  obtain ⟨rows, hrows, hrun⟩ := bind_eq_ok.mp hrun
  have hmem : rel ∈ changed := List.mem_of_head? (orElse_eq_ok.mp hrel)
  obtain ⟨files, m, hcomes, -⟩ := comes_of_batch hchanged hmem
  have hmidway : Midway (titledTrust "\x00") titledParser
      (run (titledTrust "\x00") titledParser []) r :=
    .intro hs hchanged (List.nil_append changed).symm hr rfl
  obtain ⟨rows', r', hrows', hsaved⟩ := (h _ _ (titled_faithful "\x00") []).2 r hmidway files m rel
    100 r₁ hcomes hr₁
  rw [hrows] at hrows'
  cases hrows'
  rw [hsaved] at hrun
  cases hrun

end Pishoo.CapabilityDeclarations
