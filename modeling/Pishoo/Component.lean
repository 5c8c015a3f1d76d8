import Pishoo.PathText
import Pishoo.Publication

namespace Pishoo.Component

open Result Publication PathText

/-- What the WebAssembly parser yields. A custom section ends at `finish`. -/
inductive Payload
  | version (component : Bool)
  | module
  | component
  | «end»
  | custom (name : String) (data : Bytes) (finish : Nat)
  | other

/-- A payload, and where it ends if it is a section. -/
structure Part where
  payload : Payload
  sectionEnd : Option Nat

/-- A path item: whether it is a reference, and its operations with their ids. The methods are in
upper case. -/
structure PathItem where
  reference : Bool
  methods : List (String × Option String)
  deriving DecidableEq

structure OpenApi where
  version : String
  paths : Option (List (String × PathItem))

/-- The code that looks into a component and is not Pishoo's own. `parts` ends with nothing at the
first malformed part; `text` writes a value as JSON. -/
structure Parser where
  parts : Bytes → List (Option Part)
  openApi : Bytes → Except String OpenApi
  text : Json → String
  grantee : String → Bool
  effect : String → Bool
  verifySignature : Bytes → Nat → Bytes → Bytes → Except Error Unit

def validPath (path : String) : Bool :=
  let p := chars path
  p.head? == some '/' && !(p.zip p.tail).contains ('/', '/') &&
    !p.any (fun c => c == '?' || c == '#' || c == '%' || c == '\\') &&
    !(p.splitOn '/').any (fun part => part == ['.'] || part == ['.', '.']) &&
    !p.any (fun c => whitespace c || control c)

def readId (ids : List String) (operation : String × Option String) : Except Error (List String) :=
  match operation.2 with
  | none => .ok ids
  | some id => if id ∈ ids then .error (invalid "duplicate operationId") else .ok (ids ++ [id])

def supported (ids : List String) (path : String × PathItem) : Except Error (List String) := do
  failIf (validPath path.1 = false ∨ '{' ∈ chars path.1 ∨ '}' ∈ chars path.1)
    (invalid "unsupported API path")
  failIf (path.2.reference = true) (invalid "path-level references are unsupported")
  path.2.methods.foldlM readId ids

/-- The paths of a document that is accepted. -/
def validateOpenapi (o : Parser) (raw : Bytes) : Except Error (List (String × PathItem)) := do
  failIf (1024 * 1024 < raw.length) (invalid "OpenAPI exceeds 1 MiB")
  let api ← (o.openApi raw).mapError invalid
  failIf ((chars api.version).take 4 ≠ chars "3.1.") (invalid "only OpenAPI 3.1.x is supported")
  let paths ← orElse api.paths (invalid "missing OpenAPI paths")
  let _ ← paths.foldlM supported []
  .ok paths

/-- The state of the loop over the parts: how deep it is, and the document if it has been seen. -/
structure Scan where
  depth : Nat
  document : Option Bytes

def openApiName : String := "pishoo:openapi"

def signatureName : String := "pishoo:signature"

def deeper (depth : Nat) : Payload → Nat
  | .module => depth + 1
  | .component => depth + 1
  | .end => depth - 1
  | _ => depth

def scanPart (scan : Scan) (part : Option Part) : Except Error Scan :=
  match part with
  | none => .error (invalid "malformed backend")
  | some part => match part.payload with
    | .custom name data _ =>
        if name = openApiName then
          if scan.depth ≠ 0 ∨ scan.document.isSome ∨ 1024 * 1024 < data.length then
            .error (invalid "OpenAPI must be a unique bounded top-level section")
          else .ok { scan with document := some data }
        else .ok scan
    | payload => .ok { scan with depth := deeper scan.depth payload }

def packageOpenapi (o : Parser) (files : Files) : Except Error Bytes := do
  let backend ← orElse (files.lookup "backend.wasm") (invalid "package has no backend")
  let scan ← (o.parts backend).foldlM scanPart ⟨0, none⟩
  orElse scan.document (invalid "missing embedded OpenAPI")

/-- The state of the loop of `validate_lib`. -/
structure LibScan extends Scan where
  component : Bool
  sectionEnd : Nat
  signature : Option (Nat × Bytes)

def scanLibPart (size : Nat) (scan : LibScan) (part : Option Part) : Except Error LibScan :=
  match part with
  | none => .error (invalid "malformed component")
  | some part => do
      let next := if scan.depth = 0 then part.sectionEnd else none
      let scan ← (match part.payload with
        | .version component =>
            .ok { scan with component := scan.component || (component && scan.depth == 0) }
        | .custom name data finish =>
            if name = openApiName then
              if scan.depth ≠ 0 then .ok scan
              else if scan.document.isSome then
                .error (invalid "duplicate pishoo:openapi section")
              else if 1024 * 1024 < data.length then .error (invalid "OpenAPI exceeds 1 MiB")
              else .ok { scan with document := some data }
            else if name = signatureName then
              if scan.depth ≠ 0 ∨ scan.signature.isSome ∨ finish ≠ size ∨ 64 * 1024 < data.length then
                .error (invalid "signature must be a unique bounded final section")
              else .ok { scan with signature := some (scan.sectionEnd, data) }
            else .ok scan
        | payload => .ok { scan with depth := deeper scan.depth payload })
      .ok { scan with sectionEnd := next.getD scan.sectionEnd }

def validateLib (o : Parser) (bytes : Bytes) : Except Error (List (String × PathItem)) := do
  failIf (64 * 1024 * 1024 < bytes.length) (invalid "component exceeds 64 MiB")
  let scan ← (o.parts bytes).foldlM (scanLibPart bytes.length) ⟨⟨0, none⟩, false, 8, none⟩
  failIf (scan.component = false) (invalid "lib.wasm must be a component")
  let document ← orElse scan.document (invalid "missing pishoo:openapi section")
  match scan.signature with
  | none => .ok ()
  | some (signedEnd, envelope) => o.verifySignature bytes signedEnd envelope document
  validateOpenapi o document

def methods : List String := ["get", "head", "post", "put", "patch", "delete", "options", "trace"]

def fieldsOf : Json → Option (List (String × Json))
  | .obj fields => some fields
  | _ => none

/-- A declaration under its own name or under its legacy name, but not under both. -/
def declared (own legacy : Option Json) (message : String) : Except Error (Option Json) :=
  if own.isSome ∧ legacy.isSome then .error (invalid message) else .ok (own.or legacy)

def accessGroups (document : Json) : Option Json :=
  (document.find "x-access-groups").or ((document.get "x-pishoo").find "access-groups")

def accessGroup (operation : Json) : Option Json :=
  (operation.find "x-access-group").or ((operation.get "x-pishoo").find "access-group")

def mounted (path : String) : Bool :=
  below (chars "/api") (chars path) || below (chars "/app") (chars path)

def readRule (o : Parser) (grantees : List String) (rule : Json) : Except Error (List String) := do
  failIf ((keys rule).map List.length ≠ some 2)
    (invalid "initial-access requires only grantee and effect")
  let grantee ← Publication.text rule "grantee"
  failIf (o.grantee grantee = false) (invalid "invalid grantee")
  let effect ← Publication.text rule "effect"
  failIf (o.effect effect = false) (invalid "invalid effect")
  failIf (grantee ∈ grantees) (invalid "duplicate initial-access grantee")
  .ok (grantees ++ [grantee])

def checkInitialAccess (o : Parser) (initial : Json) : Except Error Unit := do
  let rules ← orElse (asArr initial) (invalid "initial-access must be an array")
  let grantees ← rules.foldlM (readRule o) []
  failIf ("*?" ∈ grantees ∧ ("**" ∈ grantees ∨ "?" ∈ grantees))
    (invalid "conflicting wildcard grantees")

/-- The ids of the operations, and the group of each one that has a group. -/
structure Operations where
  ids : List String
  annotated : List (String × String)

def readOperation (o : Parser) (acc : Operations) (operation : Json) : Except Error Operations := do
  let id ← Publication.text operation "operationId"
  let _ ← Publication.text operation "summary"
  failIf (id ∈ acc.ids) (invalid "duplicate operationId")
  let extension := operation.get "x-pishoo"
  failIf ((keys extension).any (·.any fun key => key != "access-group" && key != "initial-access") =
    true) (invalid "template operations are unsupported")
  let group ← declared (operation.find "x-access-group") (extension.find "access-group")
    "duplicate access-group declarations"
  let annotated ← (match group with
    | none => .ok acc.annotated
    | some group => do
        let group ← orElse (group.asStr.filter validName) (invalid "invalid access-group")
        .ok (acc.annotated ++ [(group, id)]))
  match extension.find "initial-access" with
  | none => .ok ()
  | some initial => checkInitialAccess o initial
  .ok ⟨acc.ids ++ [id], annotated⟩

def readPath (o : Parser) (acc : Operations) (path : String × Json) : Except Error Operations := do
  failIf (mounted path.1 = true) (invalid "business API cannot contain host mounting prefixes")
  (methods.filterMap path.2.find).foldlM (readOperation o) acc

def checkTitle (group : Json) : Except Error Unit :=
  match fieldsOf (group.get "title") with
  | some titles => do
      failIf (titles.length ≠ 2 ∨ "en" ∉ titles.map Prod.fst ∨ "zh-CN" ∉ titles.map Prod.fst)
        (invalid "localized group title requires en and zh-CN")
      let _ ← Publication.text (group.get "title") "en"
      let _ ← Publication.text (group.get "title") "zh-CN"
      .ok ()
  | none => do
      let _ ← Publication.text group "title"
      .ok ()

/-- The groups: the members of each, all members, and whether one has the app. -/
structure Groups where
  declared : List (String × String)
  app : Bool

def readMember (ids : List String) (name : String) (members : List (String × String))
    (member : Json) : Except Error (List (String × String)) := do
  let id ← orElse (member.asStr.filter ids.contains) (invalid "unknown group operation")
  failIf (id ∈ members.map Prod.snd) (invalid "overlapping or duplicate group operation")
  .ok (members ++ [(name, id)])

def asksForApp (group : Json) : Bool := group.get "app" == .bool true

def readGroup (ids : List String) (acc : Groups) (entry : String × Json) : Except Error Groups := do
  failIf (validName entry.1 = false) (invalid "invalid group name")
  checkTitle entry.2
  failIf (((entry.2.find "app").any fun app => app != .bool true && app != .bool false) = true)
    (invalid "group app must be a boolean")
  failIf (asksForApp entry.2 = true ∧ acc.app = true) (invalid "app entry belongs to multiple groups")
  let members ← orElse ((asArr (entry.2.get "operations")).filter fun v => !v.isEmpty)
    (invalid "group must contain operations")
  let declared ← members.foldlM (readMember ids entry.1) acc.declared
  .ok ⟨declared, acc.app || asksForApp entry.2⟩

def validateDeclarations (o : Parser) (document : Json) : Except Error Unit := do
  let _ ← Publication.text (document.get "info") "title"
  let extension := document.get "x-pishoo"
  failIf ((extension.find "templates").isSome = true)
    (invalid "external templates are not part of store v1")
  failIf ((keys extension).any (·.any fun key => key != "access-groups") = true)
    (invalid "OpenAPI cannot declare package metadata")
  let groups ← declared (document.find "x-access-groups") (extension.find "access-groups")
    "duplicate access-groups declarations"
  let paths ← orElse (fieldsOf (document.get "paths")) (invalid "paths must be an object")
  let operations ← paths.foldlM (readPath o) ⟨[], []⟩
  let groups ← (match groups with
    | none => .ok ⟨[], false⟩
    | some groups => do
        let entries ← orElse (fieldsOf groups) (invalid "access-groups must be an object")
        entries.foldlM (readGroup operations.ids) ⟨[], false⟩)
  failIf (groups.declared.all operations.annotated.contains = false ∨
    operations.annotated.all groups.declared.contains = false)
    (invalid "access-groups disagree with operation annotations")

def magic : Bytes := [0, 97, 115, 109, 13, 0, 1, 0]

def checkPart (part : Option Part) : Except Error Unit :=
  match part with
  | none => .error (invalid "malformed backend")
  | some part => match part.payload with
    | .custom name _ _ => failIf (name = signatureName)
        (invalid "backend must not embed a second publisher signature")
    | _ => .ok ()

def reservedPaths : List Text :=
  ["/acl", "/contact", "/contacts", "/sys", "/pishoo", "/file", "/dhttp"].map chars

/-- The paths that a standard lib must leave to the native services. -/
def reservedPath (path : String) : Bool :=
  reserved (chars path) || reservedPaths.any fun start => below start (chars path)

def checkStandardPaths (metadata : Metadata) (paths : List (String × PathItem)) :
    Except Error Unit := do
  failIf ((paths.any fun p => reservedPath p.1) = true)
    (invalid "standard Lib conflicts with a reserved API path")
  failIf ((paths.any fun p => !below ('/' :: chars metadata.name) (chars p.1)) = true)
    (invalid "standard Lib paths must stay under its package name")

def checkBackend (o : Parser) (parse : Bytes → Option Json) (metadata : Metadata) (files : Files)
    (backend : Bytes) : Except Error Unit := do
  failIf (backend.take 8 ≠ magic) (invalid "backend must be a WASM component")
  (o.parts backend).forM checkPart
  let raw ← packageOpenapi o files
  let paths ← validateOpenapi o raw
  doIf (isStandardAuthor metadata.publisher = true) (checkStandardPaths metadata paths)
  let document ← orElse (parse raw) (invalid "invalid OpenAPI JSON")
  failIf ((document.get "info").get "version" ≠ .str metadata.version)
    (invalid "OpenAPI version differs from package version")
  validateDeclarations o document
  failIf (metadata.hasApp = false ∧ (((accessGroups document).bind fieldsOf).any fun groups =>
    groups.any fun group => asksForApp group.2) = true)
    (invalid "app capability requires this package's public resources")

def validateComponent (o : Parser) (parse : Bytes → Option Json) (metadata : Metadata)
    (files : Files) : Except Error Unit :=
  match files.lookup "backend.wasm" with
  | none => .ok ()
  | some backend => checkBackend o parse metadata files backend

def validateContents (t : Trust) (o : Parser) (files : Files) : Except Error Metadata := do
  let metadata ← packageMetadata t files
  failIf (metadata.name = "std") (invalid "package name conflicts with the native std namespace")
  failIf (metadata.name = "app" ∧ metadata.hasLib = true ∧
    isStandardAuthor metadata.publisher = false)
    (invalid "ordinary Lib name conflicts with the frontend app namespace")
  validateComponent o t.parse metadata files
  .ok metadata

/-- The trust whose look into the component is this one. -/
def withParser (t : Trust) (o : Parser) : Trust where
  __ := t
  validateComponent files := do
    let metadata ← packageMetadata t files
    validateComponent o t.parse metadata files

theorem packageMetadata_withParser (t : Trust) (o : Parser) (files : Files) :
    packageMetadata (withParser t o) files = packageMetadata t files :=
  rfl

theorem validateContents_withParser (t : Trust) (o : Parser) (files : Files) :
    Publication.validateContents (withParser t o) files = validateContents t o files := by
  rw [Publication.validateContents, validateContents, packageMetadata_withParser]
  cases h : packageMetadata t files with
  | error e => rfl
  | ok metadata =>
      have hcomponent : (withParser t o).validateComponent files =
          validateComponent o t.parse metadata files := by
        change (packageMetadata t files >>= fun m => validateComponent o t.parse m files) = _
        rw [h, ok_bind]
      simp only [ok_bind, hcomponent]

section

variable {t : Trust} {o : Parser} {parse : Bytes → Option Json} {files : Files} {m : Metadata}
  {backend raw : Bytes} {paths : List (String × PathItem)}

theorem packageMetadata_spec (h : packageMetadata t files = .ok m) :
    validName m.name = true ∧ m.hasLib = (files.lookup "backend.wasm").isSome ∧
      m.hasApp = files.any fun f => f.1.startsWith "public/" := by
  obtain ⟨data, -, h⟩ := bind_eq_ok.mp h
  obtain ⟨manifest, -, h⟩ := bind_eq_ok.mp h
  obtain ⟨_, -, h⟩ := bind_eq_ok.mp h
  obtain ⟨_, -, h⟩ := bind_eq_ok.mp h
  obtain ⟨publisher, -, h⟩ := bind_eq_ok.mp h
  obtain ⟨name, -, h⟩ := bind_eq_ok.mp h
  obtain ⟨_, hid, h⟩ := bind_eq_ok.mp h
  obtain ⟨_, -, h⟩ := bind_eq_ok.mp h
  obtain ⟨version, -, h⟩ := bind_eq_ok.mp h
  obtain ⟨_, -, h⟩ := bind_eq_ok.mp h
  obtain ⟨values, -, h⟩ := bind_eq_ok.mp h
  obtain ⟨dependencies, -, h⟩ := bind_eq_ok.mp h
  obtain ⟨_, hruntime, h⟩ := bind_eq_ok.mp h
  obtain ⟨title, -, h⟩ := bind_eq_ok.mp h
  obtain ⟨description, -, h⟩ := bind_eq_ok.mp h
  obtain ⟨license, -, h⟩ := bind_eq_ok.mp h
  obtain ⟨changelog, -, h⟩ := bind_eq_ok.mp h
  obtain ⟨repository, -, h⟩ := bind_eq_ok.mp h
  cases h
  have hnot := failIf_eq_ok.mp hruntime
  simp only [not_or, ne_eq, not_not] at hnot
  refine ⟨?_, hnot.2.2.1, hnot.2.2.2.1⟩
  have hvalid := not_not.mp (failIf_eq_ok.mp hid)
  rw [validId] at hvalid
  split at hvalid
  · cases hvalid
  · split at hvalid
    · assumption
    · cases hvalid

/-- What the checks of a backend have found out. -/
structure Checked (o : Parser) (parse : Bytes → Option Json) (m : Metadata) (raw : Bytes)
    (paths : List (String × PathItem)) : Prop where
  openApi : validateOpenapi o raw = .ok paths
  place : isStandardAuthor m.publisher = true → checkStandardPaths m paths = .ok ()
  document : ∃ document, parse raw = some document ∧ validateDeclarations o document = .ok () ∧
    (m.hasApp = false → ∀ groups, (accessGroups document).bind fieldsOf = some groups →
      ∀ group ∈ groups, asksForApp group.2 = false)

theorem checkBackend_spec (h : checkBackend o parse m files backend = .ok ()) :
    ∃ raw paths, packageOpenapi o files = .ok raw ∧ Checked o parse m raw paths := by
  obtain ⟨_, -, h⟩ := bind_eq_ok.mp h
  obtain ⟨_, -, h⟩ := bind_eq_ok.mp h
  obtain ⟨raw, hraw, h⟩ := bind_eq_ok.mp h
  obtain ⟨paths, hpaths, h⟩ := bind_eq_ok.mp h
  obtain ⟨_, hplace, h⟩ := bind_eq_ok.mp h
  obtain ⟨document, hdocument, h⟩ := bind_eq_ok.mp h
  obtain ⟨_, -, h⟩ := bind_eq_ok.mp h
  obtain ⟨_, hdeclarations, h⟩ := bind_eq_ok.mp h
  refine ⟨raw, paths, hraw, hpaths, doIf_eq_ok.mp hplace, document, orElse_eq_ok.mp hdocument,
    hdeclarations, fun happ groups hgroups group hgroup => ?_⟩
  have hnot := failIf_eq_ok.mp h
  rw [hgroups] at hnot
  simp only [not_and, Option.any_some, Bool.not_eq_true, List.any_eq_false] at hnot
  simpa using hnot happ group hgroup

/-- What is accepted of a package. -/
structure Accepted (t : Trust) (o : Parser) (files : Files) (m : Metadata) : Prop where
  metadata : packageMetadata t files = .ok m
  notStd : m.name ≠ "std"
  notApp : m.name = "app" → m.hasLib = true → isStandardAuthor m.publisher = true
  backend : files.lookup "backend.wasm" ≠ none →
    ∃ raw paths, packageOpenapi o files = .ok raw ∧ Checked o t.parse m raw paths

theorem accepted_of_validateContents (h : validateContents t o files = .ok m) :
    Accepted t o files m := by
  obtain ⟨m', hmetadata, h⟩ := bind_eq_ok.mp h
  obtain ⟨_, hstd, h⟩ := bind_eq_ok.mp h
  obtain ⟨_, happ, h⟩ := bind_eq_ok.mp h
  obtain ⟨_, hcomponent, h⟩ := bind_eq_ok.mp h
  cases h
  have happ := failIf_eq_ok.mp happ
  refine ⟨hmetadata, failIf_eq_ok.mp hstd, fun hname hlib => ?_, fun hbackend => ?_⟩
  · simpa [hname, hlib] using happ
  · obtain ⟨backend, hbackend⟩ := Option.ne_none_iff_exists'.mp hbackend
    rw [validateComponent, hbackend] at hcomponent
    exact checkBackend_spec hcomponent

theorem validateOpenapi_spec (h : validateOpenapi o raw = .ok paths) :
    (∃ version, o.openApi raw = .ok ⟨version, some paths⟩) ∧
      ∀ path ∈ paths, validPath path.1 = true ∧ path.2.reference = false := by
  obtain ⟨_, -, h⟩ := bind_eq_ok.mp h
  obtain ⟨api, hapi, h⟩ := bind_eq_ok.mp h
  obtain ⟨_, -, h⟩ := bind_eq_ok.mp h
  obtain ⟨found, hfound, h⟩ := bind_eq_ok.mp h
  obtain ⟨_, hsupported, h⟩ := bind_eq_ok.mp h
  cases h
  obtain ⟨version, found⟩ := api
  obtain rfl : found = some paths := orElse_eq_ok.mp hfound
  refine ⟨⟨version, mapError_eq_ok.mp hapi⟩, fun path hpath => ?_⟩
  obtain ⟨ids, ids', hpath⟩ := exists_of_mem_foldlM hsupported hpath
  obtain ⟨_, hvalid, hpath⟩ := bind_eq_ok.mp hpath
  obtain ⟨_, hreference, -⟩ := bind_eq_ok.mp hpath
  simp only [failIf_eq_ok, not_or] at hvalid hreference
  exact ⟨by simpa using hvalid.1, by simpa using hreference⟩

theorem Accepted.checked (h : Accepted t o files m) (hraw : packageOpenapi o files = .ok raw)
    (hpaths : validateOpenapi o raw = .ok paths) :
    m.hasLib = true ∧ Checked o t.parse m raw paths := by
  obtain ⟨backend, hbackend, -⟩ := bind_eq_ok.mp hraw
  have hsome := orElse_eq_ok.mp hbackend
  have hlib := (packageMetadata_spec h.metadata).2.1
  obtain ⟨raw', paths', hraw', hchecked⟩ := h.backend (by simp [hsome])
  rw [hraw] at hraw'
  cases hraw'
  have hopen := hchecked.openApi
  rw [hpaths] at hopen
  cases hopen
  exact ⟨by simp [hlib, hsome], hchecked⟩

end

end Pishoo.Component
