import Pishoo.Json
import Pishoo.Registration

namespace Pishoo

open Result

abbrev Bytes : Type := List UInt8

/-- The files of a package, in the order of their names. -/
abbrev Files : Type := List (String × Bytes)

/-- The DHTTP subject key identifier of a certificate chain. -/
structure KeyIdentifier where
  text : String
  ownerHash : String

/-- A parsed X.509 certificate. `names` are the DNS names of its subject alternative name. -/
structure Certificate where
  trailing : Bool
  names : Option (List String)
  serial : String
  key : Bytes

structure Url where
  scheme : String
  host : Option String
  username : String
  password : Option String

/-- The code that is not Pishoo's own: hashes, encodings, certificates and signatures. `wazRead`
gives the text of its error, `verifyChain` is the check of a developer chain against the root, and
`validateComponent` and `capabilityRows` look into the component. -/
structure Trust where
  sha256 : Bytes → Bytes
  decode : String → Option Bytes
  parse : Bytes → Option Json
  normalizeName : String → Option String
  parseUrl : String → Option Url
  wazRead : Bytes → Except String Files
  root : Bytes
  certificate : Bytes → Option Certificate
  keyIdentifier : List Bytes → Option KeyIdentifier
  verifySignature : Bytes → Bytes → Bytes → Option Bool
  verifyChain : List Bytes → String → Int → Except Error Unit
  serverAuth : List Bytes → Int → Bool
  validForName : Bytes → String → Bool
  validateComponent : Files → Except Error Unit
  capabilityRows : Files → Except Error (List AccessGroup)

def hexDigit (n : Nat) : Char := "0123456789abcdef".toList.getD n '0'

def hexByte (b : UInt8) : List Char := [hexDigit (b.toNat / 16), hexDigit (b.toNat % 16)]

def hex (bytes : Bytes) : String := String.ofList (bytes.flatMap hexByte)

theorem hexByte_injective : Function.Injective hexByte := by
  have hdigit : ∀ m : Fin 16, ∀ n : Fin 16, hexDigit m = hexDigit n → m = n := by decide
  intro a b hab
  simp only [hexByte, List.cons.injEq, and_true] at hab
  have ha := a.toNat_lt
  have hb := b.toNat_lt
  have hhigh := hdigit ⟨a.toNat / 16, by omega⟩ ⟨b.toNat / 16, by omega⟩ hab.1
  have hlow := hdigit ⟨a.toNat % 16, by omega⟩ ⟨b.toNat % 16, by omega⟩ hab.2
  simp only [Fin.mk.injEq] at hhigh hlow
  exact UInt8.toNat_inj.mp (by omega)

theorem hex_injective : Function.Injective hex := by
  intro a b hab
  have hlist : a.flatMap hexByte = b.flatMap hexByte := String.ofList_injective hab
  clear hab
  induction a generalizing b with
  | nil =>
      cases b with
      | nil => rfl
      | cons y b => simp [hexByte] at hlist
  | cons x a ih =>
      cases b with
      | nil => simp [hexByte] at hlist
      | cons y b =>
          have hboth : hexByte x = hexByte y ∧ a.flatMap hexByte = b.flatMap hexByte := by
            simpa [hexByte, and_assoc] using hlist
          rw [hexByte_injective hboth.1, ih hboth.2]

namespace Publication

def storeName : String := "store.dhttp.net"

def storeOwner : String := "ffc3e50e1dfb7baca1cc07a7cbfcf8cb34a9bf5a9c25024fcf9a9786bb230746"

def invalid (message : String) : Error := .invalidComponent message

def publicationInvalid : Error := .packagePolicy "package_publication_invalid" 422

/-- Unicode white space, as `char::is_whitespace` has it. -/
def whitespace (c : Char) : Bool :=
  let n := c.toNat
  decide (9 ≤ n ∧ n ≤ 13) || n == 0x20 || n == 0x85 || n == 0xA0 || n == 0x1680 ||
    decide (0x2000 ≤ n ∧ n ≤ 0x200A) || n == 0x2028 || n == 0x2029 || n == 0x202F || n == 0x205F ||
    n == 0x3000

/-- `ok_or_else`. -/
def orElse {α : Type} (x : Option α) (e : Error) : Except Error α :=
  match x with
  | some a => .ok a
  | none => .error e

@[simp] theorem orElse_eq_ok {α : Type} {x : Option α} {e : Error} {a : α} :
    orElse x e = .ok a ↔ x = some a := by
  cases x <;> simp [orElse]

def text (value : Json) (key : String) : Except Error String :=
  orElse (((value.get key).asStr).filter fun s => s.toList.any fun c => !whitespace c)
    (invalid s!"missing or empty {key}")

def asArr : Json → Option (List Json)
  | .arr items => some items
  | _ => none

def keys : Json → Option (List String)
  | .obj fields => some (fields.map Prod.fst)
  | _ => none

/-- Each certificate of a list, decoded. -/
def decodeAll (t : Trust) (e : Error) (certificates : List Json) : Except Error (List Bytes) :=
  certificates.mapM fun c => do
    let s ← orElse c.asStr e
    orElse (t.decode s) e

/-- What a receipt must say about a release. The keys are in their order. -/
def expectedPayload (metadata : Json) (at' : Int) : Json :=
  .obj [("author", metadata.get "author"), ("author_owner_hash", metadata.get "author_owner_hash"),
    ("format", .str "pishoo-publication/1"),
    ("issuer_id", (metadata.get "signature").get "issuer_id"),
    ("leaf_fingerprint_sha256", (metadata.get "signature").get "leaf_fingerprint_sha256"),
    ("name", metadata.get "name"), ("package_sha256", metadata.get "package_sha256"),
    ("registry", .str storeName), ("registry_owner_hash", .str storeOwner),
    ("size", metadata.get "size"), ("verified_at", .int at'),
    ("version", metadata.get "version")]

def receiptPrefix : Bytes := "pishoo-publication-receipt-v1".toUTF8.toList ++ [0]

def receiptPayload (t : Trust) (metadata : Json) : Option Bytes :=
  (((metadata.get "publication_receipt").get "payload").asStr).bind t.decode

def verifyReceiptWithRoot (t : Trust) (metadata : Json) (at' : Int) : Except Error Unit := do
  let receipt := metadata.get "publication_receipt"
  let payload ← orElse (receiptPayload t metadata) publicationInvalid
  failIf (16 * 1024 < payload.length) publicationInvalid
  let value ← orElse (t.parse payload) publicationInvalid
  failIf (value ≠ expectedPayload metadata at') publicationInvalid
  let certificates ← orElse ((asArr (receipt.get "certificates")).filter fun c =>
    2 ≤ c.length && c.length ≤ 3) publicationInvalid
  let chain ← decodeAll t publicationInvalid certificates
  failIf (chain.length = 3 ∧ chain[2]? ≠ some t.root) publicationInvalid
  failIf (t.serverAuth chain at' = false) publicationInvalid
  let leaf ← orElse chain[0]? publicationInvalid
  failIf (t.validForName leaf storeName = false) publicationInvalid
  let ski ← orElse (t.keyIdentifier chain) publicationInvalid
  failIf (ski.ownerHash ≠ storeOwner) publicationInvalid
  let certificate ← orElse (t.certificate leaf) publicationInvalid
  failIf (certificate.trailing = true) publicationInvalid
  let signature ← orElse (((receipt.get "signature").asStr).bind t.decode) publicationInvalid
  failIf (t.verifySignature certificate.key (receiptPrefix ++ payload) signature ≠ some true)
    publicationInvalid

/-- `now` is the reading of the clock. -/
def verifyReceipt (t : Trust) (now : Int) (metadata : Json) (at' : Int) : Except Error Unit := do
  failIf (at' ≤ 0 ∨ now < at' ∨ (metadata.get "signature").get "purpose" ≠ .str "code_signing")
    publicationInvalid
  verifyReceiptWithRoot t metadata at'

def publicationTime (t : Trust) (now : Int) (metadata : Json) : Except Error Int := do
  let signature := metadata.get "signature"
  let at' ← orElse (((signature.get "verified_at").asI64).filter fun at' => 0 < at' && at' ≤ now)
    .packagePolicyUpgradeRequired
  failIf (signature.get "purpose" ≠ .str "code_signing") .packagePolicyUpgradeRequired
  verifyReceipt t now metadata at'
  .ok at'

/-- The JSON document of `package_metadata`. -/
structure Metadata where
  publisher : String
  name : String
  version : String
  title : String
  description : String
  license : String
  changelog : String
  dependencies : List Dependency
  hasLib : Bool
  hasApp : Bool
  repository : Option String

def Metadata.id (m : Metadata) : Id := ⟨some m.publisher, m.name⟩

/-- Only a package with a frontend has an entry. -/
def Metadata.entry (m : Metadata) : Option Json := if m.hasApp then some (.str "/") else none

def Metadata.has (m : Metadata) : Kind → Bool
  | .lib => m.hasLib
  | .app => m.hasApp

def knownKeys (allowed : List String) (value : Json) : Bool :=
  (keys value).any fun keys => keys.all allowed.contains

def readDependency (t : Trust) (id : Id) (dependencies : List Dependency) (value : Json) :
    Except Error Dependency := do
  let author ← text value "author"
  let name ← text value "name"
  let version ← text value "version"
  let dep : Dependency := ⟨⟨some author, name⟩, version⟩
  failIf ((keys value).map List.length ≠ some 3 ∨ validId t.normalizeName dep.id ≠ .ok () ∨
    releaseVersion version = false ∨ dep.id ∈ dependencies.map Dependency.id ∨ dep.id = id)
    (invalid "invalid, duplicate or self package dependency")
  .ok dep

def readDependencies (t : Trust) (id : Id) (values : List Json) : Except Error (List Dependency) :=
  values.foldlM (fun dependencies value => do
    let dep ← readDependency t id dependencies value
    .ok (dependencies ++ [dep])) []

/-- The authority of a URL: what comes after `https://`, up to a slash, question mark or hash. -/
def authority (raw : String) : List Char :=
  (raw.toList.drop 8).takeWhile fun c => c != '/' && c != '?' && c != '#'

def readRepository (t : Trust) (value : Json) : Except Error String := do
  let raw ← orElse (value.asStr.filter fun s => s.toList.any fun c => !whitespace c)
    (invalid "repository must be a nonempty HTTPS URL")
  let url ← orElse (t.parseUrl raw) (invalid "invalid repository URL")
  failIf (url.scheme ≠ "https" ∨ url.host = none ∨
    (raw.toList.take 8).map Char.toLower ≠ "https://".toList ∨ authority raw = [] ∨
    url.username ≠ "" ∨ url.password ≠ none ∨ '@' ∈ authority raw ∨
    raw.toList.any whitespace = true)
    (invalid "repository must be an HTTPS URL with a host and without credentials")
  .ok raw

def packageMetadata (t : Trust) (files : Files) : Except Error Metadata := do
  let data ← orElse (files.lookup "manifest.json") (invalid "missing manifest.json")
  let manifest ← orElse (t.parse data) (invalid "invalid package manifest")
  failIf (manifest.get "format" ≠ .str "waz/1" ∨
    knownKeys ["format", "package", "dependencies", "backend", "frontend"] manifest = false)
    (invalid "unsupported WAZ manifest format or field")
  let package := manifest.get "package"
  failIf (knownKeys ["author", "name", "version", "title", "description", "license",
    "release-notes", "repository"] package = false) (invalid "unknown WAZ package field")
  let publisher ← text package "author"
  let name ← text package "name"
  let id : Id := ⟨some publisher, name⟩
  failIf (validId t.normalizeName id ≠ .ok ()) (invalid "invalid full package identity")
  failIf (t.normalizeName publisher ≠ some publisher) (invalid "author must be normalized")
  let version ← text package "version"
  failIf (releaseVersion version = false) (invalid "version must be MAJOR.MINOR.PATCH")
  let values ← orElse ((asArr (manifest.get "dependencies")).filter fun v => v.length ≤ 100)
    (invalid "dependencies requires an explicit array with at most 100 packages")
  let dependencies ← readDependencies t id values
  let hasLib := (manifest.find "backend").isSome
  let hasApp := (manifest.find "frontend").isSome
  failIf (hasLib = true ∧ manifest.get "backend" ≠ .str "backend.wasm" ∨
    hasApp = true ∧ manifest.get "frontend" ≠ .str "public" ∨
    hasLib ≠ (files.lookup "backend.wasm").isSome ∨
    hasApp ≠ (files.any fun f => f.1.startsWith "public/") ∨
    hasApp = true ∧ files.lookup "public/index.html" = none ∨ hasLib = false ∧ hasApp = false)
    (invalid "WAZ manifest runtime paths disagree with package files")
  let title ← text package "title"
  let description ← text package "description"
  let license ← text package "license"
  let changelog ← text package "release-notes"
  let repository ← (match package.find "repository" with
    | none => .ok none
    | some value => (readRepository t value).map some)
  .ok ⟨publisher, name, version, title, description, license, changelog, dependencies, hasLib,
    hasApp, repository⟩

def certificateRequired : Error := .packagePolicy "developer_certificate_required" 422

def envelopeOf (t : Trust) (files : Files) : Option Json :=
  (files.lookup "signature.json").bind t.parse

/-- `signing::certificates`: the developer's chain of a package. -/
def certificates (t : Trust) (files : Files) : Except Error (List Bytes) := do
  let envelope ← orElse (envelopeOf t files) certificateRequired
  let chain ← orElse ((asArr (envelope.get "certificates")).filter fun c =>
    2 ≤ c.length && c.length ≤ 3) certificateRequired
  decodeAll t certificateRequired chain

def littleEndian (width n : Nat) : Bytes :=
  (List.range width).map fun i => UInt8.ofNat (n / 256 ^ i)

/-- The digest that the publisher signs covers every file but the signature. -/
def wazPayload (t : Trust) (files : Files) : Bytes :=
  t.sha256 ("pishoo-waz-payload-v1".toUTF8.toList ++ [0] ++
    (files.filter fun f => f.1 != "signature.json").flatMap fun f =>
      littleEndian 4 f.1.utf8ByteSize ++ f.1.toUTF8.toList ++ littleEndian 8 f.2.length ++
        t.sha256 f.2)

def signaturePrefix : Bytes := "pishoo-waz-signature-v1".toUTF8.toList ++ [0]

def verifySignature (t : Trust) (files : Files) (document : Metadata) : Except Error Unit := do
  let data ← orElse ((files.lookup "signature.json").filter fun d => d.length ≤ 64 * 1024)
    (invalid "missing or oversized publisher signature")
  let envelope ← orElse (t.parse data) (invalid "invalid signature envelope")
  let encoded ← orElse ((asArr (envelope.get "certificates")).filter fun c =>
    !c.isEmpty && (keys envelope).map List.length == some 3 && envelope.get "version" == .int 1)
    (invalid "unsupported signature envelope")
  let signature ← text envelope "signature"
  let signature ← orElse (t.decode signature) (invalid "invalid signature encoding")
  failIf (signature = [] ∨ 8192 < signature.length) (invalid "invalid signature size")
  let chain ← decodeAll t (invalid "invalid certificate encoding") encoded
  failIf ([] ∈ chain) (invalid "empty signer certificate")
  let certificate ← orElse (chain.head?.bind t.certificate) (invalid "invalid signer certificate")
  failIf (certificate.trailing = true) (invalid "trailing signer certificate data")
  let _ ← orElse (t.keyIdentifier chain) (invalid "invalid signer owner_hash")
  let names ← orElse certificate.names (invalid "invalid signer names")
  failIf (document.publisher ∉ names) (invalid "signer certificate and publisher disagree")
  let verified ← orElse (t.verifySignature certificate.key (signaturePrefix ++ wazPayload t files)
    signature) (invalid "unsupported publisher signing key")
  failIf (verified = false) (.packagePolicy "package_signature_invalid" 422)

def validateContents (t : Trust) (files : Files) : Except Error Metadata := do
  let metadata ← packageMetadata t files
  failIf (metadata.name = "std") (invalid "package name conflicts with the native std namespace")
  failIf (metadata.name = "app" ∧ metadata.hasLib = true ∧ isStandardAuthor metadata.publisher = false)
    (invalid "ordinary Lib name conflicts with the frontend app namespace")
  t.validateComponent files
  .ok metadata

def readPackageAt (t : Trust) (bytes : Bytes) (at' : Int) : Except Error Files := do
  let files ← (t.wazRead bytes).mapError invalid
  let metadata ← validateContents t files
  let chain ← certificates t files
  t.verifyChain chain metadata.publisher at'
  verifySignature t files metadata
  .ok files

/-- What `facts` reads from the certificates of a package. -/
structure SigningFacts where
  leafFingerprint : String
  issuerId : String
  serialNumber : String
  ski : String
  ownerHash : String

def facts (t : Trust) (files : Files) (domain : String) (at' : Int) : Except Error SigningFacts := do
  let chain ← certificates t files
  t.verifyChain chain domain at'
  let leaf ← orElse chain[0]? certificateRequired
  let issuer ← orElse chain[1]? certificateRequired
  let certificate ← orElse (t.certificate leaf) certificateRequired
  let ski ← orElse (t.keyIdentifier chain) (.packagePolicy "signing_identity_mismatch" 403)
  .ok ⟨hex (t.sha256 leaf), hex (t.sha256 issuer), certificate.serial, ski.text, ski.ownerHash⟩

/-- Without leading zeros and in lower case. -/
def serialOf (serial : String) : List Char :=
  (serial.toList.dropWhile fun c => c == '0').map Char.toLower

def dependencyJson (dep : Dependency) : Json :=
  .obj [("author", .str (dep.id.author.getD "")), ("name", .str dep.id.name),
    ("version", .str dep.version)]

def verifyRelease (t : Trust) (now : Int) (bytes : Bytes) (metadata : Json)
    (publisher name version : String) : Except Error Unit := do
  failIf (metadata.get "package_sha256" ≠ .str (hex (t.sha256 bytes)) ∨
    metadata.get "size" ≠ .int bytes.length) (invalid "store package digest or size mismatch")
  let signature := metadata.get "signature"
  let at' ← publicationTime t now metadata
  let package ← readPackageAt t bytes at'
  let facts ← facts t package publisher at'
  failIf (signature.get "leaf_fingerprint_sha256" ≠ .str facts.leafFingerprint ∨
    signature.get "issuer_id" ≠ .str facts.issuerId ∨ signature.get "ski" ≠ .str facts.ski)
    (invalid "publication signature differs from package certificate")
  failIf ((signature.get "serial_number").asStr.map serialOf ≠ some (serialOf facts.serialNumber))
    (invalid "publication serial differs from package certificate")
  let document ← packageMetadata t package
  let envelope ← orElse (envelopeOf t package) (invalid "invalid signature envelope")
  failIf (metadata.get "id" ≠ .str (publisher ++ "/" ++ name) ∨ metadata.get "name" ≠ .str name ∨
    metadata.get "version" ≠ .str version ∨ document.publisher ≠ publisher ∨
    metadata.get "author" ≠ .str publisher ∨ document.name ≠ name ∨ document.version ≠ version ∨
    metadata.get "dependencies" ≠ .arr (document.dependencies.map dependencyJson) ∨
    metadata.get "title" ≠ .str document.title ∨
    metadata.get "description" ≠ .str document.description ∨
    metadata.get "changelog" ≠ .str document.changelog ∨
    metadata.find "entry" ≠ none ∧ metadata.find "entry" ≠ document.entry ∨
    metadata.find "license" ≠ none ∧ metadata.find "license" ≠ some (.str document.license))
    (invalid "store metadata differs from signed package manifest")
  failIf (envelope.get "certificates" ≠ metadata.get "signer_certificates")
    (invalid "signer certificates differ from the authenticated store proof")
  let encoded ← orElse (asArr (envelope.get "certificates")) (invalid "missing signer certificates")
  let chain ← decodeAll t (invalid "invalid signer certificate encoding") encoded
  let ski ← orElse (t.keyIdentifier chain) (invalid "invalid publisher owner_hash")
  failIf (metadata.get "author_owner_hash" ≠ .str ski.ownerHash)
    (invalid "publisher owner_hash differs from the authenticated store proof")

/-- One package of a batch: its id, its bytes and its store metadata. `now` is the reading of the
clock while it is examined, `revocation` and `routes` are what the other checks of it answer. -/
structure Document where
  id : Id
  bytes : Bytes
  proof : Json
  now : Int
  revocation : Except Error Unit
  routes : Kind → Except Error Unit

def Document.author (doc : Document) : String := doc.id.author.getD ""

def Document.version (doc : Document) : Option String := (doc.proof.get "version").asStr

def Document.verifiedAt (doc : Document) : Option Int :=
  ((doc.proof.get "signature").get "verified_at").asI64

def releaseOf (t : Trust) (files : Files) (metadata : Metadata) (facts : SigningFacts)
    (packageSha256 : Option String) : Release where
  id := metadata.id
  version := metadata.version
  title := metadata.title
  description := metadata.description
  license := metadata.license
  repository := metadata.repository
  dependencies := metadata.dependencies
  hasLib := metadata.hasLib
  hasApp := metadata.hasApp
  authorOwnerHash := some facts.ownerHash
  packageSha256 := packageSha256
  signerLeafFingerprintSha256 := some facts.leafFingerprint
  groups := t.capabilityRows files

/-- The loop body of `install_packages` up to the metadata of the release. -/
def evidence (t : Trust) (doc : Document) : Except Error Release := do
  verifyRelease t doc.now doc.bytes doc.proof doc.author doc.id.name (doc.version.getD "")
  let at' ← orElse doc.verifiedAt publicationInvalid
  let package ← readPackageAt t doc.bytes at'
  let facts ← facts t package doc.author at'
  doc.revocation
  let metadata ← packageMetadata t package
  .ok (releaseOf t package metadata facts (doc.proof.get "package_sha256").asStr)

/-- The `_previous_release` of the proof. Metadata without the expected fields give the same error as
those of another release. -/
def previousOf (t : Trust) (doc : Document) : Option PreviousRelease := do
  let previous := doc.proof.get "_previous_release"
  let author ← (previous.get "author").asStr
  let name ← (previous.get "name").asStr
  let version ← (previous.get "version").asStr
  let purpose ← ((previous.get "signature").get "purpose").asStr
  let at' ← ((previous.get "signature").get "verified_at").asI64
  if previous.get "id" = .str (author ++ "/" ++ name) then
    some ⟨⟨some author, name⟩, version, purpose, verifyReceipt t doc.now previous at',
      (previous.get "author_owner_hash").asStr⟩
  else none

def itemOf (t : Trust) (doc : Document) : Item where
  id := doc.id
  version := doc.version
  evidence := evidence t doc
  previous := previousOf t doc
  routes := doc.routes

end Publication

end Pishoo
