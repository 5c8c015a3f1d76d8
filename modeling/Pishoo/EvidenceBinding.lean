import Mathlib.Logic.Equiv.Basic
import Pishoo.LoadedSandbox
import Pishoo.Publication

namespace Pishoo.EvidenceBinding

open Result Publication Registry Registration

/-- What a receipt binds together. -/
structure Fields where
  author : String
  name : String
  version : String
  ownerHash : String
  packageSha256 : String
  size : Nat
  leafFingerprint : String
  verifiedAt : Int
  deriving DecidableEq

def Fields.json (f : Fields) : List Json :=
  [.str f.author, .str f.name, .str f.version, .str f.ownerHash, .str f.packageSha256, .int f.size,
    .str f.leafFingerprint, .int f.verifiedAt]

/-- The fields in the metadata of the store. -/
def metadataFields (metadata : Json) : List Json :=
  [metadata.get "author", metadata.get "name", metadata.get "version",
    metadata.get "author_owner_hash", metadata.get "package_sha256", metadata.get "size",
    (metadata.get "signature").get "leaf_fingerprint_sha256",
    (metadata.get "signature").get "verified_at"]

/-- The fields in the payload of a receipt. -/
def payloadFields (value : Json) : List Json :=
  [value.get "author", value.get "name", value.get "version", value.get "author_owner_hash",
    value.get "package_sha256", value.get "size", value.get "leaf_fingerprint_sha256",
    value.get "verified_at"]

/-- The payload has been signed by the pinned registry. -/
def Signed (t : Trust) (payload : Bytes) (at' : Int) : Prop :=
  ∃ chain leaf ski certificate signature, chain[0]? = some leaf ∧ t.serverAuth chain at' = true ∧
    t.validForName leaf storeName = true ∧ t.keyIdentifier chain = some ski ∧
    ski.ownerHash = storeOwner ∧ t.certificate leaf = some certificate ∧
    t.verifySignature certificate.key (receiptPrefix ++ payload) signature = some true

/-- The metadata carry a receipt with this payload. -/
structure Receipt (t : Trust) (metadata : Json) (at' : Int) (payload : Bytes) (value : Json) :
    Prop where
  carried : receiptPayload t metadata = some payload
  parsed : t.parse payload = some value
  expected : value = expectedPayload metadata at'
  signed : Signed t payload at'

/-- The package itself says the same, and it has been checked for the time of the receipt. -/
structure Contained (t : Trust) (bytes : Bytes) (f : Fields) (files : Files) : Prop where
  read : readPackageAt t bytes f.verifiedAt = .ok files
  manifest : ∃ m, packageMetadata t files = .ok m ∧ m.publisher = f.author ∧ m.name = f.name ∧
    m.version = f.version
  signer : ∃ s, facts t files f.author f.verifiedAt = .ok s ∧ s.ownerHash = f.ownerHash ∧
    s.leafFingerprint = f.leafFingerprint

/-- All documents about a package agree, and the registry has signed one of them. -/
structure Bound (t : Trust) (doc : Document) (f : Fields) : Prop where
  receipt : ∃ payload value, Receipt t doc.proof f.verifiedAt payload value ∧
    payloadFields value = f.json
  metadata : metadataFields doc.proof = f.json
  digest : f.packageSha256 = hex (t.sha256 doc.bytes)
  size : f.size = doc.bytes.length
  contained : ∃ files, Contained t doc.bytes f files
  past : 0 < f.verifiedAt ∧ f.verifiedAt ≤ doc.now

/-- The identity that the manifest in the package states. -/
def manifestOf (t : Trust) (bytes : Bytes) : Option (String × String × String) := do
  let files ← (t.wazRead bytes).toOption
  let m ← (packageMetadata t files).toOption
  some (m.publisher, m.name, m.version)

/-- The owner and the fingerprint of the certificate in the package. -/
def signerOf (t : Trust) (bytes : Bytes) : Option (String × String) := do
  let files ← (t.wazRead bytes).toOption
  let chain ← (certificates t files).toOption
  let ski ← t.keyIdentifier chain
  let leaf ← chain[0]?
  some (ski.ownerHash, hex (t.sha256 leaf))

/-- One of the documents has been changed in one of the fields, and its counterpart has not. -/
inductive Tampered (t : Trust) (doc doc' : Document) : Prop
  | metadata (hreceipt : receiptPayload t doc'.proof = receiptPayload t doc.proof)
      (h : metadataFields doc'.proof ≠ metadataFields doc.proof)
  | receipt (hmetadata : metadataFields doc'.proof = metadataFields doc.proof)
      (h : ((receiptPayload t doc'.proof).bind t.parse).map payloadFields ≠
        ((receiptPayload t doc.proof).bind t.parse).map payloadFields)
  | manifest (hreceipt : receiptPayload t doc'.proof = receiptPayload t doc.proof)
      (h : manifestOf t doc'.bytes ≠ manifestOf t doc.bytes)
  | certificate (hreceipt : receiptPayload t doc'.proof = receiptPayload t doc.proof)
      (h : signerOf t doc'.bytes ≠ signerOf t doc.bytes)
  | contents (hreceipt : receiptPayload t doc'.proof = receiptPayload t doc.proof)
      (h : doc'.bytes ≠ doc.bytes)

section

variable {t : Trust} {doc doc' : Document} {f f' : Fields} {metadata : Json} {at' now : Int}
  {rel : Release} {α : Type} {x : Option α} {a : α} {e e' : Error} {files : Files}

theorem orElse_congr : orElse x e = .ok a ↔ orElse x e' = .ok a := by
  rw [orElse_eq_ok, orElse_eq_ok]

theorem decodeAll_congr {l : List Json} {chain : List Bytes} (h : decodeAll t e l = .ok chain) :
    decodeAll t e' l = .ok chain := by
  induction l generalizing chain with
  | nil => exact h
  | cons c l ih =>
      rw [decodeAll, List.mapM_cons] at h ⊢
      obtain ⟨b, hb, h⟩ := bind_eq_ok.mp h
      obtain ⟨rest, hrest, h⟩ := bind_eq_ok.mp h
      obtain ⟨s, hs, hb⟩ := bind_eq_ok.mp hb
      refine bind_eq_ok.mpr ⟨b, bind_eq_ok.mpr ⟨s, orElse_congr.mp hs, orElse_congr.mp hb⟩, ?_⟩
      exact bind_eq_ok.mpr ⟨rest, ih hrest, h⟩

theorem receipt_of_verify (h : verifyReceiptWithRoot t metadata at' = .ok ()) :
    ∃ payload value, Receipt t metadata at' payload value := by
  obtain ⟨payload, hpayload, h⟩ := bind_eq_ok.mp h
  obtain ⟨_, -, h⟩ := bind_eq_ok.mp h
  obtain ⟨value, hvalue, h⟩ := bind_eq_ok.mp h
  obtain ⟨_, hexpected, h⟩ := bind_eq_ok.mp h
  obtain ⟨_, -, h⟩ := bind_eq_ok.mp h
  obtain ⟨chain, -, h⟩ := bind_eq_ok.mp h
  obtain ⟨_, -, h⟩ := bind_eq_ok.mp h
  obtain ⟨_, hserver, h⟩ := bind_eq_ok.mp h
  obtain ⟨leaf, hleaf, h⟩ := bind_eq_ok.mp h
  obtain ⟨_, hname, h⟩ := bind_eq_ok.mp h
  obtain ⟨ski, hski, h⟩ := bind_eq_ok.mp h
  obtain ⟨_, howner, h⟩ := bind_eq_ok.mp h
  obtain ⟨certificate, hcertificate, h⟩ := bind_eq_ok.mp h
  obtain ⟨_, -, h⟩ := bind_eq_ok.mp h
  obtain ⟨signature, -, h⟩ := bind_eq_ok.mp h
  refine ⟨payload, value, orElse_eq_ok.mp hpayload, orElse_eq_ok.mp hvalue,
    not_not.mp (failIf_eq_ok.mp hexpected), chain, leaf, ski, certificate, signature,
    orElse_eq_ok.mp hleaf, Bool.not_eq_false _ ▸ failIf_eq_ok.mp hserver,
    Bool.not_eq_false _ ▸ failIf_eq_ok.mp hname, orElse_eq_ok.mp hski,
    not_not.mp (failIf_eq_ok.mp howner), orElse_eq_ok.mp hcertificate,
    not_not.mp (failIf_eq_ok.mp h)⟩

theorem payloadFields_expected :
    payloadFields (expectedPayload metadata at') = [metadata.get "author", metadata.get "name",
      metadata.get "version", metadata.get "author_owner_hash", metadata.get "package_sha256",
      metadata.get "size", (metadata.get "signature").get "leaf_fingerprint_sha256", .int at'] :=
  rfl

theorem receipt_of_publicationTime (h : publicationTime t now metadata = .ok at') :
    ((metadata.get "signature").get "verified_at").asI64 = some at' ∧ (0 < at' ∧ at' ≤ now) ∧
      ∃ payload value, Receipt t metadata at' payload value := by
  obtain ⟨time, htime, h⟩ := bind_eq_ok.mp h
  obtain ⟨_, -, h⟩ := bind_eq_ok.mp h
  obtain ⟨_, hverify, h⟩ := bind_eq_ok.mp h
  cases h
  obtain ⟨hsome, hpast⟩ := Option.filter_eq_some_iff.mp (orElse_eq_ok.mp htime)
  obtain ⟨_, -, hroot⟩ := bind_eq_ok.mp hverify
  exact ⟨hsome, by simpa using hpast, receipt_of_verify hroot⟩

theorem int_of_asI64 {value : Json} (h : value.asI64 = some at') : value = .int at' := by
  unfold Json.asI64 at h
  split at h
  · split at h
    · cases h
      rfl
    · cases h
  · cases h

theorem certificates_of_envelope {envelope : Json} {encoded : List Json} {chain chain' : List Bytes}
    (h : certificates t files = .ok chain) (henvelope : envelopeOf t files = some envelope)
    (hencoded : asArr (envelope.get "certificates") = some encoded)
    (hchain : decodeAll t e encoded = .ok chain') : chain' = chain := by
  obtain ⟨envelope', henvelope', h⟩ := bind_eq_ok.mp h
  rw [orElse_eq_ok, henvelope] at henvelope'
  cases henvelope'
  obtain ⟨encoded', hencoded', h⟩ := bind_eq_ok.mp h
  rw [orElse_eq_ok, hencoded] at hencoded'
  obtain ⟨hsame, -⟩ := Option.filter_eq_some_iff.mp hencoded'
  cases hsame
  have hsame := (decodeAll_congr hchain).symm.trans h
  exact Except.ok.inj hsame

/-- What an accepted release shows. -/
structure Verified (t : Trust) (now : Int) (bytes : Bytes) (metadata : Json)
    (publisher name version : String) (at' : Int) (files : Files) (s : SigningFacts)
    (m : Metadata) : Prop where
  digest : metadata.get "package_sha256" = .str (hex (t.sha256 bytes))
  size : metadata.get "size" = .int bytes.length
  published : publicationTime t now metadata = .ok at'
  read : readPackageAt t bytes at' = .ok files
  facts : facts t files publisher at' = .ok s
  leaf : (metadata.get "signature").get "leaf_fingerprint_sha256" = .str s.leafFingerprint
  manifest : packageMetadata t files = .ok m
  storeAuthor : metadata.get "author" = .str publisher
  storeName : metadata.get "name" = .str name
  storeVersion : metadata.get "version" = .str version
  manifestAuthor : m.publisher = publisher
  manifestName : m.name = name
  manifestVersion : m.version = version
  storeOwner : metadata.get "author_owner_hash" = .str s.ownerHash

theorem verified_of_release {bytes : Bytes} {publisher name version : String}
    (h : verifyRelease t now bytes metadata publisher name version = .ok ()) :
    ∃ at' files s m, Verified t now bytes metadata publisher name version at' files s m := by
  obtain ⟨_, hdigest, h⟩ := bind_eq_ok.mp h
  obtain ⟨at', htime, h⟩ := bind_eq_ok.mp h
  obtain ⟨files, hread, h⟩ := bind_eq_ok.mp h
  obtain ⟨s, hfacts, h⟩ := bind_eq_ok.mp h
  obtain ⟨_, hsignature, h⟩ := bind_eq_ok.mp h
  obtain ⟨_, -, h⟩ := bind_eq_ok.mp h
  obtain ⟨m, hmanifest, h⟩ := bind_eq_ok.mp h
  obtain ⟨envelope, henvelope, h⟩ := bind_eq_ok.mp h
  obtain ⟨_, hdocument, h⟩ := bind_eq_ok.mp h
  obtain ⟨_, -, h⟩ := bind_eq_ok.mp h
  obtain ⟨encoded, hencoded, h⟩ := bind_eq_ok.mp h
  obtain ⟨chain', hchain', h⟩ := bind_eq_ok.mp h
  obtain ⟨ski, hski, h⟩ := bind_eq_ok.mp h
  rw [failIf_eq_ok, not_or, not_not, not_not] at hdigest
  rw [failIf_eq_ok, not_or, not_not] at hsignature
  rw [failIf_eq_ok] at hdocument
  simp only [not_or, not_not] at hdocument
  obtain ⟨-, hname, hversion, hpublisher, hauthor, hnamed, hversioned, -⟩ := hdocument
  have howner := not_not.mp (failIf_eq_ok.mp h)
  refine ⟨at', files, s, m, hdigest.1, hdigest.2, htime, hread, hfacts, hsignature.1, hmanifest,
    hauthor, hname, hversion, hpublisher, hnamed, hversioned, ?_⟩
  obtain ⟨chain, hchain, hfacts⟩ := bind_eq_ok.mp hfacts
  obtain ⟨_, -, hfacts⟩ := bind_eq_ok.mp hfacts
  obtain ⟨leaf, -, hfacts⟩ := bind_eq_ok.mp hfacts
  obtain ⟨issuer, -, hfacts⟩ := bind_eq_ok.mp hfacts
  obtain ⟨certificate, -, hfacts⟩ := bind_eq_ok.mp hfacts
  obtain ⟨ski', hski', hfacts⟩ := bind_eq_ok.mp hfacts
  cases hfacts
  have hsame := certificates_of_envelope hchain (orElse_eq_ok.mp henvelope)
    (orElse_eq_ok.mp hencoded) hchain'
  rw [orElse_eq_ok, hsame] at hski
  rw [orElse_eq_ok, hski] at hski'
  cases hski'
  exact howner

/-- The release says what the receipt says. -/
structure Says (rel : Release) (f : Fields) : Prop where
  id : rel.id = ⟨some f.author, f.name⟩
  version : rel.version = f.version
  ownerHash : rel.authorOwnerHash = some f.ownerHash
  packageSha256 : rel.packageSha256 = some f.packageSha256
  leafFingerprint : rel.signerLeafFingerprintSha256 = some f.leafFingerprint

theorem evidence_bound (h : evidence t doc = .ok rel) : ∃ f, Bound t doc f ∧ Says rel f := by
  obtain ⟨_, hrelease, h⟩ := bind_eq_ok.mp h
  obtain ⟨time, htime, h⟩ := bind_eq_ok.mp h
  obtain ⟨files', hread, h⟩ := bind_eq_ok.mp h
  obtain ⟨s', hfacts, h⟩ := bind_eq_ok.mp h
  obtain ⟨_, -, h⟩ := bind_eq_ok.mp h
  obtain ⟨m', hmanifest, h⟩ := bind_eq_ok.mp h
  cases h
  obtain ⟨at', files, s, m, hv⟩ := verified_of_release hrelease
  obtain ⟨htime', hpast, payload, value, hreceipt⟩ := receipt_of_publicationTime hv.published
  have hat : time = at' := Option.some.inj ((orElse_eq_ok.mp htime).symm.trans htime')
  subst hat
  have hfiles : files' = files := Except.ok.inj (hread.symm.trans hv.read)
  subst hfiles
  have hs : s' = s := Except.ok.inj (hfacts.symm.trans hv.facts)
  subst hs
  have hm : m' = m := Except.ok.inj (hmanifest.symm.trans hv.manifest)
  subst hm
  let f : Fields := ⟨doc.author, doc.id.name, doc.version.getD "", s'.ownerHash,
    hex (t.sha256 doc.bytes), doc.bytes.length, s'.leafFingerprint, time⟩
  have hcontained : Contained t doc.bytes f files' :=
    ⟨hread, ⟨m', hmanifest, hv.manifestAuthor, hv.manifestName, hv.manifestVersion⟩, s', hfacts, rfl,
      rfl⟩
  refine ⟨f, ⟨⟨payload, value, hreceipt, ?_⟩, ?_, rfl, rfl, ⟨files', hcontained⟩, hpast⟩, ?_, ?_, rfl,
    ?_, rfl⟩
  · rw [hreceipt.expected, payloadFields_expected, hv.storeAuthor, hv.storeName, hv.storeVersion,
      hv.storeOwner, hv.digest, hv.size, hv.leaf]
    rfl
  · rw [metadataFields, hv.storeAuthor, hv.storeName, hv.storeVersion, hv.storeOwner, hv.digest,
      hv.size, hv.leaf, int_of_asI64 htime']
    rfl
  · rw [releaseOf, Metadata.id, hv.manifestAuthor, hv.manifestName]
  · exact hv.manifestVersion
  · rw [releaseOf, hv.digest]
    rfl

theorem json_injective (h : f.json = f'.json) : f = f' := by
  cases f
  cases f'
  simpa [Fields.json] using h

theorem Bound.payload (h : Bound t doc f) :
    ((receiptPayload t doc.proof).bind t.parse).map payloadFields = some f.json := by
  obtain ⟨payload, value, hreceipt, hfields⟩ := h.receipt
  rw [hreceipt.carried, Option.bind_some, hreceipt.parsed, Option.map_some, hfields]

theorem Bound.fields_eq_of_receipt (h : Bound t doc f) (h' : Bound t doc' f')
    (hreceipt : receiptPayload t doc'.proof = receiptPayload t doc.proof) : f' = f := by
  have hpayload := h'.payload
  rw [hreceipt, h.payload] at hpayload
  exact json_injective (Option.some.inj hpayload).symm

theorem Contained.wazRead {bytes : Bytes} (h : Contained t bytes f files) :
    t.wazRead bytes = .ok files := by
  obtain ⟨files', hfiles', h⟩ := bind_eq_ok.mp h.read
  obtain ⟨_, -, h⟩ := bind_eq_ok.mp h
  obtain ⟨_, -, h⟩ := bind_eq_ok.mp h
  obtain ⟨_, -, h⟩ := bind_eq_ok.mp h
  obtain ⟨_, -, h⟩ := bind_eq_ok.mp h
  cases h
  exact mapError_eq_ok.mp hfiles'

theorem Contained.manifestOf {bytes : Bytes} (h : Contained t bytes f files) :
    manifestOf t bytes = some (f.author, f.name, f.version) := by
  obtain ⟨m, hm, hauthor, hname, hversion⟩ := h.manifest
  simp [EvidenceBinding.manifestOf, h.wazRead, hm, Except.toOption, hauthor, hname, hversion]

theorem Contained.signerOf {bytes : Bytes} (h : Contained t bytes f files) :
    signerOf t bytes = some (f.ownerHash, f.leafFingerprint) := by
  obtain ⟨s, hs, howner, hleaf⟩ := h.signer
  obtain ⟨chain, hchain, hs⟩ := bind_eq_ok.mp hs
  obtain ⟨_, -, hs⟩ := bind_eq_ok.mp hs
  obtain ⟨leaf, hleaf', hs⟩ := bind_eq_ok.mp hs
  obtain ⟨issuer, -, hs⟩ := bind_eq_ok.mp hs
  obtain ⟨certificate, -, hs⟩ := bind_eq_ok.mp hs
  obtain ⟨ski, hski, hs⟩ := bind_eq_ok.mp hs
  cases hs
  rw [orElse_eq_ok] at hleaf' hski
  simp [EvidenceBinding.signerOf, h.wazRead, hchain, Except.toOption, hski, hleaf', ← howner,
    ← hleaf]

/-- Two bound packages cannot differ in one document only. -/
theorem Bound.not_tampered (hsha : Function.Injective t.sha256) (h : Bound t doc f)
    (ht : Tampered t doc doc') : ¬Bound t doc' f' := by
  intro h'
  obtain ⟨files, hcontained⟩ := h.contained
  obtain ⟨files', hcontained'⟩ := h'.contained
  cases ht with
  | metadata hreceipt hne =>
      apply hne
      rw [h.metadata, h'.metadata, h.fields_eq_of_receipt h' hreceipt]
  | receipt hmetadata hne =>
      apply hne
      rw [h.payload, h'.payload, ← h.metadata, ← h'.metadata, hmetadata]
  | manifest hreceipt hne =>
      apply hne
      rw [hcontained.manifestOf, hcontained'.manifestOf, h.fields_eq_of_receipt h' hreceipt]
  | certificate hreceipt hne =>
      apply hne
      rw [hcontained.signerOf, hcontained'.signerOf, h.fields_eq_of_receipt h' hreceipt]
  | contents hreceipt hne =>
      apply hne
      have hdigest := congrArg Fields.packageSha256 (h.fields_eq_of_receipt h' hreceipt)
      rw [h.digest, h'.digest] at hdigest
      exact hsha (hex_injective hdigest)

theorem evidence_of_examineAll {normalizeName : String → Option String} {r : Registry}
    {sandbox : Sandbox} {seen : List String} {items : List Item} {changed : List Release}
    (h : examineAll normalizeName r sandbox seen items = .ok changed) :
    ∀ item ∈ items, ∃ rel, item.evidence = .ok rel := by
  induction items generalizing seen changed with
  | nil => simp
  | cons item items ih =>
      obtain ⟨out, hout, h⟩ := bind_eq_ok.mp h
      obtain ⟨rels, hrels, h⟩ := bind_eq_ok.mp h
      obtain ⟨-, rel, hrel, -⟩ := CommitDiscriminator.examine_ok hout
      rw [List.forall_mem_cons]
      exact ⟨⟨rel, hrel⟩, ih hrels⟩

end

/-- `write_expanded`. -/
def expand (id : Id) (files : Files) : Kind → Files
  | .lib => (files.lookup "backend.wasm").toList.map fun data => (id.name ++ ".wasm", data)
  | .app => (files.filter fun f => f.1.startsWith "public/").map fun f =>
      (String.ofList (f.1.toList.drop 7), f.2)

/-- The files of the document from which the release has been read. -/
def packageOf (t : Trust) (docs : List Document) (rel : Release) : Files :=
  ((docs.find? fun doc => rel.packageSha256 == some (hex (t.sha256 doc.bytes))).bind fun doc =>
    (t.wazRead doc.bytes).toOption).getD []

/-- The batch as `install_packages` sees it. -/
def installer (t : Trust) (docs : List Document) (size : List JournalEntry → Nat)
    (libVersion : Files → String) : Installation.Installer Files where
  normalizeName := t.normalizeName
  size := size
  contents rel kind := expand rel.id (packageOf t docs rel) kind
  libVersion := libVersion

/-- The row says what the receipt says. -/
structure Shows (p : Package) (f : Fields) : Prop where
  author : p.author = some f.author
  name : p.name = f.name
  version : p.version = f.version
  ownerHash : p.authorOwnerHash = some f.ownerHash
  packageSha256 : p.packageSha256 = some f.packageSha256
  leafFingerprint : p.signerLeafFingerprintSha256 = some f.leafFingerprint

/-- The row speaks of the document. -/
structure Written (t : Trust) (doc : Document) (f : Fields) (p : Package) : Prop where
  bound : Bound t doc f
  shows : Shows p f

/-- The runtime files of the package come from the document. -/
def Unpacked (t : Trust) (doc : Document) (p : Package) (runtime : Slot → Option Files) : Prop :=
  ∃ files, t.wazRead doc.bytes = .ok files ∧ ∀ kind, runtime (slotOf p.id kind) =
    if LoadedSandbox.holds p kind then some (expand p.id files kind) else none

section

open Installation PackageFiles

variable {t : Trust} {docs : List Document} {doc doc' : Document} {f : Fields} {rel : Release}
  {size : List JournalEntry → Nat} {libVersion : Files → String} {now : String → Int}
  {n name : String} {w w' ws : World Files} {changed : List Release} {r r' : Registry}

theorem packageOf_eq (hsha : Function.Injective t.sha256) (hdoc : doc ∈ docs) (hb : Bound t doc f)
    (hs : Says rel f) {files : Files} (hfiles : t.wazRead doc.bytes = .ok files) :
    packageOf t docs rel = files := by
  have hdigest : rel.packageSha256 = some (hex (t.sha256 doc.bytes)) := by
    rw [hs.packageSha256, hb.digest]
  cases hfind : docs.find? fun doc => rel.packageSha256 == some (hex (t.sha256 doc.bytes)) with
  | none =>
      have hnot := List.find?_eq_none.mp hfind doc hdoc
      rw [hdigest, beq_self_eq_true] at hnot
      exact absurd rfl hnot
  | some other =>
      have hother := List.find?_some hfind
      rw [hdigest, beq_iff_eq, Option.some.injEq] at hother
      have hbytes : doc.bytes = other.bytes := hsha (hex_injective hother)
      rw [packageOf, hfind, Option.bind_some, ← hbytes, hfiles]
      rfl

theorem bound_of_installTx {sandbox : Sandbox}
    (h : installTx t.normalizeName r sandbox (docs.map (itemOf t)) now = .ok (changed, r'))
    (hdoc : doc ∈ docs) : ∃ f, Bound t doc f := by
  obtain ⟨hexamine, -⟩ := examineAll_of_installTx h
  obtain ⟨rel, hrel⟩ := evidence_of_examineAll hexamine _ (List.mem_map_of_mem hdoc)
  obtain ⟨f, hbound, -⟩ := evidence_bound hrel
  exact ⟨f, hbound⟩

theorem document_of_changed {sandbox : Sandbox}
    (h : installTx t.normalizeName r sandbox (docs.map (itemOf t)) now = .ok (changed, r'))
    (hrel : rel ∈ changed) : ∃ doc ∈ docs, ∃ f, Bound t doc f ∧ Says rel f := by
  obtain ⟨hexamine, -⟩ := examineAll_of_installTx h
  obtain ⟨item, hitem, haccepted⟩ := accepted_of_mem hexamine hrel
  obtain ⟨doc, hdoc, rfl⟩ := List.mem_map.mp hitem
  exact ⟨doc, hdoc, evidence_bound haccepted.evidence⟩

theorem written_row (h : saveAll r changed now = .ok r')
    (hnames : (changed.map fun rel => rel.id.name).Nodup) (hrel : rel ∈ changed) (hs : Says rel f) :
    ∃ p, r'.package rel.id.name = some p ∧ Shows p f ∧ p.id = rel.id ∧
      ∀ kind, LoadedSandbox.holds p kind = rel.has kind := by
  have hrow := saveAll_package h hnames hrel
  obtain ⟨hauthor, hversion, hlib, happ, howner, hdigest, hleaf⟩ :=
    row_fields rel (r.package rel.id.name) (now rel.id.name)
  have hname := (Registry.package_eq_some.mp hrow).2
  refine ⟨_, hrow, ⟨?_, ?_, ?_, ?_, ?_, ?_⟩, ?_, fun kind => ?_⟩
  · rw [hauthor, hs.id]
  · rw [hname, hs.id]
  · rw [hversion, hs.version]
  · rw [howner, hs.ownerHash]
  · rw [hdigest, hs.packageSha256]
  · rw [hleaf, hs.leafFingerprint]
  · rw [Package.id, hauthor, hname]
  · cases kind with
    | lib => exact hlib
    | app => exact happ

/-- Where an installation ends, whatever faults befall it. -/
inductive Ended (inst : Installer Files) (items : List Item) (now : String → Int) (n : String)
    (w : World Files) (out : Exit Failure Unit) (w' : World Files) : Prop
  | before (hout : out ≠ .ok ()) (h : Before w n w')
  | uncommitted (hout : out ≠ .ok ()) (ws : World Files) (tx : List Release × Registry)
      (hrows : ws.db.registry.packages = w.db.registry.packages)
      (htx : installTx inst.normalizeName ws.db.registry ws.sandbox items now = .ok tx)
      (hdb : w'.db = ws.db)
  | committed (ws : World Files) (tx : List Release × Registry)
      (hrows : ws.db.registry.packages = w.db.registry.packages)
      (htx : installTx inst.normalizeName ws.db.registry ws.sandbox items now = .ok tx)
      (hdb : w'.db.registry = tx.2)
      (hruntime : ∀ rel ∈ tx.1, ∀ kind, w'.runtime (slotOf rel.id kind) =
        if rel.has kind = true then some (inst.contents rel kind) else none)

section

variable {inst : Installer Files} {items : List Item} {out : Exit Failure Unit}
  {fs gs : List (Fault (Leftover Files))}

theorem Opened.packages (h : Opened w w') :
    w'.db.registry.packages = w.db.registry.packages := by
  rw [migrateRegistration_tables h.registry]

theorem Plan.packages {call : Call} {entries : List (Id × String)} {tx : Database}
    (h : Plan inst w n call ws entries tx) :
    ws.db.registry.packages = w.db.registry.packages := by
  obtain ⟨w₁, ho, -, hquiet⟩ := h.opened
  rw [hquiet.db]
  exact Opened.packages ho

theorem Before.unchanged (h : Before w n w') :
    w'.db.registry.packages = w.db.registry.packages ∧ w'.runtime = w.runtime := by
  cases h with
  | unopened h => exact h ▸ ⟨rfl, rfl⟩
  | opened h => exact ⟨Opened.packages h, h.runtime⟩
  | staging w₁ ho _ h =>
      refine ⟨?_, h.runtime.trans ho.runtime⟩
      rw [h.db]
      exact Opened.packages ho

theorem ended_of_done {entries : List (Id × String)} {tx : Database}
    (hplan : Plan inst w n (.install items now) ws entries tx) (hdb : w'.db = tx)
    (hruntime : ∀ t ∈ targets (journal ws n tx entries),
      w'.runtime t.slot = (ws.swap n t).candidate) : Ended inst items now n w out w' := by
  have hrows := Plan.packages hplan
  cases hplan.transaction with
  | @install _ _ changed r _ htx hcandidate =>
      refine .committed ws (changed, r) hrows htx (congrArg Database.registry hdb) ?_
      intro rel hrel kind
      have he : (rel.id, rel.id.name) ∈ entriesOf changed := List.mem_map_of_mem hrel
      exact (hruntime _ (mem_targets_journal.mpr ⟨_, he, kind, rfl⟩)).trans
        (hcandidate rel hrel kind)

theorem ended_of_stopped (hout : out ≠ .ok ()) (h : Stopped inst w n (.install items now) w') :
    Ended inst items now n w out w' := by
  obtain hbefore | ⟨ws, entries, tx, hplan, houtcome⟩ := h
  · exact .before hout hbefore
  · have hrows := Plan.packages hplan
    have hold (hdb : w'.db = ws.db) : Ended inst items now n w out w' := by
      cases hplan.transaction with
      | install _ htx _ => exact .uncommitted hout ws _ hrows htx hdb
    cases houtcome with
    | untouched h => exact hold h.db
    | switching h => exact hold h.db
    | done h => exact ended_of_done hplan h.db h.runtime

theorem installPackages_ended (h : installPackages inst items now n fs w = (out, w', gs)) :
    Ended inst items now n w out w' := by
  have hends := @installPackages_triple _ inst w n items now fs w rfl
  rw [h] at hends
  cases out with
  | ok u =>
      obtain ⟨ws, changed, r, wd, hplan, htx, hdone, rfl⟩ := hends
      exact ended_of_done hplan hdone.db hdone.runtime
  | err e => exact ended_of_stopped (by simp) (Failing.stopped hends)
  | crashed => exact ended_of_stopped (by simp) hends

/-- A row of the registry of a committed batch comes from one of its documents. -/
theorem written_of_committed (hsha : Function.Injective t.sha256) {r : Registry} {sandbox : Sandbox}
    {tx : List Release × Registry} {runtime : Slot → Option Files}
    (htx : installTx t.normalizeName r sandbox (docs.map (itemOf t)) now = .ok tx)
    (hruntime : ∀ rel ∈ tx.1, ∀ kind, runtime (slotOf rel.id kind) =
      if rel.has kind = true then some (expand rel.id (packageOf t docs rel) kind) else none) :
    tx.2.package name = r.package name ∨ ∃ doc ∈ docs, ∃ f p, tx.2.package name = some p ∧
      Written t doc f p ∧ Unpacked t doc p runtime := by
  obtain ⟨changed, r'⟩ := tx
  obtain ⟨hexamine, hsave⟩ := examineAll_of_installTx htx
  by_cases hname : name ∈ changed.map fun rel => rel.id.name
  · right
    obtain ⟨rel, hrel, rfl⟩ := List.mem_map.mp hname
    obtain ⟨doc, hdoc, f, hbound, hsays⟩ := document_of_changed htx hrel
    obtain ⟨p, hp, hshows, hid, hholds⟩ := written_row hsave (examineAll_nodup htx) hrel hsays
    obtain ⟨files, hcontained⟩ := hbound.contained
    refine ⟨doc, hdoc, f, p, hp, ⟨hbound, hshows⟩, files, hcontained.wazRead, fun kind => ?_⟩
    have hfiles := packageOf_eq hsha hdoc hbound hsays hcontained.wazRead
    rw [hid, hholds, hruntime rel hrel, hfiles]
  · exact .inl (saveAll_package_other hsave hname)

end

end

/-- Rows and files come from documents that a receipt of the registry binds together, and a batch
with a changed document installs nothing. -/
theorem evidence_binding {t : Trust} (hsha : Function.Injective t.sha256) {docs : List Document}
    {size : List JournalEntry → Nat} {libVersion : Files → String} {now : String → Int}
    {n : String} {w w' : World Files} {fs gs : List (Fault (Leftover Files))}
    {out : Exit Failure Unit}
    (h : Installation.installPackages (installer t docs size libVersion) (docs.map (itemOf t)) now n
      fs w = (out, w', gs)) :
    (∀ name, w'.db.registry.package name = w.db.registry.package name ∨
      ∃ doc ∈ docs, ∃ f p, w'.db.registry.package name = some p ∧ Written t doc f p ∧
        Unpacked t doc p w'.runtime) ∧
    (out = .ok () → ∀ doc ∈ docs, ∃ f, Bound t doc f) ∧
    ∀ doc rel, evidence t doc = .ok rel → ∀ doc' ∈ docs, Tampered t doc doc' →
      out ≠ .ok () ∧ w'.db.registry.packages = w.db.registry.packages ∧ w'.runtime = w.runtime := by
  have hended := installPackages_ended h
  have hbound {r r' : Registry} {sandbox : Sandbox} {changed : List Release}
      (htx : installTx t.normalizeName r sandbox (docs.map (itemOf t)) now = .ok (changed, r')) :
      ∀ doc ∈ docs, ∃ f, Bound t doc f := fun doc hdoc => bound_of_installTx htx hdoc
  refine ⟨fun name => ?_, fun hout => ?_, fun doc rel hrel doc' hdoc ht => ?_⟩
  · cases hended with
    | before _ h => exact .inl (Registry.package_congr (Before.unchanged h).1 name)
    | uncommitted _ ws tx hrows _ hdb =>
        rw [hdb]
        exact .inl (Registry.package_congr hrows name)
    | committed ws tx hrows htx hdb hruntime =>
        rw [hdb, ← Registry.package_congr hrows name]
        exact written_of_committed hsha htx hruntime
  · cases hended with
    | before hne _ => exact absurd hout hne
    | uncommitted hne _ _ _ _ _ => exact absurd hout hne
    | committed ws tx _ htx _ _ => exact hbound htx
  · obtain ⟨f, hf, -⟩ := evidence_bound hrel
    cases hended with
    | before hne h => exact ⟨hne, Before.unchanged h⟩
    | uncommitted _ ws tx _ htx _ =>
        obtain ⟨f', hf'⟩ := hbound htx doc' hdoc
        exact absurd hf' (hf.not_tampered hsha ht)
    | committed ws tx _ htx _ _ =>
        obtain ⟨f', hf'⟩ := hbound htx doc' hdoc
        exact absurd hf' (hf.not_tampered hsha ht)

def sampleBytes : Bytes := [80, 75, 3, 4]

def sampleLeaf : Bytes := [48, 1]

def sampleIssuer : Bytes := [48, 2]

def sampleDigest : Bytes :=
  [141, 204, 126, 96, 22, 6, 33, 127, 59, 117, 71, 102, 81, 17, 130, 169, 22, 177, 126, 154, 38, 169,
    76, 157, 136, 113, 4, 235, 169, 46, 155, 178]

def leafDigest : Bytes :=
  [245, 79, 150, 217, 198, 33, 59, 141, 120, 88, 124, 80, 9, 255, 88, 51, 95, 78, 252, 36, 149, 46,
    245, 63, 44, 26, 251, 83, 136, 254, 218, 105]

def issuerDigest : Bytes :=
  [117, 142, 86, 153, 183, 117, 77, 198, 46, 126, 187, 207, 99, 223, 126, 174, 85, 38, 85, 183, 230,
    111, 200, 77, 197, 180, 155, 115, 123, 246, 150, 48]

def sampleManifest : Json :=
  .obj [("format", .str "waz/1"), ("package", .obj [("author", .str "alice.example"),
      ("name", .str "base"), ("version", .str "1.0.0"), ("title", .str "Base"),
      ("description", .str "A library"), ("license", .str "MIT"), ("release-notes", .str "First")]),
    ("dependencies", .arr []), ("backend", .str "backend.wasm")]

def sampleEnvelope : Json :=
  .obj [("version", .int 1), ("signature", .str "s"),
    ("certificates", .arr [.str "leaf", .str "issuer"])]

def sampleProof : Json :=
  .obj [("id", .str "alice.example/base"), ("author", .str "alice.example"), ("name", .str "base"),
    ("version", .str "1.0.0"), ("author_owner_hash", .str storeOwner),
    ("package_sha256", .str (hex sampleDigest)), ("size", .int 4), ("dependencies", .arr []),
    ("title", .str "Base"), ("description", .str "A library"), ("changelog", .str "First"),
    ("signer_certificates", .arr [.str "leaf", .str "issuer"]),
    ("signature", .obj [("purpose", .str "code_signing"), ("verified_at", .int 50),
      ("leaf_fingerprint_sha256", .str (hex leafDigest)), ("issuer_id", .str (hex issuerDigest)),
      ("ski", .str "ski"), ("serial_number", .str "01")]),
    ("publication_receipt", .obj [("payload", .str "payload"), ("signature", .str "s"),
      ("certificates", .arr [.str "leaf", .str "issuer"])])]

def sampleParse (data : Bytes) : Option Json :=
  if data = [1] then some sampleManifest
  else if data = [2] then some sampleEnvelope
  else if data = [3] then some (expectedPayload sampleProof 50)
  else none

def sampleDecode (s : String) : Option Bytes :=
  if s = "leaf" then some sampleLeaf
  else if s = "issuer" then some sampleIssuer
  else if s = "payload" then some [3]
  else if s = "s" then some [4]
  else none

/-- The three digests that the sample needs. -/
def sampleSha256 : Equiv.Perm Bytes :=
  ((Equiv.swap sampleBytes sampleDigest).trans (Equiv.swap sampleLeaf leafDigest)).trans
    (Equiv.swap sampleIssuer issuerDigest)

def sampleTrust : Trust where
  sha256 := sampleSha256
  decode := sampleDecode
  parse := sampleParse
  normalizeName := some
  parseUrl _ := none
  wazRead _ := .ok [("backend.wasm", [0]), ("manifest.json", [1]), ("signature.json", [2])]
  root := sampleIssuer
  certificate _ := some ⟨false, some ["alice.example"], "1", []⟩
  keyIdentifier _ := some ⟨"ski", storeOwner⟩
  verifySignature _ _ _ := some true
  verifyChain _ _ _ := .ok ()
  serverAuth _ _ := true
  validForName _ _ := true
  validateComponent _ := .ok ()
  capabilityRows _ := .ok []

def sampleDocument : Document where
  id := ⟨some "alice.example", "base"⟩
  bytes := sampleBytes
  proof := sampleProof
  now := 100
  revocation := .ok ()
  routes _ := .ok ()

def vacantWorld : World Files where
  db := ⟨.empty, fun _ => none⟩
  runtime := fun _ => none
  roots := fun _ => false
  stages := fun _ => none
  sandbox := .empty

def boundRun : Exit Failure Unit × World Files × List (Fault (Leftover Files)) :=
  Installation.installPackages (installer sampleTrust [sampleDocument] List.length fun _ => "1.0.0")
    ([sampleDocument].map (itemOf sampleTrust)) (fun _ => 100) ".pishoo-1" [] vacantWorld

theorem evidence_binding_run :
    (boundRun.1 = .ok () ∧ boundRun.2.1.db.registry.packages.map Package.id = [sampleDocument.id]) ∧
      (∀ name, boundRun.2.1.db.registry.package name = vacantWorld.db.registry.package name ∨
        ∃ doc ∈ [sampleDocument], ∃ f p, boundRun.2.1.db.registry.package name = some p ∧
          Written sampleTrust doc f p ∧ Unpacked sampleTrust doc p boundRun.2.1.runtime) ∧
      ∃ f, Bound sampleTrust sampleDocument f := by
  have hok : boundRun.1 = .ok () := by decide +kernel
  have hrows : boundRun.2.1.db.registry.packages.map Package.id = [sampleDocument.id] := by
    decide +kernel
  have hbinding := evidence_binding sampleSha256.injective
    (rfl : boundRun = (boundRun.1, boundRun.2.1, boundRun.2.2))
  refine ⟨⟨hok, hrows⟩, hbinding.1, ?_⟩
  exact hbinding.2.1 hok sampleDocument List.mem_cons_self

end Pishoo.EvidenceBinding
