import Pishoo.EvidenceBinding

namespace Pishoo.DeveloperChain

open Result Publication EvidenceBinding

/-- An extension of a certificate. It may be missing, and the extensions may be unreadable. -/
abbrev Extension (α : Type) := Option (Option α)

structure BasicConstraints where
  critical : Bool
  ca : Bool
  pathLength : Option Nat
  deriving DecidableEq

structure KeyUsage where
  critical : Bool
  flags : UInt16
  deriving DecidableEq

structure ExtendedKeyUsage where
  codeSigning : Bool
  any : Bool
  serverAuth : Bool
  clientAuth : Bool
  emailProtection : Bool
  timeStamping : Bool
  ocspSigning : Bool
  other : Bool
  deriving DecidableEq

inductive GeneralName
  | dns (name : String)
  | other
  deriving DecidableEq

/-- What is read from a certificate, and whether bytes follow it. A common name may be no text. -/
structure X509 where
  trailing : Bool
  algorithm : String
  curve : Option String
  signatureAlgorithm : String
  basicConstraints : Extension BasicConstraints
  keyUsage : Extension KeyUsage
  extendedKeyUsage : Extension ExtendedKeyUsage
  alternativeNames : Extension (List GeneralName)
  commonNames : List (Option String)

/-- The usage in the DHTTP subject key identifier. -/
inductive Usage
  | clientAndServer
  | other
  deriving DecidableEq

/-- The crates, and the root that they hold. `verifies` is the check of signatures, validity and
purpose for code signing, with one intermediate certificate. -/
structure Crates where
  root : Bytes
  parse : Bytes → Option X509
  normalizeName : String → Option String
  usage : List Bytes → Option Usage
  anchor : Bytes → Bool
  endEntity : Bytes → Bool
  verifies : Bytes → Bytes → Bytes → Int → Bool

def untrusted : Error := .packagePolicy "signing_certificate_untrusted" 422

def identityMismatch : Error := .packagePolicy "signing_identity_mismatch" 403

def ellipticCurve : String := "1.2.840.10045.2.1"

def p384 : String := "1.3.132.0.34"

def ecdsaSha384 : String := "1.2.840.10045.4.3.3"

section

variable (c : Crates)

def parseCertificate (der : Bytes) : Except Error X509 := do
  let cert ← orElse (c.parse der) untrusted
  failIf (cert.trailing = true) untrusted
  .ok cert

/-- What the leaf and its issuer must be. -/
def checkRole (index : Nat) (cert : X509) : Except Error Unit := do
  failIf (cert.algorithm ≠ ellipticCurve ∨ cert.curve ≠ some p384 ∨
    cert.signatureAlgorithm ≠ ecdsaSha384) untrusted
  let bc ← orElse cert.basicConstraints.join untrusted
  let ku ← orElse cert.keyUsage.join untrusted
  let eku ← orElse cert.extendedKeyUsage.join untrusted
  failIf (bc.critical = false ∨ ku.critical = false ∨ eku.codeSigning = false ∨ eku.any = true ∨
    eku.serverAuth ≠ eku.clientAuth ∨ eku.emailProtection = true ∨ eku.timeStamping = true ∨
    eku.ocspSigning = true ∨ eku.other = true ∨
    (index = 0 ∧ (bc.ca = true ∨ bc.pathLength ≠ none ∨ ku.flags ≠ 1)) ∨
    (index = 1 ∧ (bc.ca = false ∨ bc.pathLength ≠ some 0 ∨ ku.flags &&& 33 ≠ 33 ∨
      ku.flags &&& ~~~97 ≠ 0))) certificateRequired

def checkNames (leaf : X509) (domain : String) : Except Error Unit := do
  let names ← orElse leaf.alternativeNames.join untrusted
  failIf (names ≠ [.dns domain] ∨ c.normalizeName domain ≠ some domain) identityMismatch
  failIf (leaf.commonNames ≠ [some domain]) identityMismatch

/-- `verify_chain` with the root of the crate. -/
def verifyChain (chain : List Bytes) (domain : String) (at' : Int) : Except Error Unit := do
  failIf (chain.length < 2 ∨ 3 < chain.length ∨ at' < 0) untrusted
  let parsed ← chain.mapM (parseCertificate c)
  (parsed.take 2).zipIdx.forM fun (cert, index) => checkRole index cert
  let leaf ← orElse parsed[0]? untrusted
  checkNames c leaf domain
  let usage ← orElse (c.usage chain) untrusted
  failIf (usage ≠ .clientAndServer) untrusted
  failIf (chain.length = 3 ∧ chain[2]? ≠ some c.root) untrusted
  failIf (c.anchor c.root = false) untrusted
  failIf (c.endEntity (chain.getD 0 []) = false) untrusted
  failIf (c.verifies c.root (chain.getD 0 []) (chain.getD 1 []) at' = false) untrusted

end

/-- A certificate of the developer hierarchy, on the curve P-384 and for code signing. -/
structure Profile (cert : X509) (constraints : BasicConstraints) (flags : UInt16) : Prop where
  algorithm : cert.algorithm = ellipticCurve
  curve : cert.curve = some p384
  signature : cert.signatureAlgorithm = ecdsaSha384
  constraints : cert.basicConstraints = some (some constraints)
  usage : cert.keyUsage = some (some ⟨true, flags⟩)
  purposes : cert.extendedKeyUsage =
    some (some ⟨true, false, false, false, false, false, false, false⟩) ∨
    cert.extendedKeyUsage = some (some ⟨true, false, true, true, false, false, false, false⟩)

/-- A leaf signs and can issue nothing. -/
def LeafProfile (cert : X509) : Prop := Profile cert ⟨true, false, none⟩ 1

/-- An issuer issues leaves only. -/
def IssuerProfile (cert : X509) : Prop :=
  ∃ flags, Profile cert ⟨true, true, some 0⟩ flags ∧ flags &&& 33 = 33 ∧ flags &&& ~~~97 = 0

section

variable {c : Crates} {cert : X509} {chain : List Bytes} {domain : String} {at' : Int}

theorem purposes_iff (eku : ExtendedKeyUsage) : (eku.codeSigning = true ∧ eku.any = false ∧
    eku.serverAuth = eku.clientAuth ∧ eku.emailProtection = false ∧ eku.timeStamping = false ∧
    eku.ocspSigning = false ∧ eku.other = false) ↔
    eku = ⟨true, false, false, false, false, false, false, false⟩ ∨
      eku = ⟨true, false, true, true, false, false, false, false⟩ := by
  rcases eku with ⟨_ | _, _ | _, _ | _, _ | _, _ | _, _ | _, _ | _, _ | _⟩ <;> simp

theorem checkRole_eq_ok {index : Nat} : checkRole index cert = .ok () ↔
    ∃ bc flags, Profile cert bc flags ∧ bc.critical = true ∧
      (index = 0 → bc.ca = false ∧ bc.pathLength = none ∧ flags = 1) ∧
      (index = 1 → bc.ca = true ∧ bc.pathLength = some 0 ∧ flags &&& 33 = 33 ∧
        flags &&& ~~~97 = 0) := by
  unfold checkRole
  simp only [bind_eq_ok, failIf_eq_ok, orElse_eq_ok, Option.join_eq_some_iff, not_or, not_and,
    Bool.not_eq_true, ne_eq, not_not, Bool.not_eq_false]
  constructor
  · rintro ⟨_, ⟨halgorithm, hcurve, hsignature⟩, bc, hbc, ku, hku, eku, heku, hcritical, hkey,
      hcode, hany, hauth, hemail, htime, hocsp, hother, hleaf, hissuer⟩
    refine ⟨bc, ku.flags, ⟨halgorithm, hcurve, hsignature, hbc, ?_, ?_⟩, hcritical, hleaf, hissuer⟩
    · rw [hku, ← hkey]
    · have hpurposes := (purposes_iff eku).mp ⟨hcode, hany, hauth, hemail, htime, hocsp, hother⟩
      rcases hpurposes with rfl | rfl
      · exact .inl heku
      · exact .inr heku
  · rintro ⟨bc, flags, hprofile, hcritical, hleaf, hissuer⟩
    obtain ⟨eku, heku, hpurposes⟩ : ∃ eku, cert.extendedKeyUsage = some (some eku) ∧
        (eku = ⟨true, false, false, false, false, false, false, false⟩ ∨
          eku = ⟨true, false, true, true, false, false, false, false⟩) := by
      rcases hprofile.purposes with h | h
      · exact ⟨_, h, .inl rfl⟩
      · exact ⟨_, h, .inr rfl⟩
    obtain ⟨hcode, hany, hauth, hemail, htime, hocsp, hother⟩ := (purposes_iff eku).mpr hpurposes
    exact ⟨(), ⟨hprofile.algorithm, hprofile.curve, hprofile.signature⟩, bc, hprofile.constraints, _,
      hprofile.usage, eku, heku, hcritical, rfl, hcode, hany, hauth, hemail, htime, hocsp, hother,
      hleaf, hissuer⟩

theorem checkRole_zero : checkRole 0 cert = .ok () ↔ LeafProfile cert := by
  rw [checkRole_eq_ok]
  constructor
  · rintro ⟨⟨critical, ca, pathLength⟩, flags, hprofile, hcritical, hleaf, -⟩
    obtain ⟨hca, hpath, rfl⟩ := hleaf rfl
    simp only at hcritical hca hpath
    rwa [hcritical, hca, hpath] at hprofile
  · intro h
    exact ⟨_, _, h, rfl, fun _ => ⟨rfl, rfl, rfl⟩, nofun⟩

theorem checkRole_one : checkRole 1 cert = .ok () ↔ IssuerProfile cert := by
  rw [checkRole_eq_ok]
  constructor
  · rintro ⟨⟨critical, ca, pathLength⟩, flags, hprofile, hcritical, -, hissuer⟩
    obtain ⟨hca, hpath, hsign, honly⟩ := hissuer rfl
    simp only at hcritical hca hpath
    rw [hcritical, hca, hpath] at hprofile
    exact ⟨flags, hprofile, hsign, honly⟩
  · rintro ⟨flags, hprofile, hsign, honly⟩
    exact ⟨_, _, hprofile, rfl, nofun, fun _ => ⟨rfl, rfl, hsign, honly⟩⟩

theorem parseCertificate_eq_ok {der : Bytes} :
    parseCertificate c der = .ok cert ↔ c.parse der = some cert ∧ cert.trailing = false := by
  unfold parseCertificate
  simp only [bind_eq_ok, orElse_eq_ok, failIf_eq_ok, Bool.not_eq_true, Except.ok.injEq]
  constructor
  · rintro ⟨a, ha, _, htrailing, rfl⟩
    exact ⟨ha, htrailing⟩
  · rintro ⟨ha, htrailing⟩
    exact ⟨cert, ha, (), htrailing, rfl⟩

theorem checkNames_eq_ok {u : Unit} : checkNames c cert domain = .ok u ↔
    cert.alternativeNames = some (some [.dns domain]) ∧ c.normalizeName domain = some domain ∧
      cert.commonNames = [some domain] := by
  unfold checkNames
  simp only [bind_eq_ok, orElse_eq_ok, failIf_eq_ok, Option.join_eq_some_iff, not_or, ne_eq, not_not]
  constructor
  · rintro ⟨names, hnames, _, ⟨rfl, hdomain⟩, hcommon⟩
    exact ⟨hnames, hdomain, hcommon⟩
  · rintro ⟨hnames, hdomain, hcommon⟩
    exact ⟨_, hnames, (), ⟨rfl, hdomain⟩, hcommon⟩

end

/-- A chain that is accepted: a leaf for one domain only, its issuer, and possibly the root. -/
structure Accepted (c : Crates) (chain : List Bytes) (domain : String) (at' : Int)
    (leaf issuer : Bytes) : Prop where
  shape : chain = [leaf, issuer] ∨ chain = [leaf, issuer, c.root] ∧
    ∃ cert, c.parse c.root = some cert ∧ cert.trailing = false
  time : 0 ≤ at'
  signer : ∃ cert, c.parse leaf = some cert ∧ cert.trailing = false ∧ LeafProfile cert ∧
    cert.alternativeNames = some (some [.dns domain]) ∧ cert.commonNames = [some domain]
  issuing : ∃ cert, c.parse issuer = some cert ∧ cert.trailing = false ∧ IssuerProfile cert
  normal : c.normalizeName domain = some domain
  usage : c.usage chain = some .clientAndServer
  anchor : c.anchor c.root = true
  endEntity : c.endEntity leaf = true
  verified : c.verifies c.root leaf issuer at' = true

section

variable {c : Crates} {chain : List Bytes} {domain : String} {at' : Int} {leaf issuer : Bytes}

theorem mapM_iff {α β : Type} {f : α → Except Error β} {as : List α} {bs : List β} :
    as.mapM f = .ok bs ↔ List.Forall₂ (fun a b => f a = .ok b) as bs := by
  induction as generalizing bs with
  | nil =>
      rw [List.mapM_nil, List.forall₂_nil_left_iff]
      exact ⟨fun h => (Except.ok.inj h).symm, fun h => h ▸ rfl⟩
  | cons a as ih =>
      rw [List.mapM_cons, bind_eq_ok, List.forall₂_cons_left_iff]
      constructor
      · rintro ⟨b, hb, h⟩
        obtain ⟨rest, hrest, h⟩ := bind_eq_ok.mp h
        exact ⟨b, rest, hb, ih.mp hrest, (Except.ok.inj h).symm⟩
      · rintro ⟨b, rest, hb, hrest, rfl⟩
        exact ⟨b, hb, bind_eq_ok.mpr ⟨rest, ih.mpr hrest, rfl⟩⟩

theorem checkRoles_eq_ok {l i : X509} {rest : List X509} {u : Unit} :
    ((l :: i :: rest).take 2).zipIdx.forM (fun (cert, index) => checkRole index cert) = .ok u ↔
      LeafProfile l ∧ IssuerProfile i := by
  rw [← checkRole_zero, ← checkRole_one]
  change (checkRole 0 l >>= fun _ => checkRole 1 i >>= fun _ => .ok ()) = .ok u ↔ _
  simp only [bind_eq_ok, and_true]
  constructor
  · rintro ⟨_, hleaf, _, hissuer⟩
    exact ⟨hleaf, hissuer⟩
  · rintro ⟨hleaf, hissuer⟩
    exact ⟨(), hleaf, (), hissuer⟩

theorem verifyChain_eq_ok {u : Unit} : verifyChain c chain domain at' = .ok u ↔
    ∃ leaf issuer, Accepted c chain domain at' leaf issuer := by
  unfold verifyChain
  simp only [bind_eq_ok, failIf_eq_ok, orElse_eq_ok, mapM_iff, checkNames_eq_ok, not_or, not_and,
    Nat.not_lt, Int.not_lt, ne_eq, not_not, Bool.not_eq_false]
  constructor
  · rintro ⟨_, ⟨hleast, hmost, htime⟩, parsed, hparsed, _, hroles, l, hl, _,
      ⟨hnames, hnormal, hcommon⟩, usage, husage, _, rfl, _, hroot, _, hanchor, _, hend, hverified⟩
    rcases chain with - | ⟨leaf, - | ⟨issuer, rest⟩⟩
    · simp at hleast
    · simp at hleast
    obtain ⟨cert, _, hcert, htail, rfl⟩ := List.forall₂_cons_left_iff.mp hparsed
    obtain ⟨cert', _, hcert', hrest, rfl⟩ := List.forall₂_cons_left_iff.mp htail
    obtain rfl : cert = l := Option.some.inj hl
    obtain ⟨hleaf, hissuer⟩ := checkRoles_eq_ok.mp hroles
    obtain ⟨hparse, htrailing⟩ := parseCertificate_eq_ok.mp hcert
    obtain ⟨hparse', htrailing'⟩ := parseCertificate_eq_ok.mp hcert'
    refine ⟨leaf, issuer, ?_, htime, ⟨cert, hparse, htrailing, hleaf, hnames, hcommon⟩,
      ⟨cert', hparse', htrailing', hissuer⟩, hnormal, husage, hanchor, hend, hverified⟩
    rcases rest with - | ⟨last, - | ⟨further, rest⟩⟩
    · exact .inl rfl
    · obtain rfl : last = c.root := Option.some.inj (hroot rfl)
      obtain ⟨cert, _, hcert, -, -⟩ := List.forall₂_cons_left_iff.mp hrest
      exact .inr ⟨rfl, cert, parseCertificate_eq_ok.mp hcert⟩
    · simp only [List.length_cons] at hmost
      omega
  · rintro ⟨leaf, issuer, h⟩
    obtain ⟨cert, hparse, htrailing, hleaf, hnames, hcommon⟩ := h.signer
    obtain ⟨cert', hparse', htrailing', hissuer⟩ := h.issuing
    have hcert := parseCertificate_eq_ok.mpr ⟨hparse, htrailing⟩
    have hcert' := parseCertificate_eq_ok.mpr ⟨hparse', htrailing'⟩
    have husage := h.usage
    rcases h.shape with rfl | ⟨rfl, last, hlast⟩
    · exact ⟨(), ⟨by simp, by simp, h.time⟩, [cert, cert'], .cons hcert (.cons hcert' .nil), (),
        checkRoles_eq_ok.mpr ⟨hleaf, hissuer⟩, cert, rfl, (), ⟨hnames, h.normal, hcommon⟩, _, husage,
        (), rfl, (), by simp, (), h.anchor, (), h.endEntity, h.verified⟩
    · exact ⟨(), ⟨by simp, by simp, h.time⟩, [cert, cert', last],
        .cons hcert (.cons hcert' (.cons (parseCertificate_eq_ok.mpr hlast) .nil)), (),
        checkRoles_eq_ok.mpr ⟨hleaf, hissuer⟩, cert, rfl, (), ⟨hnames, h.normal, hcommon⟩, _, husage,
        (), rfl, (), by simp, (), h.anchor, (), h.endEntity, h.verified⟩

end

/-- A chain is refused for one of three reasons. -/
def Refusal (e : Error) : Prop := e = untrusted ∨ e = certificateRequired ∨ e = identityMismatch

def Refuses {α : Type} (x : Except Error α) : Prop := ∀ e, x = .error e → Refusal e

section

variable {α β : Type} {x : Except Error α} {e : Error}

theorem refusal_untrusted : Refusal untrusted := .inl rfl

theorem refusal_required : Refusal certificateRequired := .inr (.inl rfl)

theorem refusal_mismatch : Refusal identityMismatch := .inr (.inr rfl)

theorem refuses_ok (a : α) : Refuses (.ok a : Except Error α) := by
  intro e h
  cases h

theorem Refuses.bind {f : α → Except Error β} (hx : Refuses x) (hf : ∀ a, Refuses (f a)) :
    Refuses (x >>= f) := by
  intro e h
  rcases bind_eq_error.mp h with h | ⟨a, -, h⟩
  · exact hx e h
  · exact hf a e h

theorem refuses_orElse (o : Option α) (he : Refusal e) : Refuses (orElse o e) := by
  intro e' h
  cases o with
  | none => cases h; exact he
  | some a => cases h

theorem refuses_failIf (p : Prop) [Decidable p] (he : Refusal e) : Refuses (failIf p e) := by
  intro e' h
  by_cases hp : p
  · rw [failIf, if_pos hp] at h
    cases h
    exact he
  · rw [failIf, if_neg hp] at h
    cases h

theorem refuses_mapM {f : α → Except Error β} (hf : ∀ a, Refuses (f a)) (l : List α) :
    Refuses (l.mapM f) := by
  induction l with
  | nil => exact refuses_ok []
  | cons a l ih =>
      rw [List.mapM_cons]
      exact (hf a).bind fun b => ih.bind fun bs => refuses_ok (b :: bs)

theorem refuses_forM {f : α → Except Error Unit} (hf : ∀ a, Refuses (f a)) (l : List α) :
    Refuses (l.forM f) := by
  induction l with
  | nil => exact refuses_ok ()
  | cons a l ih => exact (hf a).bind fun _ => ih

end

section

variable (c : Crates)

theorem parseCertificate_refuses (der : Bytes) : Refuses (parseCertificate c der) := by
  apply (refuses_orElse _ refusal_untrusted).bind
  intro cert
  exact (refuses_failIf _ refusal_untrusted).bind fun _ => refuses_ok cert

theorem checkRole_refuses (index : Nat) (cert : X509) : Refuses (checkRole index cert) := by
  apply (refuses_failIf _ refusal_untrusted).bind
  intro _
  apply (refuses_orElse _ refusal_untrusted).bind
  intro bc
  apply (refuses_orElse _ refusal_untrusted).bind
  intro ku
  apply (refuses_orElse _ refusal_untrusted).bind
  intro eku
  exact refuses_failIf _ refusal_required

theorem checkNames_refuses (leaf : X509) (domain : String) : Refuses (checkNames c leaf domain) := by
  apply (refuses_orElse _ refusal_untrusted).bind
  intro names
  exact (refuses_failIf _ refusal_mismatch).bind fun _ => refuses_failIf _ refusal_mismatch

theorem verifyChain_refuses (chain : List Bytes) (domain : String) (at' : Int) :
    Refuses (verifyChain c chain domain at') := by
  apply (refuses_failIf _ refusal_untrusted).bind
  intro _
  apply (refuses_mapM (parseCertificate_refuses c) chain).bind
  intro parsed
  refine Refuses.bind (refuses_forM ?_ _) ?_
  · rintro ⟨cert, index⟩
    exact checkRole_refuses index cert
  intro _
  apply (refuses_orElse _ refusal_untrusted).bind
  intro leaf
  apply (checkNames_refuses c leaf domain).bind
  intro _
  apply (refuses_orElse _ refusal_untrusted).bind
  intro usage
  apply (refuses_failIf _ refusal_untrusted).bind
  intro _
  apply (refuses_failIf _ refusal_untrusted).bind
  intro _
  apply (refuses_failIf _ refusal_untrusted).bind
  intro _
  apply (refuses_failIf _ refusal_untrusted).bind
  intro _
  exact refuses_failIf _ refusal_untrusted

end

/-- The crates check the chains of packages. -/
def withChain (c : Crates) (t : Trust) : Trust := { t with verifyChain := verifyChain c }

/-- The leaf's key has signed the files of a package, and the leaf is the publisher's. -/
structure SignedBy (c : Crates) (t : Trust) (files : Files) (at' : Int) (publisher : String)
    (leaf issuer : Bytes) : Prop where
  published : ∃ metadata, packageMetadata t files = .ok metadata ∧ metadata.publisher = publisher
  chain : ∃ chain, certificates t files = .ok chain ∧ Accepted c chain publisher at' leaf issuer
  signed : ∃ envelope encoded signature certificate, envelopeOf t files = some envelope ∧
    text envelope "signature" = .ok encoded ∧ t.decode encoded = some signature ∧
    t.certificate leaf = some certificate ∧ t.verifySignature certificate.key
      (signaturePrefix ++ wazPayload t files) signature = some true

section

variable {c : Crates} {t : Trust} {files files' : Files} {chain : List Bytes} {domain : String}
  {bytes leaf issuer leaf' issuer' : Bytes} {at' at'' : Int} {publisher publisher' : String}

theorem Accepted.head (h : Accepted c chain domain at' leaf issuer) : chain.head? = some leaf := by
  rcases h.shape with rfl | ⟨rfl, -⟩
  · rfl
  · rfl

theorem verifySignature_signed {metadata : Metadata} {u : Unit}
    (hchain : certificates t files = .ok chain) (hhead : chain.head? = some leaf)
    (h : verifySignature t files metadata = .ok u) :
    ∃ envelope encoded signature certificate, envelopeOf t files = some envelope ∧
      text envelope "signature" = .ok encoded ∧ t.decode encoded = some signature ∧
      t.certificate leaf = some certificate ∧ t.verifySignature certificate.key
        (signaturePrefix ++ wazPayload t files) signature = some true := by
  unfold certificates at hchain
  simp only [bind_eq_ok, orElse_eq_ok, Option.filter_eq_some_iff] at hchain
  obtain ⟨envelope, henvelope, listed, ⟨hlisted, -⟩, hdecoded⟩ := hchain
  unfold verifySignature at h
  simp only [bind_eq_ok, failIf_eq_ok, orElse_eq_ok, Option.filter_eq_some_iff, Bool.not_eq_false] at h
  obtain ⟨data, ⟨hdata, -⟩, envelope', hparse, listed', ⟨hlisted', -⟩, encoded, htext, signature,
    hdecode, _, -, chain', hdecoded', _, -, certificate, hcertificate, _, -, _, -, _, -, _, -,
    verified, hverified, rfl⟩ := h
  obtain rfl : envelope' = envelope := by
    rw [envelopeOf, hdata] at henvelope
    exact Option.some.inj (hparse.symm.trans henvelope)
  obtain rfl : listed' = listed := Option.some.inj (hlisted'.symm.trans hlisted)
  obtain rfl : chain' = chain := Except.ok.inj ((decodeAll_congr hdecoded').symm.trans hdecoded)
  rw [hhead] at hcertificate
  exact ⟨envelope', encoded, signature, certificate, henvelope, htext, hdecode, hcertificate,
    hverified⟩

theorem readPackageAt_signed (h : readPackageAt (withChain c t) bytes at' = .ok files) :
    ∃ publisher leaf issuer, SignedBy c (withChain c t) files at' publisher leaf issuer := by
  obtain ⟨files', -, h⟩ := bind_eq_ok.mp h
  obtain ⟨metadata, hmetadata, h⟩ := bind_eq_ok.mp h
  obtain ⟨chain, hchain, h⟩ := bind_eq_ok.mp h
  obtain ⟨_, haccepted, h⟩ := bind_eq_ok.mp h
  obtain ⟨_, hsigned, h⟩ := bind_eq_ok.mp h
  cases h
  obtain ⟨document, hdocument, h⟩ := bind_eq_ok.mp hmetadata
  obtain rfl : document = metadata := by
    obtain ⟨_, -, h⟩ := bind_eq_ok.mp h
    obtain ⟨_, -, h⟩ := bind_eq_ok.mp h
    obtain ⟨_, -, h⟩ := bind_eq_ok.mp h
    exact Except.ok.inj h
  obtain ⟨leaf, issuer, haccepted⟩ := verifyChain_eq_ok.mp haccepted
  exact ⟨document.publisher, leaf, issuer, ⟨document, hdocument, rfl⟩, ⟨chain, hchain, haccepted⟩,
    verifySignature_signed hchain haccepted.head hsigned⟩

theorem SignedBy.accepted (h : SignedBy c t files at' publisher leaf issuer) :
    ∃ chain, Accepted c chain publisher at' leaf issuer := by
  obtain ⟨chain, -, haccepted⟩ := h.chain
  exact ⟨chain, haccepted⟩

theorem publisher_of_leaf (h : SignedBy c t files at' publisher leaf issuer)
    (h' : SignedBy c t files' at'' publisher' leaf issuer') : publisher = publisher' := by
  obtain ⟨_, haccepted⟩ := h.accepted
  obtain ⟨_, haccepted'⟩ := h'.accepted
  obtain ⟨cert, hparse, -, -, -, hcommon⟩ := haccepted.signer
  obtain ⟨cert', hparse', -, -, -, hcommon'⟩ := haccepted'.signer
  obtain rfl : cert = cert' := Option.some.inj (hparse.symm.trans hparse')
  exact Option.some.inj (List.cons.inj (hcommon.symm.trans hcommon')).1

/-- A leaf cannot issue, as its constraints are others. -/
theorem leaf_ne_issuer (h : SignedBy c t files at' publisher leaf issuer)
    (h' : SignedBy c t files' at'' publisher' leaf' issuer') : leaf ≠ issuer' := by
  rintro rfl
  obtain ⟨_, haccepted⟩ := h.accepted
  obtain ⟨_, haccepted'⟩ := h'.accepted
  obtain ⟨cert, hparse, -, hleaf, -⟩ := haccepted.signer
  obtain ⟨cert', hparse', -, _, hissuer, -⟩ := haccepted'.issuing
  obtain rfl : cert = cert' := Option.some.inj (hparse.symm.trans hparse')
  have hconstraints := hleaf.constraints.symm.trans hissuer.constraints
  cases hconstraints

end

/-- The chains of developers. -/
theorem developer_chains (c : Crates) (t : Trust) :
    (∀ chain domain at', verifyChain c chain domain at' = .ok () ↔
      ∃ leaf issuer, Accepted c chain domain at' leaf issuer) ∧
    (∀ chain domain at' e, verifyChain c chain domain at' = .error e →
      e = untrusted ∨ e = certificateRequired ∨ e = identityMismatch) ∧
    (∀ bytes at' files, readPackageAt (withChain c t) bytes at' = .ok files →
      ∃ publisher leaf issuer, SignedBy c (withChain c t) files at' publisher leaf issuer) ∧
    (∀ files at' publisher leaf issuer files' at'' publisher' leaf' issuer',
      SignedBy c (withChain c t) files at' publisher leaf issuer →
      SignedBy c (withChain c t) files' at'' publisher' leaf' issuer' →
        (leaf = leaf' → publisher = publisher') ∧ leaf ≠ issuer') := by
  refine ⟨?_, ?_, ?_, ?_⟩
  · intro chain domain at'
    exact verifyChain_eq_ok
  · intro chain domain at' e h
    exact verifyChain_refuses c chain domain at' e h
  · intro bytes at' files h
    exact readPackageAt_signed h
  · intro files at' publisher leaf issuer files' at'' publisher' leaf' issuer' h h'
    refine ⟨?_, leaf_ne_issuer h h'⟩
    rintro rfl
    exact publisher_of_leaf h h'

/-- A leaf for `alice` and its issuer. -/
def sampleCertificate (constraints : BasicConstraints) (flags : UInt16) : X509 where
  trailing := false
  algorithm := ellipticCurve
  curve := some p384
  signatureAlgorithm := ecdsaSha384
  basicConstraints := some (some constraints)
  keyUsage := some (some ⟨true, flags⟩)
  extendedKeyUsage := some (some ⟨true, false, false, false, false, false, false, false⟩)
  alternativeNames := some (some [.dns "alice"])
  commonNames := [some "alice"]

def sampleCrates : Crates where
  root := [3]
  parse der := match der with
    | [1] => some (sampleCertificate ⟨true, false, none⟩ 1)
    | [2] => some (sampleCertificate ⟨true, true, some 0⟩ 33)
    | _ => none
  normalizeName := some
  usage _ := some .clientAndServer
  anchor _ := true
  endEntity _ := true
  verifies _ leaf issuer _ := leaf == [1] && issuer == [2]

example : verifyChain sampleCrates [[1], [2]] "alice" 0 = .ok () := rfl

example : verifyChain sampleCrates [[2], [2]] "alice" 0 = .error certificateRequired := rfl

end Pishoo.DeveloperChain
