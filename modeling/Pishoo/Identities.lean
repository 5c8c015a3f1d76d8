import Pishoo.Callers

namespace Pishoo.Identities

open Relation Result Authorization Forwarding GuestCalls Callers

abbrev Bytes := List UInt8

inductive Scheme
  | rsaPssSha512
  | ecdsaNistp256Sha256
  | ecdsaNistp384Sha384
  | ed25519

inductive Signing
  | signed (signature : Bytes)
  | unsupported
  | failed

/-- What the identity library does with keys. -/
structure Keys where
  sign : Authority → Scheme → Bytes → Signing
  publicKey : List Bytes → Bytes
  verify : Bytes → Bytes → Bytes → Option Bool

inductive SignError
  | inputTooLarge
  | failed

inductive VerifyError
  | inputTooLarge
  | invalidIdentity
  | unavailable
  | failed

def dataLimit : Nat := 1024 * 1024

def signatureLimit : Nat := 8192

def orFail {ε α : Type} : Option α → ε → Except ε α
  | some a, _ => .ok a
  | none, e => .error e

section

variable (host : Host) (keys : Keys) (g : Guest)

def «local» : Option (String × String) :=
  (host.ownerHash g.local.certificates).map fun hash => (g.local.name, hash)

/-- A guest that is told of no owner hash is trapped. -/
def caller : Option (Option (String × String)) :=
  match g.remote with
  | none => some none
  | some remote => (host.ownerHash remote.certificates).map fun hash => some (remote.name, hash)

def localName : String := g.local.name

def callerName : Option String := g.remote.map Authority.name

def callerIsOwner : Bool :=
  (do
    let remote ← g.remote
    let localName ← host.normalizeName g.local.name
    let callerName ← host.normalizeName remote.name
    if callerName ≠ localName then none
    else do
      let own ← host.ownerHash g.local.certificates
      let other ← host.ownerHash remote.certificates
      some (own == other)).getD false

/-- The first scheme that the key supports. -/
def signWith (data : Bytes) : List Scheme → Except SignError Bytes
  | [] => .error .failed
  | scheme :: schemes => match keys.sign g.local scheme data with
      | .signed signature => .ok signature
      | .unsupported => signWith data schemes
      | .failed => .error .failed

def sign (data : Bytes) : Except SignError Bytes := do
  failIf (dataLimit < data.length) .inputTooLarge
  let signature ← signWith keys g data
    [.rsaPssSha512, .ecdsaNistp256Sha256, .ecdsaNistp384Sha384, .ed25519]
  failIf (signatureLimit < signature.length) .failed
  .ok signature

def verifyBy (authority : Authority) (data signature : Bytes) : Except VerifyError Bool :=
  orFail (keys.verify (keys.publicKey authority.certificates) data signature) .failed

def verify (signature data : Bytes) (name : String) : Except VerifyError Bool := do
  failIf (dataLimit < data.length ∨ signatureLimit < signature.length) .inputTooLarge
  let name ← orFail (host.normalizeName name) .invalidIdentity
  if name = g.local.name then verifyBy keys g.local data signature
  else match g.remote with
    | some remote =>
        if name = remote.name then verifyBy keys remote data signature
        else .error .unavailable
    | none => .error .unavailable

end

/-- What is signed with a key verifies with it. -/
def Sound (keys : Keys) : Prop :=
  ∀ authority scheme data signature, keys.sign authority scheme data = .signed signature →
    keys.verify (keys.publicKey authority.certificates) data signature = some true

section

variable {sys : System} {host : Host} {keys : Keys} {f : Facts} {x : Item} {g g' : Guest}
  {data signature : Bytes} {name : String} {b : Bool}

theorem orFail_eq_ok {ε α : Type} {x : Option α} {e : ε} {a : α} :
    orFail x e = .ok a ↔ x = some a := by
  cases x with
  | none => exact ⟨by rintro ⟨⟩, by rintro ⟨⟩⟩
  | some b => rw [orFail, Except.ok.injEq, Option.some.injEq]

theorem callerIsOwner_iff : callerIsOwner host g = true ↔
    ∃ remote name hash, g.remote = some remote ∧ host.normalizeName g.local.name = some name ∧
      host.normalizeName remote.name = some name ∧
      host.ownerHash g.local.certificates = some hash ∧
      host.ownerHash remote.certificates = some hash := by
  have hgetD {o : Option Bool} : o.getD false = true ↔ o = some true := by
    cases o with
    | none => exact ⟨by rintro ⟨⟩, by rintro ⟨⟩⟩
    | some b => rw [Option.getD_some, Option.some.injEq]
  rw [callerIsOwner, hgetD]
  simp only [Option.bind_eq_bind, Option.bind_eq_some_iff, Option.ite_none_left_eq_some,
    Option.some.injEq, beq_iff_eq, ne_eq, not_not]
  constructor
  · rintro ⟨remote, hremote, name, hname, _, hname', rfl, hash, hhash, _, hhash', rfl⟩
    exact ⟨remote, _, hash, hremote, hname, hname', hhash, hhash'⟩
  · rintro ⟨remote, name, hash, hremote, hname, hname', hhash, hhash'⟩
    exact ⟨remote, hremote, name, hname, name, hname', rfl, hash, hhash, hash, hhash', rfl⟩

/-- The two interfaces tell the same. -/
theorem callerIsOwner_iff_caller : callerIsOwner host g = true ↔ ∃ name name' hash normal,
    «local» host g = some (name, hash) ∧ caller host g = some (some (name', hash)) ∧
      localName g = name ∧ callerName g = some name' ∧
      host.normalizeName name = some normal ∧ host.normalizeName name' = some normal := by
  rw [callerIsOwner_iff]
  constructor
  · rintro ⟨remote, normal, hash, hremote, hname, hname', hhash, hhash'⟩
    refine ⟨g.local.name, remote.name, hash, normal, ?_, ?_, rfl, ?_, hname, hname'⟩
    · rw [«local», hhash]
      rfl
    · rw [caller, hremote]
      change (host.ownerHash remote.certificates).map _ = _
      rw [hhash']
      rfl
    · rw [callerName, hremote]
      rfl
  · rintro ⟨name, name', hash, normal, hlocal, hcaller, rfl, -, hname, hname'⟩
    obtain ⟨own, hown, heq⟩ := Option.map_eq_some_iff.mp hlocal
    cases heq
    rw [caller] at hcaller
    cases hremote : g.remote with
    | none =>
        rw [hremote] at hcaller
        cases hcaller
    | some remote =>
        rw [hremote] at hcaller
        obtain ⟨other, hother, heq⟩ := Option.map_eq_some_iff.mp hcaller
        cases heq
        exact ⟨remote, normal, hash, rfl, hname, hname', hown, hother⟩

theorem owner_iff {handshake : Handshake}
    (hnormal : sys.host.normalizeName sys.endpoint.name = some sys.endpoint.name)
    (h : Told sys (.caller handshake) g) :
    callerIsOwner sys.host g = true ↔ ByOwner sys (.caller handshake) := by
  have hname := h.name handshake rfl
  obtain ⟨hlocal, hremote⟩ := h.caller handshake rfl
  rw [callerIsOwner_iff]
  constructor
  · rintro ⟨remote, name, hash, hremote', hnamed, hnamed', hhash, hhash'⟩
    rw [hname, hnormal] at hnamed
    cases hnamed
    intro r hcarries
    exact .inl ⟨handshake, g.local, remote, hash, hcarries, hlocal, hremote.symm.trans hremote',
      hname ▸ hnormal, hnamed', hhash, hhash'⟩
  · intro howner
    rcases howner ⟨.get, .target [] none, [], some handshake, none, none⟩ rfl with
      ⟨_, own, remote, hash, hsame, hown, hremote', hnamed, hnamed', hhash, hhash'⟩ |
      ⟨_, _, _, hnone, -⟩
    · cases hsame
      cases hlocal.symm.trans hown
      exact ⟨remote, sys.endpoint.name, hash, hremote.trans hremote', hnamed, hnamed', hhash, hhash'⟩
    · cases hnone

theorem not_owner_of_own {authority : Authority} (h : Told sys (.own authority) g) :
    callerIsOwner sys.host g = false := by
  rw [← Bool.not_eq_true, callerIsOwner_iff]
  rintro ⟨remote, _, _, hremote, -⟩
  rw [(h.own authority rfl).2] at hremote
  cases hremote

theorem signWith_signed {schemes : List Scheme} (h : signWith keys g data schemes = .ok signature) :
    ∃ scheme ∈ schemes, keys.sign g.local scheme data = .signed signature := by
  induction schemes with
  | nil => cases h
  | cons scheme schemes ih =>
      rw [signWith] at h
      split at h
      · rename_i hsigned
        cases h
        exact ⟨scheme, List.mem_cons_self, hsigned⟩
      · obtain ⟨other, hother, hsigned⟩ := ih h
        exact ⟨other, List.mem_cons_of_mem _ hother, hsigned⟩
      · cases h

theorem sign_signed (h : sign keys g data = .ok signature) :
    data.length ≤ dataLimit ∧ signature.length ≤ signatureLimit ∧
      ∃ scheme, keys.sign g.local scheme data = .signed signature := by
  simp only [sign, bind_eq_ok, failIf_eq_ok, Nat.not_lt] at h
  obtain ⟨_, hdata, signature', hsigned, _, hlength, h⟩ := h
  cases h
  obtain ⟨scheme, -, hsigned⟩ := signWith_signed hsigned
  exact ⟨hdata, hlength, scheme, hsigned⟩

theorem verify_eq_ok : verify host keys g signature data name = .ok b ↔
    data.length ≤ dataLimit ∧ signature.length ≤ signatureLimit ∧
      ∃ authority, (authority = g.local ∨ g.remote = some authority ∧
          authority.name ≠ g.local.name) ∧
        host.normalizeName name = some authority.name ∧
        keys.verify (keys.publicKey authority.certificates) data signature = some b := by
  simp only [verify, bind_eq_ok, failIf_eq_ok, not_or, Nat.not_lt, orFail_eq_ok]
  constructor
  · rintro ⟨_, ⟨hdata, hlength⟩, normal, hnormal, h⟩
    refine ⟨hdata, hlength, ?_⟩
    split at h
    · rename_i hname
      exact ⟨g.local, .inl rfl, hname ▸ hnormal, orFail_eq_ok.mp h⟩
    · rename_i hname
      split at h
      · rename_i remote hremote
        split at h
        · rename_i hname'
          subst hname'
          exact ⟨remote, .inr ⟨hremote, hname⟩, hnormal, orFail_eq_ok.mp h⟩
        · cases h
      · cases h
  · rintro ⟨hdata, hlength, authority, hend, hnormal, hverify⟩
    refine ⟨(), ⟨hdata, hlength⟩, authority.name, hnormal, ?_⟩
    rcases hend with rfl | ⟨hremote, hname⟩
    · rw [if_pos rfl]
      exact orFail_eq_ok.mpr hverify
    · rw [if_neg hname, hremote]
      change (if authority.name = authority.name then _ else _) = _
      rw [if_pos rfl]
      exact orFail_eq_ok.mpr hverify

theorem verify_sign (hkeys : Sound keys) (hsign : sign keys g data = .ok signature)
    (hname : host.normalizeName name = some g.local.name)
    (hend : g.local = g'.local ∨ g'.remote = some g.local ∧ g.local.name ≠ g'.local.name) :
    verify host keys g' signature data name = .ok true := by
  obtain ⟨hdata, hlength, scheme, hsigned⟩ := sign_signed hsign
  exact verify_eq_ok.mpr ⟨hdata, hlength, g.local, hend, hname, hkeys _ _ _ _ hsigned⟩

end

/-- What a guest is told of the identities, wherever it stands in a run of calls. -/
theorem identities_told {sys : System} {keys : Keys} {f : Facts} {x : Item} {g : Guest}
    (hnormal : sys.host.normalizeName sys.endpoint.name = some sys.endpoint.name)
    (hkeys : Sound keys) (hstart : Starts sys f x)
    (hrun : ReflTransGen (Spawns sys) x (.guest g)) :
    (∃ f', Same sys f f' ∧ Told sys f' g ∧ (callerIsOwner sys.host g = true ↔
      (∃ handshake, f' = .caller handshake) ∧ ByOwner sys f')) ∧
    (callerIsOwner sys.host g = true → ByOwner sys f) ∧
    (callerIsOwner sys.host g = true ↔ ∃ name name' hash normal,
      «local» sys.host g = some (name, hash) ∧ caller sys.host g = some (some (name', hash)) ∧
        localName g = name ∧ callerName g = some name' ∧
        sys.host.normalizeName name = some normal ∧ sys.host.normalizeName name' = some normal) ∧
    (∀ data signature, sign keys g data = .ok signature → ∀ host g' name,
      (g.local = g'.local ∨ g'.remote = some g.local ∧ g.local.name ≠ g'.local.name) →
      host.normalizeName name = some g.local.name →
        verify host keys g' signature data name = .ok true) ∧
    ∀ signature data name, verify sys.host keys g signature data name = .ok true →
      ∃ authority, (authority = g.local ∨ g.remote = some authority) ∧
        sys.host.normalizeName name = some authority.name ∧
        keys.verify (keys.publicKey authority.certificates) data signature = some true := by
  have hacts : Acts sys f (.guest g) := acts_run (.inl hstart.under) hrun
  obtain ⟨f', hsame, htold⟩ := hacts.same (by rintro _ ⟨⟩)
  have htold : Told sys f' g := htold
  have howner : callerIsOwner sys.host g = true ↔
      (∃ handshake, f' = .caller handshake) ∧ ByOwner sys f' := by
    cases f' with
    | caller handshake =>
        rw [owner_iff hnormal htold]
        exact (and_iff_right ⟨handshake, rfl⟩).symm
    | own authority =>
        rw [not_owner_of_own htold]
        exact ⟨by rintro ⟨⟩, by rintro ⟨⟨_, ⟨⟩⟩, -⟩⟩
  refine ⟨⟨f', hsame, htold, howner⟩, ?_, callerIsOwner_iff_caller, ?_, ?_⟩
  · intro htrue
    rcases hsame with rfl | ⟨hby, -⟩
    · exact (howner.mp htrue).2
    · exact hby
  · intro data signature hsign host g' name hend hname
    exact verify_sign hkeys hsign hname hend
  · intro signature data name hverify
    obtain ⟨-, -, authority, hend, hname, hverified⟩ := verify_eq_ok.mp hverify
    refine ⟨authority, ?_, hname, hverified⟩
    rcases hend with hend | ⟨hend, -⟩
    · exact .inl hend
    · exact .inr hend

/-- A signature is the key and the data. -/
def sampleKeys : Keys where
  sign authority scheme data := match scheme with
    | .ed25519 => .signed (authority.certificates.flatten ++ data)
    | _ => .unsupported
  publicKey := List.flatten
  verify key data signature := some (signature == key ++ data)

theorem sampleKeys_sound : Sound sampleKeys := by
  intro authority scheme data signature h
  cases scheme with
  | ed25519 =>
      cases h
      exact congrArg some (beq_self_eq_true _)
  | rsaPssSha512 => cases h
  | ecdsaNistp256Sha256 => cases h
  | ecdsaNistp384Sha384 => cases h

theorem identities_told_bob : callerIsOwner sampleSystem.host bobGuest = false ∧
    verify sampleSystem.host sampleKeys ⟨bob, some alice, .caller ⟨some bob, some alice⟩⟩ [1, 7] [7]
      "alice.example" = .ok true := by
  have hstart : Starts sampleSystem (.caller bobFacts) (.request (bobRequest "/shop/items")) :=
    .inl ⟨_, _, rfl, rfl, rfl⟩
  have hshop : Spawns sampleSystem (.request (bobRequest "/shop/items")) (.guest bobGuest) :=
    @sample_guest "/shop/items" _ _ rfl none
  obtain ⟨-, -, -, hsigned, -⟩ :=
    identities_told rfl sampleKeys_sound hstart (ReflTransGen.single hshop)
  exact ⟨rfl, hsigned [7] [1, 7] rfl _ _ _ (.inr ⟨rfl, by decide⟩) rfl⟩

end Pishoo.Identities
