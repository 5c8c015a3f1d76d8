import Pishoo.BigEndian
import Pishoo.Fault
import Pishoo.Machine
import Pishoo.Publication

namespace Pishoo.Revocation

open Result Publication Prog Machine BigEndian

structure Algorithm where
  oid : String
  parameters : Option Bytes
  deriving DecidableEq

/-- A revoked certificate of a list, and whether its extensions are critical. -/
structure Revoked where
  rawSerial : Bytes
  critical : List Bool

/-- A parsed certificate revocation list. `mapped` says that no extension comes twice, `critical`
which extensions are critical, and `number` is the CRL number. -/
structure Crl where
  trailing : Bool
  issuer : Bytes
  signatureAlgorithm : Algorithm
  tbsSignature : Algorithm
  mapped : Bool
  critical : List Bool
  revoked : List Revoked
  tbs : Bytes
  signature : Bytes
  number : Option Nat
  lastUpdate : Int
  nextUpdate : Option Int

/-- What a list is compared with. `keyUsage` is `none` if it does not parse, and otherwise says
whether the key may sign lists, if the certificate restricts its use. -/
structure Parsed where
  subject : Bytes
  keyUsage : Option (Option Bool)
  publicKey : Bytes
  rawSerial : Bytes

/-- The code that is not Pishoo's own: the parsers and the signature check. -/
structure Oracle where
  crl : Bytes → Option Crl
  certificate : Bytes → Option Parsed
  verify : Bytes → Bytes → Bytes → Option Bool

def invalidList : Error := .packagePolicy "signing_revocation_list_invalid" 422

def revokedCertificate : Error := .packagePolicy "signing_certificate_revoked" 403

def staleList : Error := .packagePolicy "signing_revocation_list_stale" 503

def maxSize : Nat := 4 * 1024 * 1024

/-- The conditions under which a parsed list is refused. -/
def unacceptable (o : Oracle) (issuer : Parsed) (crl : Crl) : Bool :=
  crl.trailing || crl.issuer != issuer.subject || issuer.keyUsage.all (·.all (!·)) ||
    crl.signatureAlgorithm.oid != "1.2.840.10045.4.3.3" ||
    crl.tbsSignature != crl.signatureAlgorithm || !crl.mapped || crl.critical.any (·) ||
    crl.revoked.any (·.critical.any (·)) ||
    o.verify issuer.publicKey crl.tbs crl.signature != some true

def validateCrl (o : Oracle) (data leaf issuer : Bytes) (now : Int) (enforce : Bool) :
    Except Error Bytes := do
  failIf (maxSize < data.length) invalidList
  let crl ← orElse (o.crl data) invalidList
  let issuer ← orElse (o.certificate issuer) invalidList
  let leaf ← orElse (o.certificate leaf) invalidList
  failIf (unacceptable o issuer crl = true) invalidList
  let number ← orElse crl.number invalidList
  failIf (20 < (bytes number).length) invalidList
  doIf (enforce = true) do
    -- a known revocation stays in force even when the list has expired
    failIf (crl.revoked.any (·.rawSerial == leaf.rawSerial) = true) revokedCertificate
    failIf (now < crl.lastUpdate ∨ crl.nextUpdate.all (fun next =>
      decide (next ≤ now ∨ next ≤ crl.lastUpdate)) = true) staleList
  .ok (prefixed number)

/-- The files `<issuer>.crl` of `trust/code-signing`. -/
abbrev Directory : Type := String → Option Bytes

abbrev Op (α : Type) : Type := Prog Unit Directory Error α

def inputOutput : Error := .io "input/output error"

/-- A step that is done or not done. -/
def change (act : Directory → Directory) : Op Unit :=
  step inputOutput (fun _ d => d) fun d => .ok (act d)

def each {α β : Type} (x : Option α) (f : α → Except Error β) : Except Error (Option β) :=
  match x with
  | none => .ok none
  | some a => (f a).map some

/-- `new > old`. -/
def newer : Option Bytes → Option Bytes → Bool
  | some new, some old => less old new
  | some _, none => true
  | none, _ => false

def select (cached incoming old new : Option Bytes) : Option Bytes :=
  match old, new with
  | some old, some new => if !less old new then cached else incoming
  | none, some _ => incoming
  | _, none => cached

/-- The temporary file, the directory and the `fsync`s change nothing that is read later. -/
def persist (name : String) (data : Bytes) : Op Unit := do
  change id
  change fun d => Function.update d name (some data)
  change id

def checkRevocations (t : Trust) (o : Oracle) (files : Files) (supplied : Json) (now : Int) :
    Op Unit := do
  let chain ← ofExcept (certificates t files)
  let leaf ← ofExcept (orElse chain[0]? certificateRequired)
  let issuer ← ofExcept (orElse chain[1]? certificateRequired)
  let name := hex (t.sha256 issuer)
  change id
  let directory ← get
  let cached := directory name
  ofExcept (failIf (cached.any (fun data => decide (maxSize < data.length)) = true) invalidList)
  let incoming ← ofExcept (each supplied.asStr fun s => orElse (t.decode s) invalidList)
  let old ← ofExcept (each cached fun data => validateCrl o data leaf issuer now false)
  let new ← ofExcept (each incoming fun data => validateCrl o data leaf issuer now false)
  match select cached incoming old new with
  | none => pure ()
  | some data => do
      doIf (incoming == some data && newer new old) (persist name data)
      let _ ← ofExcept (validateCrl o data leaf issuer now true)
      pure ()

/-- The list has passed the checks that do not depend on the clock. -/
structure Authentic (o : Oracle) (issuer data : Bytes) (crl : Crl) (n : Nat) : Prop where
  size : data.length ≤ maxSize
  parsed : o.crl data = some crl
  signed : ∃ certificate, o.certificate issuer = some certificate ∧
    unacceptable o certificate crl = false
  number : crl.number = some n
  short : (bytes n).length ≤ 20

def Lists (crl : Crl) (serial : Bytes) : Prop := ∃ entry ∈ crl.revoked, entry.rawSerial = serial

structure Call where
  files : Files
  supplied : Json
  now : Int
  faults : List (Fault Unit)

def call (t : Trust) (o : Oracle) (d : Directory) (c : Call) :
    Exit Error Unit × Directory × List (Fault Unit) :=
  checkRevocations t o c.files c.supplied c.now c.faults d

def step (t : Trust) (o : Oracle) (d : Directory) (c : Call) : Option Directory :=
  some (call t o d c).2.1

/-- The package of the call is signed by the leaf, and its certificate by the issuer. -/
structure Signed (t : Trust) (leaf issuer : Bytes) (c : Call) : Prop where
  chain : ∃ chain, certificates t c.files = .ok chain ∧ chain[0]? = some leaf ∧
    chain[1]? = some issuer

def Issued (t : Trust) (issuer : Bytes) (_ : Directory) (c : Call) : Prop :=
  ∃ leaf, Signed t leaf issuer c

structure Supplies (t : Trust) (o : Oracle) (issuer : Bytes) (c : Call) (data : Bytes) (crl : Crl)
    (n : Nat) : Prop extends Authentic o issuer data crl n where
  supplied : ∃ s, c.supplied.asStr = some s ∧ t.decode s = some data

def fileOf (t : Trust) (issuer : Bytes) : String := hex (t.sha256 issuer)

/-- A list without the serial and with a number above `n` is supplied. -/
def Clears (t : Trust) (o : Oracle) (issuer serial : Bytes) (n : Nat) (_ : Directory) (c : Call) :
    Prop :=
  ∃ data crl m, Supplies t o issuer c data crl m ∧ n < m ∧ ¬Lists crl serial

section

variable {t : Trust} {o : Oracle} {issuer leaf data serial : Bytes} {crl crl' : Crl} {n m : Nat}
  {now : Int} {enforce : Bool} {k : Bytes} {d d' : Directory} {c : Call} {x : Option Bytes}

theorem Authentic.unique (h : Authentic o issuer data crl n) (h' : Authentic o issuer data crl' m) :
    crl' = crl ∧ m = n := by
  have hcrl : crl' = crl := Option.some.inj (h'.parsed.symm.trans h.parsed)
  subst hcrl
  exact ⟨rfl, Option.some.inj (h'.number.symm.trans h.number)⟩

theorem validateCrl_ok (h : validateCrl o data leaf issuer now enforce = .ok k) :
    ∃ crl n, Authentic o issuer data crl n ∧ k = prefixed n ∧
      (enforce = true → ∃ certificate, o.certificate leaf = some certificate ∧
        ¬Lists crl certificate.rawSerial) := by
  obtain ⟨_, hsize, h⟩ := bind_eq_ok.mp h
  obtain ⟨crl, hcrl, h⟩ := bind_eq_ok.mp h
  obtain ⟨certificate, hissuer, h⟩ := bind_eq_ok.mp h
  obtain ⟨leafCertificate, hleaf, h⟩ := bind_eq_ok.mp h
  obtain ⟨_, hsigned, h⟩ := bind_eq_ok.mp h
  obtain ⟨n, hnumber, h⟩ := bind_eq_ok.mp h
  obtain ⟨_, hshort, h⟩ := bind_eq_ok.mp h
  obtain ⟨_, henforce, h⟩ := bind_eq_ok.mp h
  cases h
  refine ⟨crl, n, ⟨?_, orElse_eq_ok.mp hcrl, ⟨certificate, orElse_eq_ok.mp hissuer, ?_⟩,
    orElse_eq_ok.mp hnumber, ?_⟩, rfl, fun he => ⟨leafCertificate, orElse_eq_ok.mp hleaf, ?_⟩⟩
  · exact Nat.le_of_not_lt (failIf_eq_ok.mp hsize)
  · simpa using failIf_eq_ok.mp hsigned
  · exact Nat.le_of_not_lt (failIf_eq_ok.mp hshort)
  · obtain ⟨_, hnot, -⟩ := bind_eq_ok.mp (doIf_eq_ok.mp henforce he)
    rintro ⟨entry, hentry, hserial⟩
    exact failIf_eq_ok.mp hnot (List.any_eq_true.mpr ⟨entry, hentry, by simp [hserial]⟩)

theorem validateCrl_isOk (h : Authentic o issuer data crl n)
    (hleaf : (o.certificate leaf).isSome = true) :
    validateCrl o data leaf issuer now false = .ok (prefixed n) := by
  obtain ⟨leafCertificate, hleaf⟩ := Option.isSome_iff_exists.mp hleaf
  obtain ⟨certificate, hissuer, hsigned⟩ := h.signed
  unfold validateCrl
  simp only [bind_eq_ok]
  refine ⟨(), failIf_eq_ok.mpr (Nat.not_lt.mpr h.size), crl, orElse_eq_ok.mpr h.parsed, certificate,
    orElse_eq_ok.mpr hissuer, leafCertificate, orElse_eq_ok.mpr hleaf, (), ?_, n,
    orElse_eq_ok.mpr h.number, (), failIf_eq_ok.mpr (Nat.not_lt.mpr h.short), (), ?_, rfl⟩
  · rw [failIf_eq_ok, hsigned]
    simp
  · rw [doIf_eq_ok]
    nofun

theorem less_iff_lt (h : Authentic o issuer data crl n) {data' : Bytes}
    (h' : Authentic o issuer data' crl' m) : less (prefixed n) (prefixed m) = true ↔ n < m := by
  have hn := h.short
  have hm := h'.short
  exact less_prefixed_iff (by omega) (by omega)

theorem each_eq_ok {α β : Type} {x : Option α} {f : α → Except Error β} {y : Option β} :
    each x f = .ok y ↔ (x = none ∧ y = none) ∨ ∃ a b, x = some a ∧ f a = .ok b ∧ y = some b := by
  cases x with
  | none => simp [each, eq_comm]
  | some a =>
      cases h : f a with
      | error e => simp [each, h, Except.map]
      | ok b => simp [each, h, Except.map, eq_comm]

/-- The number of a list that may be absent. -/
def numberOf (o : Oracle) (list : Option Bytes) : Option Nat := do
  let data ← list
  let crl ← o.crl data
  crl.number

theorem Authentic.below (h : Authentic o issuer data crl n) : n < 2 ^ 160 :=
  length_le_iff.mp h.short

theorem Authentic.number_eq (h : Authentic o issuer data crl n) : numberOf o (some data) = some n := by
  simp [numberOf, h.parsed, h.number]

theorem each_validated {key : Option Bytes}
    (h : each x (fun data => validateCrl o data leaf issuer now enforce) = .ok key) :
    key = (numberOf o x).map prefixed ∧ ((numberOf o x).isSome = x.isSome) ∧
      ∀ n ∈ numberOf o x, n < 2 ^ 160 := by
  obtain ⟨rfl, rfl⟩ | ⟨data, k, rfl, hk, rfl⟩ := each_eq_ok.mp h
  · exact ⟨rfl, rfl, fun n hn => nomatch hn⟩
  · obtain ⟨crl, n, hauthentic, rfl, -⟩ := validateCrl_ok hk
    rw [hauthentic.number_eq]
    refine ⟨rfl, rfl, fun m hm => ?_⟩
    cases hm
    exact hauthentic.below

theorem prefixed_le {a b : Nat} (ha : a < 2 ^ 160) (hb : b < 2 ^ 160) :
    prefixed a ≤ prefixed b ↔ a ≤ b := by
  have hshort {n : Nat} (hn : n < 2 ^ 160) : (bytes n).length ≤ 19 + 1 := length_le_iff.mpr hn
  have hla := hshort ha
  have hlb := hshort hb
  exact prefixed_le_iff (by omega) (by omega)

theorem less_prefixed {a b : Nat} (ha : a < 2 ^ 160) (hb : b < 2 ^ 160) :
    less (prefixed a) (prefixed b) = true ↔ a < b := by
  rw [less_iff_lex, ← List.not_le, prefixed_le hb ha, Nat.not_le]

theorem newer_iff {a b : Option Nat} (ha : ∀ n ∈ a, n < 2 ^ 160) (hb : ∀ n ∈ b, n < 2 ^ 160) :
    newer (b.map prefixed) (a.map prefixed) = true ↔ a < b := by
  cases b with
  | none => simp [newer]
  | some m =>
      cases a with
      | none => simp [newer]
      | some n =>
          rw [Option.some_lt_some]
          exact less_prefixed (ha n rfl) (hb m rfl)

theorem select_incoming {cached incoming old new : Option Bytes} (h : newer new old = true) :
    select cached incoming old new = incoming := by
  cases new with
  | none => cases h
  | some m =>
      cases old with
      | none => rfl
      | some n =>
          change less n m = true at h
          simp only [select, h, Bool.not_true, Bool.false_eq_true, if_false]

theorem select_cached {cached incoming old new : Option Bytes} (h : ¬newer new old = true) :
    select cached incoming old new = cached := by
  cases new with
  | none => cases old <;> rfl
  | some m =>
      cases old with
      | none => exact absurd rfl h
      | some n =>
          change ¬less n m = true at h
          rw [Bool.not_eq_true] at h
          simp only [select, h, Bool.not_false, if_true]

theorem change_triple {P R : Directory → Prop} {act : Directory → Directory} {Q : Directory → Prop}
    (hcut : ∀ d, P d → R d) (hok : ∀ d, P d → Q (act d)) :
    Triple P (change act) (fun _ => Q) (fun e d => e = inputOutput ∧ R d) R := by
  refine Triple.step (fun d hd _ => ⟨⟨rfl, hcut d hd⟩, hcut d hd⟩) (fun d d' hd h => ?_)
    fun _ _ _ h => nomatch h
  cases h
  exact hok d hd

/-- A call that has stored the list, or has failed before. -/
def Stored (name : String) (data : Bytes) (stores : Bool) (d d' : Directory) : Prop :=
  d' = if stores then Function.update d name (some data) else d

theorem persist_triple {name : String} :
    Triple (fun d' => d' = d) (persist name data) (fun _ => Stored name data true d)
      (fun e d' => Stored name data true d d' ∨ e = inputOutput ∧ d' = d)
      fun d' => Stored name data true d d' ∨ d' = d := by
  have hsync {P : Directory → Prop} : Triple P (change id) (fun _ => P)
      (fun e d' => e = inputOutput ∧ P d') P := change_triple (fun _ h => h) fun _ h => h
  have hwrite : Triple (fun d' => d' = d) (change fun d => Function.update d name (some data))
      (fun _ => Stored name data true d) (fun e d' => e = inputOutput ∧ d' = d) fun d' => d' = d := by
    refine change_triple (fun _ h => h) ?_
    rintro _ rfl
    rfl
  refine Triple.bind (hsync.conseq (fun _ h => h) (fun _ _ h => h) (fun _ _ => .inr) fun _ => .inr)
    fun _ => Triple.bind (hwrite.conseq (fun _ h => h) (fun _ _ h => h) (fun _ _ => .inr)
      fun _ => .inr) fun _ => ?_
  exact hsync.conseq (fun _ h => h) (fun _ _ h => h) (fun _ _ h => .inl h.2) fun _ => .inl

theorem enforce_triple {name : String} {stores : Bool} :
    Triple (fun d' => d' = d) (do
        doIf stores (persist name data)
        let _ ← ofExcept (validateCrl o data leaf issuer now true)
        pure ())
      (fun _ d' => Stored name data stores d d' ∧
        ∃ k, validateCrl o data leaf issuer now true = .ok k)
      (fun e d' => Stored name data stores d d' ∨ e = inputOutput ∧ d' = d)
      fun d' => Stored name data stores d d' ∨ d' = d := by
  refine Triple.bind (R := fun _ => Stored name data stores d)
    (Triple.doIf (fun hstores => ?_) fun hskip d' h => ?_) fun _ =>
      Triple.ofExcept_bind (fun k hk => Triple.pure fun d' h => ⟨h, k, hk⟩) fun _ _ _ => .inl
  · rw [hstores]
    exact persist_triple
  · rw [hskip]
    exact h

/-- The cached list, if there is one, has a number below `n`. -/
def Newer (o : Oracle) (issuer : Bytes) (d : Directory) (name : String) (n : Nat) : Prop :=
  ∀ old, d name = some old → ∃ crl₀ n₀, Authentic o issuer old crl₀ n₀ ∧ n₀ < n

/-- What a call may do to the directory. -/
def Kept (t : Trust) (o : Oracle) (issuer : Bytes) (c : Call) (d d' : Directory) : Prop :=
  d' = d ∨ ∃ data crl n, Supplies t o issuer c data crl n ∧
    Newer o issuer d (fileOf t issuer) n ∧ d' = Function.update d (fileOf t issuer) (some data)

/-- What a call that succeeds has checked: the cached list or a newer one does not name its leaf. -/
def Passed (t : Trust) (o : Oracle) (issuer leaf : Bytes) (c : Call) (d : Directory) : Prop :=
  ∀ data, d (fileOf t issuer) = some data → ∃ crl n, Authentic o issuer data crl n ∧
    ∃ certificate, o.certificate leaf = some certificate ∧ (¬Lists crl certificate.rawSerial ∨
      ∃ data' crl' n', Supplies t o issuer c data' crl' n' ∧ n < n' ∧
        ¬Lists crl' certificate.rawSerial)

theorem cached_triple {name : String} {stores : Bool} (hname : name = fileOf t issuer)
    (hcached : d name = some data) (hstores : stores = false) :
    Triple (fun d' => d' = d) (do
        doIf stores (persist name data)
        let _ ← ofExcept (validateCrl o data leaf issuer now true)
        pure ())
      (fun _ d' => Kept t o issuer c d d' ∧ Passed t o issuer leaf c d)
      (fun _ => Kept t o issuer c d) (Kept t o issuer c d) := by
  subst hname hstores
  refine enforce_triple.conseq (fun _ h => h) ?_ ?_ ?_
  · rintro _ d' ⟨hd, k, hk⟩
    refine ⟨.inl hd, fun data' hdata => ?_⟩
    rw [hcached] at hdata
    cases hdata
    obtain ⟨crl, n, hauthentic, -, hnot⟩ := validateCrl_ok hk
    obtain ⟨certificate, hcertificate, hlists⟩ := hnot rfl
    exact ⟨crl, n, hauthentic, certificate, hcertificate, .inl hlists⟩
  · rintro e d' (h | ⟨-, h⟩) <;> exact .inl h
  · rintro d' (h | h) <;> exact .inl h

theorem incoming_triple {name : String} {stores : Bool} (hname : name = fileOf t issuer)
    (hstores : stores = true) (hsupplies : Supplies t o issuer c data crl n)
    (hnewer : Newer o issuer d name n) :
    Triple (fun d' => d' = d) (do
        doIf stores (persist name data)
        let _ ← ofExcept (validateCrl o data leaf issuer now true)
        pure ())
      (fun _ d' => Kept t o issuer c d d' ∧ Passed t o issuer leaf c d)
      (fun _ => Kept t o issuer c d) (Kept t o issuer c d) := by
  subst hname hstores
  have hstored (d' : Directory) (h : Stored (fileOf t issuer) data true d d') :
      Kept t o issuer c d d' := .inr ⟨data, crl, n, hsupplies, hnewer, h⟩
  refine enforce_triple.conseq (fun _ h => h) ?_ ?_ ?_
  · rintro _ d' ⟨hd, k, hk⟩
    refine ⟨hstored d' hd, fun old hold => ?_⟩
    obtain ⟨crl₀, n₀, hauthentic, hlt⟩ := hnewer old hold
    obtain ⟨crl', m, hauthentic', -, hnot⟩ := validateCrl_ok hk
    obtain ⟨certificate, hcertificate, hlists⟩ := hnot rfl
    obtain ⟨rfl, rfl⟩ := hsupplies.toAuthentic.unique hauthentic'
    exact ⟨crl₀, n₀, hauthentic, certificate, hcertificate,
      .inr ⟨data, _, _, hsupplies, hlt, hlists⟩⟩
  · rintro e d' (h | ⟨-, h⟩)
    · exact hstored d' h
    · exact .inl h
  · rintro d' (h | h)
    · exact hstored d' h
    · exact .inl h

theorem checkRevocations_triple (hs : Signed t leaf issuer c) :
    Triple (fun d' => d' = d) (checkRevocations t o c.files c.supplied c.now)
      (fun _ d' => Kept t o issuer c d d' ∧ Passed t o issuer leaf c d)
      (fun _ => Kept t o issuer c d) (Kept t o issuer c d) := by
  obtain ⟨chain, hchain, hleaf, hissuer⟩ := hs.chain
  refine Triple.ofExcept_ok hchain (Triple.ofExcept_ok (orElse_eq_ok.mpr hleaf)
    (Triple.ofExcept_ok (orElse_eq_ok.mpr hissuer) ?_))
  refine Triple.bind ((change_triple (Q := fun d' => d' = d) (fun _ h => h) fun _ h => h).conseq
    (fun _ h => h) (fun _ _ h => h) (fun _ _ h => .inl h.2) fun _ => .inl) fun _ =>
      Triple.get fun s hsame => ?_
  rw [hsame]
  refine Triple.ofExcept_bind (fun _ _ => ?_) fun _ _ _ => .inl
  refine Triple.ofExcept_bind (fun incoming hincoming => ?_) fun _ _ _ => .inl
  refine Triple.ofExcept_bind (fun old hold => ?_) fun _ _ _ => .inl
  refine Triple.ofExcept_bind (fun new hnew => ?_) fun _ _ _ => .inl
  have hname : hex (t.sha256 issuer) = fileOf t issuer := rfl
  rw [hname] at hold ⊢
  obtain ⟨-, rfl⟩ | ⟨text, data, htext, hdecode, rfl⟩ := each_eq_ok.mp hincoming
  · obtain ⟨-, rfl⟩ | ⟨_, _, hnone, -⟩ := each_eq_ok.mp hnew
    · obtain ⟨hcached, rfl⟩ | ⟨old, k, hcached, -, rfl⟩ := each_eq_ok.mp hold
      · rw [hcached]
        refine Triple.pure fun d' h => ⟨.inl h, fun data hdata => ?_⟩
        rw [hcached] at hdata
        cases hdata
      · rw [hcached]
        exact cached_triple rfl hcached rfl
    · cases hnone
  · obtain ⟨hnone, -⟩ | ⟨_, k', hdata, hvalid, rfl⟩ := each_eq_ok.mp hnew
    · cases hnone
    · cases hdata
      obtain ⟨crl, n, hauthentic, rfl, -⟩ := validateCrl_ok hvalid
      have hsupplies : Supplies t o issuer c data crl n :=
        ⟨hauthentic, text, htext, orElse_eq_ok.mp hdecode⟩
      obtain ⟨hcached, rfl⟩ | ⟨old, k, hcached, hvalid₀, rfl⟩ := each_eq_ok.mp hold
      · rw [hcached]
        refine incoming_triple rfl (by simp [newer]) hsupplies fun old hold => ?_
        rw [hcached] at hold
        cases hold
      · obtain ⟨crl₀, n₀, hauthentic₀, rfl, -⟩ := validateCrl_ok hvalid₀
        have hless := less_iff_lt hauthentic₀ hauthentic
        rw [hcached]
        by_cases hlt : n₀ < n
        · simp only [select, hless.mpr hlt, Bool.not_true, Bool.false_eq_true, if_false]
          refine incoming_triple rfl (by simp [newer, hless.mpr hlt]) hsupplies fun old' hold' => ?_
          rw [hcached] at hold'
          cases hold'
          exact ⟨crl₀, n₀, hauthentic₀, hlt⟩
        · rw [← hless, Bool.not_eq_true] at hlt
          simp only [select, hlt, Bool.not_false, if_true]
          exact cached_triple rfl hcached (by simp [newer, hlt])

theorem each_some {α β : Type} {f : α → Except Error β} {a : α} {b : β} (h : f a = .ok b) :
    each (some a) f = .ok (some b) := by
  rw [each, h]
  rfl

/-- A newer list is stored, whatever the call answers, unless a file operation fails. -/
theorem supplied_triple (hs : Signed t leaf issuer c) (hleaf' : (o.certificate leaf).isSome = true)
    (hsupplies : Supplies t o issuer c data crl n) (hnewer : Newer o issuer d (fileOf t issuer) n) :
    Triple (fun d' => d' = d) (checkRevocations t o c.files c.supplied c.now)
      (fun _ d' => d' (fileOf t issuer) = some data)
      (fun e d' => d' (fileOf t issuer) = some data ∨ e = inputOutput) fun _ => True := by
  have henforce (now : Int) (stores : Bool) (hstores : stores = true) :
      Triple (fun d' => d' = d) (do
          doIf stores (persist (fileOf t issuer) data)
          let _ ← ofExcept (validateCrl o data leaf issuer now true)
          pure ())
        (fun _ d' => d' (fileOf t issuer) = some data)
        (fun e d' => d' (fileOf t issuer) = some data ∨ e = inputOutput) fun _ => True := by
    subst hstores
    have hstored (d' : Directory) (h : Stored (fileOf t issuer) data true d d') :
        d' (fileOf t issuer) = some data := by
      rw [h]
      exact Function.update_self _ _ _
    refine enforce_triple.conseq (fun _ h => h) (fun _ d' h => hstored d' h.1) ?_ fun _ _ => trivial
    rintro e d' (h | ⟨h, -⟩)
    · exact .inl (hstored d' h)
    · exact .inr h
  obtain ⟨chain, hchain, hleaf, hissuer⟩ := hs.chain
  obtain ⟨text, htext, hdecode⟩ := hsupplies.supplied
  have hincoming : each c.supplied.asStr (fun s => orElse (t.decode s) invalidList) =
      .ok (some data) := by
    rw [htext]
    exact each_some (orElse_eq_ok.mpr hdecode)
  have hvalid : validateCrl o data leaf issuer c.now false = .ok (prefixed n) :=
    validateCrl_isOk hsupplies.toAuthentic hleaf'
  refine Triple.ofExcept_ok hchain (Triple.ofExcept_ok (orElse_eq_ok.mpr hleaf)
    (Triple.ofExcept_ok (orElse_eq_ok.mpr hissuer) ?_))
  refine Triple.bind ((change_triple (Q := fun d' => d' = d) (fun _ h => h) fun _ h => h).conseq
    (fun _ h => h) (fun _ _ h => h) (fun _ _ h => .inr h.1) fun _ _ => trivial) fun _ =>
      Triple.get fun s hsame => ?_
  rw [hsame]
  have hname : hex (t.sha256 issuer) = fileOf t issuer := rfl
  rw [hname]
  cases hcached : d (fileOf t issuer) with
  | none =>
      refine Triple.ofExcept_ok rfl (Triple.ofExcept_ok hincoming (Triple.ofExcept_ok rfl
        (Triple.ofExcept_ok (each_some hvalid) ?_)))
      exact henforce c.now _ (by simp [newer])
  | some old =>
      obtain ⟨crl₀, n₀, hauthentic, hlt⟩ := hnewer old hcached
      have hless := (less_iff_lt hauthentic hsupplies.toAuthentic).mpr hlt
      have hsize : failIf ((some old).any (fun data => decide (maxSize < data.length)) = true)
          invalidList = .ok () := by
        rw [failIf_eq_ok]
        simpa using hauthentic.size
      refine Triple.ofExcept_ok hsize (Triple.ofExcept_ok hincoming
        (Triple.ofExcept_ok (each_some (validateCrl_isOk hauthentic hleaf'))
          (Triple.ofExcept_ok (each_some hvalid) ?_)))
      simp only [select, hless, Bool.not_true, Bool.false_eq_true, if_false]
      exact henforce c.now _ (by simp [newer, hless])

/-- The cached list has a number from `n` on. -/
def Cached (t : Trust) (o : Oracle) (issuer : Bytes) (n : Nat) (d : Directory) (crl : Crl) : Prop :=
  ∃ data m, d (fileOf t issuer) = some data ∧ Authentic o issuer data crl m ∧ n ≤ m

theorem step_kept (hi : Issued t issuer d c) (h : step t o d c = some d') :
    Kept t o issuer c d d' := by
  obtain ⟨leaf, hs⟩ := hi
  cases h
  exact (checkRevocations_triple (o := o) hs).conseq (fun _ h => h) (fun _ _ h => h.1) (fun _ _ h => h)
    (fun _ h => h) |>.state c.faults rfl

/-- One call keeps the list, or caches one with a greater number. -/
theorem step_cached (hi : Issued t issuer d c) (h : step t o d c = some d')
    (hc : Cached t o issuer n d crl) : Cached t o issuer n d' crl ∨
      ∃ data crl' m, Supplies t o issuer c data crl' m ∧ n < m ∧ Cached t o issuer n d' crl' := by
  obtain ⟨data, m, hdata, hauthentic, hle⟩ := hc
  obtain rfl | ⟨data', crl', m', hsupplies, hnewer, rfl⟩ := step_kept hi h
  · exact .inl ⟨data, m, hdata, hauthentic, hle⟩
  · obtain ⟨crl₀, n₀, hauthentic₀, hlt⟩ := hnewer data hdata
    obtain ⟨-, rfl⟩ := hauthentic.unique hauthentic₀
    refine .inr ⟨data', crl', m', hsupplies, by omega, data', m', ?_, hsupplies.toAuthentic, by omega⟩
    exact Function.update_self _ _ _

theorem run_cached {cs : List Call} (h : Trace (step t o) (Issued t issuer) d cs d')
    (hc : Cached t o issuer n d crl) (hl : Lists crl serial) :
    (∃ crl', Cached t o issuer n d' crl' ∧ Lists crl' serial) ∨
      Happens (step t o) (Issued t issuer) (Clears t o issuer serial n) d cs := by
  induction h with
  | nil => exact .inl ⟨crl, hc, hl⟩
  | snoc htrace hi hstep ih =>
      obtain ⟨crl₁, hc₁, hl₁⟩ | hhappens := ih
      · obtain hkept | ⟨data, crl₂, m, hsupplies, hlt, hc₂⟩ := step_cached hi hstep hc₁
        · exact .inl ⟨crl₁, hkept, hl₁⟩
        · by_cases hl₂ : Lists crl₂ serial
          · exact .inl ⟨crl₂, hc₂, hl₂⟩
          · exact .inr (htrace.happens ⟨data, crl₂, m, hsupplies, hlt, hl₂⟩)
      · exact .inr (hhappens.snoc _)

theorem run_number {cs : List Call} (h : Trace (step t o) (Issued t issuer) d cs d')
    (hc : Cached t o issuer n d crl) : ∃ crl', Cached t o issuer n d' crl' := by
  refine h.invariant (I := fun d => ∃ crl, Cached t o issuer n d crl) ⟨crl, hc⟩ ?_
  rintro d₁ c d₂ ⟨crl₁, hc₁⟩ hi hstep
  obtain hkept | ⟨_, crl₂, _, -, -, hc₂⟩ := step_cached hi hstep hc₁
  · exact ⟨crl₁, hkept⟩
  · exact ⟨crl₂, hc₂⟩

/-- A call that succeeds for a leaf that the cached list names has been supplied a newer list that
does not name it. -/
theorem passed_clears {certificate : Parsed} (hs : Signed t leaf issuer c)
    (hleaf : o.certificate leaf = some certificate) (hc : Cached t o issuer n d crl)
    (hl : Lists crl certificate.rawSerial) (hok : (call t o d c).1 = .ok ()) :
    Clears t o issuer certificate.rawSerial n d c := by
  obtain ⟨data, m, hdata, hauthentic, hle⟩ := hc
  obtain ⟨-, hpassed⟩ := (checkRevocations_triple (o := o) hs).result rfl
    (Prod.ext hok (Prod.ext rfl rfl) : call t o d c = (_, _, _))
  obtain ⟨crl₀, m₀, hauthentic₀, certificate', hcertificate', hnot⟩ := hpassed data hdata
  obtain ⟨rfl, rfl⟩ := hauthentic.unique hauthentic₀
  rw [hleaf] at hcertificate'
  cases hcertificate'
  obtain hnot | ⟨data', crl', m', hsupplies, hlt, hnot⟩ := hnot
  · exact absurd hl hnot
  · exact ⟨data', crl', m', hsupplies, by omega, hnot⟩

end

/-- For packages of one issuer, the number of the cached list never decreases. A newer list becomes
the cached one unless a file operation fails or the call is cut short. While the cached list names
a leaf, no call for it succeeds before a newer list without it has been supplied. -/
theorem revocations_kept {t : Trust} {o : Oracle} {issuer : Bytes} {d d' : Directory}
    {cs : List Call} (h : Trace (step t o) (Issued t issuer) d cs d') :
    (∀ n crl, Cached t o issuer n d crl → ∃ crl', Cached t o issuer n d' crl') ∧
    (∀ c leaf data crl n, Signed t leaf issuer c → (o.certificate leaf).isSome = true →
      Supplies t o issuer c data crl n → Newer o issuer d' (fileOf t issuer) n →
        (call t o d' c).2.1 (fileOf t issuer) = some data ∨
          (call t o d' c).1 = .err inputOutput ∨ (call t o d' c).1 = .crashed) ∧
    ∀ n crl c leaf certificate, Cached t o issuer n d crl → Signed t leaf issuer c →
      o.certificate leaf = some certificate → Lists crl certificate.rawSerial →
        (call t o d' c).1 = .ok () → Happens (step t o) (Issued t issuer)
          (Clears t o issuer certificate.rawSerial n) d (cs ++ [c]) := by
  refine ⟨fun n crl => run_number h, ?_, ?_⟩
  · intro c leaf data crl n hs hleaf hsupplies hnewer
    have hends := supplied_triple hs hleaf hsupplies hnewer c.faults d' rfl
    change Ends _ _ _ (call t o d' c) at hends
    revert hends
    obtain ⟨x, d'', gs⟩ := call t o d' c
    cases x with
    | ok u => exact fun h => .inl h
    | err e => exact fun h => h.imp_right fun h => .inl (congrArg Exit.err h)
    | crashed => exact fun _ => .inr (.inr rfl)
  · intro n crl c leaf certificate hc hs hleaf hl hok
    obtain ⟨crl', hc', hl'⟩ | hhappens := run_cached h hc hl
    · exact h.happens (passed_clears hs hleaf hc' hl' hok)
    · exact hhappens.snoc c

/-- The keys of the numbers below `2 ^ 160` are ordered as the numbers. Of two accepted lists, the
one with the greater number is selected, and it is stored if it is the incoming one. -/
theorem newest_selected {o : Oracle} {leaf issuer : Bytes} {now : Int}
    {cached incoming old new : Option Bytes}
    (hold : each cached (fun data => validateCrl o data leaf issuer now false) = .ok old)
    (hnew : each incoming (fun data => validateCrl o data leaf issuer now false) = .ok new) :
    (∀ a b, a < 2 ^ 160 → b < 2 ^ 160 → (prefixed a ≤ prefixed b ↔ a ≤ b)) ∧
    (∀ a b, prefixed a = prefixed b ↔ a = b) ∧
    old = (numberOf o cached).map prefixed ∧ new = (numberOf o incoming).map prefixed ∧
    (∀ n ∈ numberOf o cached, n < 2 ^ 160) ∧ (∀ n ∈ numberOf o incoming, n < 2 ^ 160) ∧
    (newer new old = true ↔ numberOf o cached < numberOf o incoming) ∧
    (numberOf o cached < numberOf o incoming → select cached incoming old new = incoming) ∧
    (¬numberOf o cached < numberOf o incoming → select cached incoming old new = cached) := by
  obtain ⟨rfl, hcached, hcachedBelow⟩ := each_validated hold
  obtain ⟨rfl, hincoming, hincomingBelow⟩ := each_validated hnew
  have hnewer := newer_iff hcachedBelow hincomingBelow
  refine ⟨fun a b => prefixed_le, fun a b => prefixed_inj, rfl, rfl, hcachedBelow, hincomingBelow,
    hnewer, ?_, ?_⟩
  · intro hlt
    exact select_incoming (hnewer.mpr hlt)
  · intro hle
    exact select_cached fun h => hle (hnewer.mp h)

/-- A list with the number `n` and the serial is supplied. -/
def Names (t : Trust) (o : Oracle) (issuer serial : Bytes) (n : Nat) (_ : Directory) (c : Call) :
    Prop :=
  ∃ data crl, Supplies t o issuer c data crl n ∧ Lists crl serial

def leafBytes : Bytes := [48, 1]

def issuerBytes : Bytes := [48, 2]

def issuerHash : Bytes :=
  [117, 142, 86, 153, 183, 117, 77, 198, 46, 126, 187, 207, 99, 223, 126, 174, 85, 38, 85, 183, 230,
    111, 200, 77, 197, 180, 155, 115, 123, 246, 150, 48]

def decodeBase64 (s : String) : Option Bytes :=
  [("MAE=", leafBytes), ("MAI=", issuerBytes), ("AQ==", [1]), ("Ag==", [2]), ("Aw==", [3])].lookup s

def envelope : Json :=
  .obj [("version", .int 1), ("signature", .str "AQ=="),
    ("certificates", .arr [.str "MAE=", .str "MAI="])]

def trust : Trust where
  sha256 _ := issuerHash
  decode := decodeBase64
  parse data := if data = [123] then some envelope else none
  normalizeName := some
  parseUrl _ := none
  wazRead _ := .ok []
  root := issuerBytes
  certificate _ := none
  keyIdentifier _ := none
  verifySignature _ _ _ := some true
  verifyChain _ _ _ := .ok ()
  serverAuth _ _ := true
  validForName _ _ := true
  validateComponent _ := .ok ()
  capabilityRows _ := .ok []

def listOf (number : Nat) (revoked : List Revoked) : Crl where
  trailing := false
  issuer := [1]
  signatureAlgorithm := ⟨"1.2.840.10045.4.3.3", none⟩
  tbsSignature := ⟨"1.2.840.10045.4.3.3", none⟩
  mapped := true
  critical := [false]
  revoked := revoked
  tbs := []
  signature := []
  number := some number
  lastUpdate := 0
  nextUpdate := some 100

/-- The first list is clean, the third has the same number and names the leaf. -/
def lists : List (Bytes × Crl) :=
  [([1], listOf 1 []), ([2], listOf 2 [⟨[7], []⟩]), ([3], listOf 1 [⟨[7], []⟩])]

def leafCertificate : Parsed := ⟨[2], some none, [], [7]⟩

def oracle : Oracle where
  crl data := lists.lookup data
  certificate data :=
    [(leafBytes, leafCertificate), (issuerBytes, ⟨[1], some (some true), [], [8]⟩)].lookup data
  verify _ _ _ := some true

def package : Files := [("signature.json", [123])]

def callAt (supplied : Json) : Call := ⟨package, supplied, 50, []⟩

theorem certificates_package : certificates trust package = .ok [leafBytes, issuerBytes] := by
  decide +kernel

theorem callAt_signed (supplied : Json) : Signed trust leafBytes issuerBytes (callAt supplied) :=
  ⟨_, certificates_package, rfl, rfl⟩

def next (d : Directory) (supplied : Json) : Directory := (call trust oracle d (callAt supplied)).2.1

theorem trace_next {d d' : Directory} {cs : List Call} (supplied : Json)
    (h : Trace (step trust oracle) (Issued trust issuerBytes) d cs d') :
    Trace (step trust oracle) (Issued trust issuerBytes) d (cs ++ [callAt supplied])
      (next d' supplied) :=
  .snoc h ⟨leafBytes, callAt_signed supplied⟩ rfl

def fresh : Directory := fun _ => none

/-- The list with the number one is cached. -/
def cleanDirectory : Directory := next fresh (.str "AQ==")

theorem authentic_listOf {data : Bytes} {n : Nat} {revoked : List Revoked}
    (hparsed : oracle.crl data = some (listOf n revoked)) (hsize : data.length = 1)
    (hshort : (bytes n).length ≤ 20) (hrevoked : revoked.any (·.critical.any (·)) = false) :
    Authentic oracle issuerBytes data (listOf n revoked) n where
  size := by
    rw [hsize]
    decide
  parsed := hparsed
  signed := ⟨_, rfl, by simp [unacceptable, listOf, oracle, hrevoked]⟩
  number := rfl
  short := hshort

/-- A call with a list up to the number `n` and one without a list. -/
theorem not_clears {d : Directory} {supplied : String} {data serial : Bytes} {crl : Crl}
    {n m : Nat} (hdecode : trust.decode supplied = some data)
    (hauthentic : Authentic oracle issuerBytes data crl m) (hle : m ≤ n) :
    ¬Happens (step trust oracle) (Issued trust issuerBytes)
      (Clears trust oracle issuerBytes serial n) d [callAt (.str supplied), callAt .null] := by
  rintro ⟨before, c, rest, _, hcalls, -, data', crl', m', hsupplies, hlt, -⟩
  obtain ⟨text, htext, hdata⟩ := hsupplies.supplied
  have hc : c ∈ [callAt (.str supplied), callAt .null] := by
    rw [hcalls]
    simp
  obtain rfl | rfl : c = callAt (.str supplied) ∨ c = callAt .null := by simpa using hc
  · cases htext
    rw [hdecode] at hdata
    cases hdata
    obtain ⟨-, rfl⟩ := hauthentic.unique hsupplies.toAuthentic
    omega
  · cases htext

/-- The second list is newer than the first. -/
theorem newest_selected_lists :
    select (some [1]) (some [2]) (some (prefixed 1)) (some (prefixed 2)) = some [2] := by
  have hold : Authentic oracle issuerBytes [1] (listOf 1 []) 1 :=
    authentic_listOf rfl rfl (by decide +kernel) rfl
  have hnew : Authentic oracle issuerBytes [2] (listOf 2 [⟨[7], []⟩]) 2 :=
    authentic_listOf rfl rfl (by decide +kernel) rfl
  have hvalid {x : Bytes} {crl : Crl} {n : Nat} (h : Authentic oracle issuerBytes x crl n) :
      each (some x) (fun data => validateCrl oracle data leafBytes issuerBytes 50 false) =
        .ok (some (prefixed n)) :=
    each_some (validateCrl_isOk h rfl)
  refine (newest_selected (hvalid hold) (hvalid hnew)).2.2.2.2.2.2.2.1 ?_
  rw [hold.number_eq, hnew.number_eq, Option.some_lt_some]
  decide

/-- The list with the number two is cached though the call that has brought it fails, and no call
without a list succeeds from then on, even after the first list is supplied again. -/
theorem revocations_kept_run :
    (call trust oracle cleanDirectory (callAt (.str "Ag=="))).1 = .err revokedCertificate ∧
      (call trust oracle (next (next cleanDirectory (.str "Ag==")) (.str "AQ==")) (callAt .null)).1 ≠
        .ok () := by
  refine ⟨by decide +kernel, fun hok => ?_⟩
  have hcached : Cached trust oracle issuerBytes 2 (next cleanDirectory (.str "Ag=="))
      (listOf 2 [⟨[7], []⟩]) :=
    ⟨[2], 2, by decide +kernel, authentic_listOf rfl rfl (by decide +kernel) rfl, Nat.le_refl 2⟩
  have hclean : Authentic oracle issuerBytes [1] (listOf 1 []) 1 :=
    authentic_listOf rfl rfl (by decide +kernel) rfl
  exact not_clears rfl hclean (by decide) ((revocations_kept (trace_next (.str "AQ==") .nil)).2.2 2 _
    (callAt .null) leafBytes leafCertificate hcached (callAt_signed .null) rfl
    ⟨_, List.mem_cons_self, rfl⟩ hok)

/-- A list with the cached number that names the leaf is not kept. -/
theorem equal_number_dropped :
    ¬∀ (t : Trust) (o : Oracle) (issuer leaf : Bytes) (certificate : Parsed) (n : Nat)
      (d d' : Directory) (cs : List Call) (c : Call),
      Trace (step t o) (Issued t issuer) d cs d' →
        Happens (step t o) (Issued t issuer) (Names t o issuer certificate.rawSerial n) d cs →
        Signed t leaf issuer c → o.certificate leaf = some certificate →
        (call t o d' c).1 = .ok () → Happens (step t o) (Issued t issuer)
          (Clears t o issuer certificate.rawSerial n) d (cs ++ [c]) := by
  intro hkept
  have hequal : Authentic oracle issuerBytes [3] (listOf 1 [⟨[7], []⟩]) 1 :=
    authentic_listOf rfl rfl (by decide +kernel) rfl
  have hnames : Happens (step trust oracle) (Issued trust issuerBytes)
      (Names trust oracle issuerBytes leafCertificate.rawSerial 1) cleanDirectory
      [callAt (.str "Aw==")] :=
    Trace.nil.happens ⟨[3], _, ⟨hequal, "Aw==", rfl, rfl⟩, _, List.mem_cons_self, rfl⟩
  exact not_clears rfl hequal (Nat.le_refl 1) (hkept trust oracle issuerBytes leafBytes
    leafCertificate 1 _ _ _ (callAt .null) (trace_next (.str "Aw==") .nil) hnames
    (callAt_signed .null) rfl (by decide +kernel))

end Pishoo.Revocation
