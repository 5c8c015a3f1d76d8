import Mathlib.Data.List.ReduceOption
import Mathlib.Logic.Relation
import Pishoo.EvidenceBinding
import Pishoo.Legacy

namespace Pishoo.Ownership

open Result Registry Registration Publication Machine Legacy

/-- The oracles and the groups that are compiled into the host. -/
structure Config where
  trust : Trust
  groups : Json

/-- What writes the registry. A call that fails after its transaction has been prepared has
`finished` false. A transfer carries what the checks of the legacy files find. -/
inductive Event
  | install (sandbox : Sandbox) (docs : List Document) (now : String → Int) (finished : Bool)
  | remove (id : Id) (finished : Bool)
  | transfer (verifyLegacyFiles : Json → Bool → Bool → Except Error Unit)

def step (c : Config) (r : Registry) : Event → Option Registry
  | .install sandbox docs now finished => DependencyGraph.step c.trust.normalizeName r
      (.install sandbox (docs.map (itemOf c.trust)) now finished)
  | .remove id finished => DependencyGraph.step c.trust.normalizeName r (.remove id finished)
  | .transfer verifyLegacyFiles => some (DependencyGraph.committed r
      (migrateLegacyGroups ⟨c.trust.normalizeName, verifyLegacyFiles⟩ c.groups r))

/-- The package is not removed. -/
def Keeps (c : Config) (name : String) (r : Registry) (e : Event) : Prop :=
  ∀ r', step c r e = some r' → (r.package name).isSome = true → (r'.package name).isSome = true

/-- The entry of a group grants the transfer of exactly this row. -/
structure Grants (entry : Json) (p q : Package) (target owner : String) : Prop where
  name : entry.get "name" = .str p.name
  author : ∃ author, p.author = some author ∧ entry.get "author" = .str author
  version : entry.get "version" = .str p.version
  oldOwner : ∀ h, p.authorOwnerHash = some h → entry.get "author_owner_hash" = .str h
  unsigned : p.signerLeafFingerprintSha256 = none
  newAuthor : entry.get "target_author" = .str target
  newOwner : entry.get "target_owner_hash" = .str owner
  row : q = { p with author := some target, authorOwnerHash := some owner }

/-- The compiled groups contain an entry that grants the transfer. -/
def Authorized (groups : Json) (p q : Package) : Prop :=
  ∃ gs, asArr groups = some gs ∧ ∃ group ∈ gs, ∃ entries,
    asArr (group.get "packages") = some entries ∧ ∃ entry ∈ entries, ∃ target owner,
      Grants entry p q target owner

/-- The document proves that the installed release, which has no owner, belongs to `owner`. -/
def Proves (t : Trust) (doc : Document) (p : Package) (owner : String) : Prop :=
  let previous := doc.proof.get "_previous_release"
  ∃ author at' payload value, p.author = some author ∧
    EvidenceBinding.Receipt t previous at' payload value ∧
    value.get "author" = .str author ∧ value.get "name" = .str p.name ∧
    value.get "version" = .str p.version ∧ value.get "author_owner_hash" = .str owner

def Transferred (c : Config) (name : String) (r : Registry) (e : Event) : Prop :=
  ∃ verify r' p q, e = .transfer verify ∧ step c r e = some r' ∧ r.package name = some p ∧
    r'.package name = some q ∧ Relation.TransGen (Authorized c.groups) p q

def Proven (c : Config) (name owner : String) (r : Registry) (e : Event) : Prop :=
  ∃ sandbox docs now finished p, e = .install sandbox docs now finished ∧
    r.package name = some p ∧ p.authorOwnerHash = none ∧ ∃ doc ∈ docs, Proves c.trust doc p owner

def NewVersion (c : Config) (name : String) (r : Registry) (e : Event) : Prop :=
  ∃ r' p q, step c r e = some r' ∧ r.package name = some p ∧ r'.package name = some q ∧
    q.version ≠ p.version

/-- What an installation may do to a row. -/
structure Reinstalled (t : Trust) (docs : List Document) (p q : Package) : Prop where
  author : q.author = p.author
  owner : ∀ h, p.authorOwnerHash = some h → q.authorOwnerHash = some h
  unowned : ∀ h, p.authorOwnerHash = none → q.authorOwnerHash = some h →
    ∃ doc ∈ docs, Proves t doc p h
  digest : ∀ d, p.packageSha256 = some d → q.version = p.version → q.packageSha256 = some d

section

variable {t : Trust} {docs : List Document} {doc : Document} {r r' : Registry} {rel : Release}
  {p q : Package} {sandbox : Sandbox} {changed : List Release} {now : String → Int} {name : String}

theorem Reinstalled.refl : Reinstalled t docs p p := by
  refine ⟨rfl, fun _ h => h, fun h hnone hsome => ?_, fun _ h _ => h⟩
  rw [hnone] at hsome
  cases hsome

theorem str_of_asStr {value : Json} {s : String} (h : value.asStr = some s) : value = .str s := by
  cases value <;> simp_all [Json.asStr]

theorem proves_of_previous {previous : PreviousRelease} {h : String}
    (hprevious : previousOf t doc = some previous) (hid : previous.id = p.id)
    (hversion : previous.version = p.version) (hreceipt : previous.receipt = .ok ())
    (howner : previous.authorOwnerHash = some h) : Proves t doc p h := by
  obtain ⟨author, hauthor, hprevious⟩ := Option.bind_eq_some_iff.mp hprevious
  obtain ⟨name, hname, hprevious⟩ := Option.bind_eq_some_iff.mp hprevious
  obtain ⟨version, hversion', hprevious⟩ := Option.bind_eq_some_iff.mp hprevious
  obtain ⟨purpose, -, hprevious⟩ := Option.bind_eq_some_iff.mp hprevious
  obtain ⟨at', -, hprevious⟩ := Option.bind_eq_some_iff.mp hprevious
  split at hprevious
  · cases hprevious
    obtain ⟨_, -, hroot⟩ := bind_eq_ok.mp hreceipt
    obtain ⟨payload, value, hsigned⟩ := EvidenceBinding.receipt_of_verify hroot
    have hrow : some author = p.author ∧ name = p.name := by
      rw [Package.id, Id.mk.injEq] at hid
      exact hid
    refine ⟨author, at', payload, value, hrow.1.symm, hsigned, ?_, ?_, ?_, ?_⟩
    all_goals rw [hsigned.expected]
    · exact str_of_asStr hauthor
    · exact (str_of_asStr hname).trans (congrArg Json.str hrow.2)
    · exact (str_of_asStr hversion').trans (congrArg Json.str hversion)
    · exact str_of_asStr howner
  · cases hprevious

theorem checkCurrent_ok {item : Item} (h : checkCurrent p item rel = .ok ()) :
    (∀ owner, p.authorOwnerHash = some owner → rel.authorOwnerHash = some owner) ∧
      (p.authorOwnerHash = none → ∃ previous, item.previous = some previous ∧
        previous.id = item.id ∧ previous.version = p.version ∧ previous.receipt = .ok () ∧
        previous.authorOwnerHash = rel.authorOwnerHash) ∧
      ∀ digest, p.packageSha256 = some digest → rel.version = p.version →
        rel.packageSha256 = some digest := by
  obtain ⟨owner, howner, h⟩ := bind_eq_ok.mp h
  obtain ⟨_, hsame, h⟩ := bind_eq_ok.mp h
  have hsame : owner = rel.authorOwnerHash := not_not.mp (failIf_eq_ok.mp hsame)
  have hdigest := failIf_eq_ok.mp h
  subst hsame
  refine ⟨fun h hh => ?_, fun hnone => ?_, fun digest hd hversion => ?_⟩
  · rw [hh] at howner
    exact (Except.ok.inj howner).symm
  · rw [hnone] at howner
    change previousOwner p item = .ok rel.authorOwnerHash at howner
    unfold previousOwner at howner
    split at howner
    · cases howner
    · rename_i previous hprevious
      obtain ⟨_, hfields, howner⟩ := bind_eq_ok.mp howner
      obtain ⟨_, hreceipt, howner⟩ := bind_eq_ok.mp howner
      rw [failIf_eq_ok] at hfields
      simp only [not_or, not_not] at hfields
      exact ⟨previous, hprevious, hfields.1, hfields.2.1, hreceipt, Except.ok.inj howner⟩
  · by_contra hne
    apply hdigest
    rw [hd]
    exact ⟨hversion.symm, by simp, fun heq => hne heq.symm⟩

theorem reinstalled_of_accepted
    (h : Accepted t.normalizeName r (itemOf t doc) rel) (hdoc : doc ∈ docs)
    (hp : r.package rel.id.name = some p) (hauthor : q.author = rel.id.author)
    (hversion : q.version = rel.version) (howner : q.authorOwnerHash = rel.authorOwnerHash)
    (hdigest : q.packageSha256 = rel.packageSha256) : Reinstalled t docs p q := by
  have hid := h.package_id hp
  have hinstalled := h.installed
  have hregistered : r.registered rel.id = some p :=
    registered_eq_some.mpr ⟨hp, congrArg Id.author hid⟩
  rw [checkInstalled, ← h.identity, hregistered] at hinstalled
  obtain ⟨hkeeps, hproof, hcontent⟩ := checkCurrent_ok hinstalled
  refine ⟨?_, fun owner hh => ?_, fun owner hnone hh => ?_, fun digest hd hsame => ?_⟩
  · rw [hauthor]
    exact (congrArg Id.author hid).symm
  · rw [howner]
    exact hkeeps owner hh
  · obtain ⟨previous, hprevious, hpid, hpversion, hreceipt, hpowner⟩ := hproof hnone
    rw [howner] at hh
    refine ⟨doc, hdoc, proves_of_previous hprevious ?_ hpversion hreceipt (hpowner.trans hh)⟩
    rw [hpid, hid, h.identity]
  · rw [hdigest]
    exact hcontent digest hd (hversion.symm.trans hsame)

theorem installTx_reinstalled
    (h : installTx t.normalizeName r sandbox (docs.map (itemOf t)) now = .ok (changed, r'))
    (hp : r.package name = some p) :
    ∃ q, r'.package name = some q ∧ Reinstalled t docs p q := by
  obtain ⟨hexamine, hsave⟩ := examineAll_of_installTx h
  by_cases hname : name ∈ changed.map fun rel => rel.id.name
  · obtain ⟨rel, hrel, rfl⟩ := List.mem_map.mp hname
    obtain ⟨item, hitem, haccepted⟩ := accepted_of_mem hexamine hrel
    obtain ⟨doc, hdoc, rfl⟩ := List.mem_map.mp hitem
    have hrow := saveAll_package hsave (Installation.examineAll_nodup h) hrel
    obtain ⟨hauthor, hversion, -, -, howner, hdigest, -⟩ :=
      row_fields rel (r.package rel.id.name) (now rel.id.name)
    exact ⟨_, hrow, reinstalled_of_accepted haccepted hdoc hp hauthor hversion howner hdigest⟩
  · exact ⟨p, (saveAll_package_other hsave hname).trans hp, .refl⟩

end

section

variable {host : Host} {groups group : Json} {entries gs : List Json} {r r' : Registry}
  {name author : String} {names : List String} {p : Package} {t : Transfer} {ts : List Transfer}

theorem authorize_grants {entry : Json} (hname : p.name = name) (hauthor : p.author = some author)
    (hentry : entry.get "name" = .str name ∧ entry.get "author" = .str author ∧
      entry.get "version" = .str p.version) (hunsigned : p.signerLeafFingerprintSha256 = none)
    (h : authorize host name author p entry = .ok t) :
    t.name = name ∧ Grants entry p (transferred t p) t.author t.owner := by
  obtain ⟨oldOwner, hold, h⟩ := bind_eq_ok.mp h
  obtain ⟨targetOwner, howner, h⟩ := bind_eq_ok.mp h
  obtain ⟨target, htarget, h⟩ := bind_eq_ok.mp h
  obtain ⟨digest, -, h⟩ := bind_eq_ok.mp h
  obtain ⟨_, -, h⟩ := bind_eq_ok.mp h
  obtain ⟨_, -, h⟩ := bind_eq_ok.mp h
  obtain ⟨_, hmismatch, h⟩ := bind_eq_ok.mp h
  obtain ⟨_, -, h⟩ := bind_eq_ok.mp h
  obtain ⟨_, -, h⟩ := bind_eq_ok.mp h
  obtain ⟨_, -, h⟩ := bind_eq_ok.mp h
  cases h
  rw [failIf_eq_ok] at hmismatch
  simp only [not_or] at hmismatch
  have htext {key s : String} (hs : migrationText entry key = .ok s) : entry.get key = .str s :=
    str_of_asStr (Option.filter_eq_some_iff.mp (orElse_eq_ok.mp hs)).1
  refine ⟨rfl, ?_, ⟨author, hauthor, hentry.2.1⟩, hentry.2.2, fun owner hh => ?_, hunsigned,
    htext htarget, htext howner, rfl⟩
  · rw [hname]
    exact hentry.1
  · rw [htext hold]
    by_contra hne
    exact hmismatch.2.1 ⟨owner, hh, fun heq => hne (by rw [heq])⟩

theorem change_grants (h : change host r entries name = .ok (some t)) :
    t.name = name ∧ ∃ p entry, r.package name = some p ∧ entry ∈ entries ∧
      Grants entry p (transferred t p) t.author t.owner := by
  unfold change at h
  split at h
  · cases h
  · rename_i p hp
    obtain ⟨author, hauthor, h⟩ := bind_eq_ok.mp h
    dsimp only at h
    split at h
    · cases h
    · split at h
      · rename_i entry hmatches
        obtain ⟨_, hunsigned, h⟩ := bind_eq_ok.mp h
        obtain ⟨t', ht', h⟩ := bind_eq_ok.mp h
        cases h
        have hentry : entry ∈ [entry] := List.mem_cons_self
        rw [← hmatches, List.mem_filter, List.mem_filter] at hentry
        obtain ⟨⟨hmem, hnamed⟩, hfields⟩ := hentry
        simp only [Bool.and_eq_true, beq_iff_eq] at hnamed hfields
        obtain ⟨hsame, hgrants⟩ := authorize_grants (package_eq_some.mp hp).2
          (orElse_eq_ok.mp hauthor) ⟨hnamed, hfields⟩
          (not_not.mp (failIf_eq_ok.mp hunsigned)) ht'
        exact ⟨hsame, p, entry, hp, hmem, hgrants⟩
      · cases h

theorem changes_names {outs : List (Option Transfer)}
    (h : names.mapM (change host r entries) = .ok outs) :
    (outs.reduceOption.map Transfer.name).Sublist names ∧ ∀ t ∈ outs.reduceOption,
      change host r entries t.name = .ok (some t) := by
  induction names generalizing outs with
  | nil =>
      cases h
      simp
  | cons name names ih =>
      rw [List.mapM_cons] at h
      obtain ⟨out, hout, h⟩ := bind_eq_ok.mp h
      obtain ⟨rest, hrest, h⟩ := bind_eq_ok.mp h
      cases h
      obtain ⟨hsub, hchange⟩ := ih hrest
      cases out with
      | none =>
          rw [List.reduceOption_cons_of_none]
          exact ⟨hsub.cons _, hchange⟩
      | some t =>
          have hname := (change_grants hout).1
          rw [List.reduceOption_cons_of_some, List.map_cons, hname]
          refine ⟨hsub.cons_cons _, ?_⟩
          rw [List.forall_mem_cons, hname]
          exact ⟨hout, hchange⟩

theorem transferAll_package (h : ts.foldlM transferAuthor r = .ok r')
    (hnames : (ts.map Transfer.name).Nodup) (hp : r.package name = some p) :
    r'.package name = some p ∨ ∃ t ∈ ts, t.name = name ∧ r'.package name = some (transferred t p) := by
  induction ts generalizing r p with
  | nil =>
      cases h
      exact .inl hp
  | cons t ts ih =>
      rw [List.foldlM_cons] at h
      obtain ⟨r₁, h₁, h⟩ := bind_eq_ok.mp h
      rw [List.map_cons, List.nodup_cons] at hnames
      have hrow := DependencyGraph.transferAuthor_package h₁ name
      rw [hp, Option.map_some, (package_eq_some.mp hp).2] at hrow
      by_cases hname : t.name = name
      · rw [if_pos (by simp [hname])] at hrow
        right
        refine ⟨t, List.mem_cons_self, hname, ?_⟩
        obtain hsame | ⟨t', ht', hname', -⟩ := ih h hnames.2 hrow
        · exact hsame
        · exact absurd (hname ▸ hname' ▸ List.mem_map_of_mem ht') hnames.1
      · rw [if_neg (by simpa using fun heq => hname heq.symm)] at hrow
        obtain hsame | ⟨t', ht', hname', hrow'⟩ := ih h hnames.2 hrow
        · exact .inl hsame
        · exact .inr ⟨t', List.mem_cons_of_mem _ ht', hname', hrow'⟩

theorem transferGroup_package (hgs : asArr groups = some gs) (hgroup : group ∈ gs)
    (h : transferGroup host r group = .ok r') (hp : r.package name = some p) :
    ∃ q, r'.package name = some q ∧ Relation.ReflTransGen (Authorized groups) p q := by
  obtain ⟨entries, hentries, h⟩ := bind_eq_ok.mp h
  obtain ⟨names, -, h⟩ := bind_eq_ok.mp h
  obtain ⟨outs, houts, h⟩ := bind_eq_ok.mp h
  obtain ⟨hsub, hchange⟩ := changes_names houts
  have hnodup : (Facts.sortedBy (fun name => [name]) names.dedup).Nodup :=
    (Facts.sortedBy_perm _ _).nodup_iff.mpr names.nodup_dedup
  obtain hsame | ⟨t, ht, rfl, hrow⟩ := transferAll_package h (hsub.nodup hnodup) hp
  · exact ⟨p, hsame, .refl⟩
  · obtain ⟨-, p', entry, hp', hentry, hgrants⟩ := change_grants (hchange t ht)
    rw [hp] at hp'
    cases hp'
    refine ⟨_, hrow, .single ⟨gs, hgs, group, hgroup, entries, ?_, entry, hentry, _, _, hgrants⟩⟩
    exact (Option.filter_eq_some_iff.mp (orElse_eq_ok.mp hentries)).1

theorem transferOrKeep_package (hgs : asArr groups = some gs) (hgroup : group ∈ gs)
    (hp : r.package name = some p) :
    ∃ q, (transferOrKeep host r group).package name = some q ∧
      Relation.ReflTransGen (Authorized groups) p q := by
  unfold transferOrKeep
  split
  · rename_i r' h
    exact transferGroup_package hgs hgroup h hp
  · exact ⟨p, hp, .refl⟩

theorem transferEach_package (hgs : asArr groups = some gs) {l : List Json} (hl : ∀ g ∈ l, g ∈ gs)
    (hp : r.package name = some p) :
    ∃ q, (l.foldl (transferOrKeep host) r).package name = some q ∧
      Relation.ReflTransGen (Authorized groups) p q := by
  induction l generalizing r p with
  | nil => exact ⟨p, hp, .refl⟩
  | cons g l ih =>
      rw [List.forall_mem_cons] at hl
      have hfirst : ∃ q, (transferOrKeep host r g).package name = some q ∧
          Relation.ReflTransGen (Authorized groups) p q := transferOrKeep_package hgs hl.1 hp
      obtain ⟨q, hq, hpq⟩ := hfirst
      obtain ⟨s, hs, hqs⟩ := ih hl.2 hq
      exact ⟨s, hs, hpq.trans hqs⟩

theorem migrated_package (h : migrateRegistration r = .ok r') (hp : r.package name = some p) :
    r'.package name = some p := by
  rw [← hp]
  refine package_congr ?_ name
  rw [migrateRegistration_tables h]

theorem migrateLegacyGroups_package (h : migrateLegacyGroups host groups r = .ok r')
    (hp : r.package name = some p) :
    ∃ q, r'.package name = some q ∧ Relation.ReflTransGen (Authorized groups) p q := by
  obtain ⟨gs, hgs, h⟩ := bind_eq_ok.mp h
  split at h
  · cases h
    exact ⟨p, hp, .refl⟩
  · obtain ⟨r₀, h₀, h⟩ := bind_eq_ok.mp h
    cases h
    refine transferEach_package ?_ (fun _ hg => hg) (migrated_package h₀ hp)
    exact (Option.filter_eq_some_iff.mp (orElse_eq_ok.mp hgs)).1

end

/-- What a run from `r` has done to a row. -/
structure Continuity (c : Config) (name : String) (r : Registry) (es : List Event) (p q : Package) :
    Prop where
  author : q.author ≠ p.author → Happens (step c) (Keeps c name) (Transferred c name) r es
  owner : ∀ h, p.authorOwnerHash = some h → q.authorOwnerHash ≠ some h →
    Happens (step c) (Keeps c name) (Transferred c name) r es
  unowned : ∀ h, p.authorOwnerHash = none → q.authorOwnerHash = some h →
    Happens (step c) (Keeps c name) (Transferred c name) r es ∨
      Happens (step c) (Keeps c name) (Proven c name h) r es
  digest : ∀ d, p.packageSha256 = some d → q.packageSha256 ≠ some d →
    Happens (step c) (Keeps c name) (NewVersion c name) r es

/-- What one event does to a row. -/
structure Explained (c : Config) (name : String) (r : Registry) (e : Event) (p q : Package) :
    Prop where
  author : q.author ≠ p.author → Transferred c name r e
  owner : ∀ h, p.authorOwnerHash = some h → q.authorOwnerHash ≠ some h → Transferred c name r e
  unowned : ∀ h, p.authorOwnerHash = none → q.authorOwnerHash = some h →
    Transferred c name r e ∨ Proven c name h r e
  digest : ∀ d, p.packageSha256 = some d → q.packageSha256 ≠ some d → NewVersion c name r e

section

variable {c : Config} {name : String} {r r' t : Registry} {e : Event} {es : List Event}
  {p q s : Package} {sandbox : Sandbox} {docs : List Document} {now : String → Int} {id : Id}
  {finished : Bool} {verify : Json → Bool → Bool → Except Error Unit}

theorem step_install (h : step c r (.install sandbox docs now finished) = some r')
    (hp : r.package name = some p) :
    ∃ q, r'.package name = some q ∧ Reinstalled c.trust docs p q := by
  simp only [step, DependencyGraph.step, Option.some.injEq] at h
  subst h
  split
  · exact ⟨p, hp, .refl⟩
  · rename_i r₀ h₀
    obtain ⟨_, -, h₀⟩ := bind_eq_ok.mp h₀
    have hp₀ := migrated_package h₀ hp
    split
    · cases htx : installTx c.trust.normalizeName r₀ sandbox (docs.map (itemOf c.trust)) now with
      | error e => exact ⟨p, hp₀, .refl⟩
      | ok tx => exact installTx_reinstalled htx hp₀
    · exact ⟨p, hp₀, .refl⟩

theorem step_remove (h : step c r (.remove id finished) = some r') (hp : r.package name = some p) :
    r'.package name = some p ∨ r'.package name = none := by
  simp only [step, DependencyGraph.step, Option.some.injEq] at h
  subst h
  split
  · exact .inl hp
  · rename_i r₀ h₀
    have hp₀ := migrated_package h₀ hp
    split
    · cases htx : removeTx r₀ id with
      | error e => exact .inl hp₀
      | ok r₁ =>
          have hrow := removeTx_package htx name
          by_cases hname : name = id.name
          · exact .inr (hrow.trans (if_pos hname))
          · exact .inl ((hrow.trans (if_neg hname)).trans hp₀)
    · exact .inl hp₀

theorem step_transfer (h : step c r (.transfer verify) = some r') (hp : r.package name = some p) :
    ∃ q, r'.package name = some q ∧ Relation.ReflTransGen (Authorized c.groups) p q := by
  simp only [step, Option.some.injEq] at h
  subst h
  cases hgroups : migrateLegacyGroups ⟨c.trust.normalizeName, verify⟩ c.groups r with
  | error e => exact ⟨p, hp, .refl⟩
  | ok r' => exact migrateLegacyGroups_package hgroups hp

theorem authorized_digest (h : Relation.ReflTransGen (Authorized c.groups) p q) :
    q.packageSha256 = p.packageSha256 := by
  induction h with
  | refl => rfl
  | tail _ hstep ih =>
      obtain ⟨gs, -, group, -, entries, -, entry, -, target, owner, hgrants⟩ := hstep
      rw [hgrants.row]
      exact ih

theorem Explained.refl : Explained c name r e p p := by
  refine ⟨fun h => absurd rfl h, fun _ h h' => absurd h h', fun h hnone hsome => ?_,
    fun _ h h' => absurd h h'⟩
  rw [hnone] at hsome
  cases hsome

theorem Reinstalled.explained (hp : r.package name = some p) (hq : r'.package name = some q)
    (hstep : step c r (.install sandbox docs now finished) = some r')
    (h : Reinstalled c.trust docs p q) :
    Explained c name r (.install sandbox docs now finished) p q := by
  refine ⟨fun hne => absurd h.author hne, fun _ hh hne => absurd (h.owner _ hh) hne,
    fun owner hnone hsome => .inr ?_, fun d hd hne => ?_⟩
  · exact ⟨sandbox, docs, now, finished, p, rfl, hp, hnone, h.unowned owner hnone hsome⟩
  · exact ⟨r', p, q, hstep, hp, hq, fun hversion => hne (h.digest d hd hversion)⟩

/-- A step that keeps a package explains what it does to the row. -/
theorem step_explained (hkeeps : Keeps c name r e) (hstep : step c r e = some r')
    (hp : r.package name = some p) : ∃ q, r'.package name = some q ∧ Explained c name r e p q := by
  cases e with
  | install sandbox docs now finished =>
      obtain ⟨q, hq, h⟩ := step_install hstep hp
      exact ⟨q, hq, h.explained hp hq hstep⟩
  | remove id finished =>
      obtain hsame | hnone := step_remove hstep hp
      · exact ⟨p, hsame, .refl⟩
      · have hsome := hkeeps r' hstep (by rw [hp, Option.isSome_some])
        rw [hnone] at hsome
        cases hsome
  | transfer verify =>
      obtain ⟨q, hq, h⟩ := step_transfer hstep hp
      refine ⟨q, hq, ?_⟩
      obtain rfl | htrans := Relation.reflTransGen_iff_eq_or_transGen.mp h
      · exact .refl
      · have hdone : Transferred c name r (.transfer verify) :=
          ⟨verify, r', p, q, rfl, hstep, hp, hq, htrans⟩
        refine ⟨fun _ => hdone, fun _ _ _ => hdone, fun _ _ _ => .inl hdone, fun d hd hne => ?_⟩
        rw [authorized_digest h] at hne
        exact absurd hd hne

theorem Continuity.refl : Continuity c name r [] p p := by
  refine ⟨fun h => absurd rfl h, fun _ h h' => absurd h h', fun h hnone hsome => ?_,
    fun _ h h' => absurd h h'⟩
  rw [hnone] at hsome
  cases hsome

theorem Continuity.snoc (hc : Continuity c name r es p q)
    (htrace : Trace (step c) (Keeps c name) r es t) (h : Explained c name t e q s) :
    Continuity c name r (es ++ [e]) p s := by
  refine ⟨fun hne => ?_, fun owner hp hne => ?_, fun owner hp hs => ?_, fun d hp hne => ?_⟩
  · by_cases hq : q.author = p.author
    · exact htrace.happens (h.author (hq ▸ hne))
    · exact (hc.author hq).snoc e
  · by_cases hq : q.authorOwnerHash = some owner
    · exact htrace.happens (h.owner owner hq hne)
    · exact (hc.owner owner hp hq).snoc e
  · cases hq : q.authorOwnerHash with
    | none => exact (h.unowned owner hq hs).imp htrace.happens htrace.happens
    | some middle =>
        by_cases hsame : middle = owner
        · subst hsame
          exact (hc.unowned middle hp hq).imp (·.snoc e) (·.snoc e)
        · refine .inl (htrace.happens (h.owner middle hq ?_))
          rw [hs]
          exact fun heq => hsame (Option.some.inj heq).symm
  · by_cases hq : q.packageSha256 = some d
    · exact htrace.happens (h.digest d hq hne)
    · exact (hc.digest d hp hq).snoc e

end

/-- As long as a package is not removed, its owner and its author change only by a transfer of the
compiled groups, an owner is added only by such a transfer or with a proof about the installed
release, and its digest changes only with its version. -/
theorem ownership_continuity {c : Config} {name : String} {r t : Registry} {es : List Event}
    {p : Package} (h : Trace (step c) (Keeps c name) r es t) (hp : r.package name = some p) :
    ∃ q, t.package name = some q ∧ Continuity c name r es p q := by
  induction h with
  | nil => exact ⟨p, hp, .refl⟩
  | snoc htrace hkeeps hstep ih =>
      obtain ⟨q, hq, hc⟩ := ih
      obtain ⟨s, hs, hexplained⟩ := step_explained hkeeps hstep hq
      exact ⟨s, hs, hc.snoc htrace hexplained⟩

instance (c : Config) (name : String) (r : Registry) (e : Event) : Decidable (Keeps c name r e) :=
  decidable_of_iff ((step c r e).all (fun r' =>
    !(r.package name).isSome || (r'.package name).isSome) = true) <| by
      cases h : step c r e <;> cases hp : (r.package name).isSome <;> simp [Keeps, h, hp]

def sampleHash : String := "0000000000000000000000000000000000000000000000000000000000000000"

/-- One group with the only entry of a library that changes hands. -/
def sampleGroups : Json :=
  .arr [.obj [("group", .str "first"), ("packages", .arr [.obj [("name", .str "base"),
    ("author", .str "old.example"), ("version", .str "1.0.0"),
    ("author_owner_hash", .str sampleHash), ("target_author", .str "alice.example"),
    ("target_owner_hash", .str storeOwner), ("package_sha256", .str sampleHash),
    ("evidence", .str "agreement")]])]]

def sampleConfig : Config := ⟨EvidenceBinding.sampleTrust, sampleGroups⟩

/-- The library as an early host has installed it. -/
def unsignedRow : Package where
  name := "base"
  author := some "old.example"
  version := "1.0.0"
  title := none
  description := none
  license := none
  repository := none
  installedAt := some 10
  upgradedAt := none
  hasLib := true
  hasApp := false
  authorOwnerHash := none
  packageSha256 := none
  signerLeafFingerprintSha256 := none

def unsignedRegistry : Registry := ⟨⟨[unsignedRow], [], [], []⟩, by decide⟩

/-- The transfer, and the installation of the signed release of the new publisher. -/
def sampleEvents : List Event :=
  [.transfer fun _ _ _ => .ok (),
    .install .empty [EvidenceBinding.sampleDocument] (fun _ => 100) true]

def rowAfter (r : Registry) : Option (Option String × Option String × Option String) :=
  (r.package "base").map fun p => (p.author, p.authorOwnerHash, p.packageSha256)

theorem ownership_continuity_run : ∃ t q,
    Trace (step sampleConfig) (Keeps sampleConfig "base") unsignedRegistry sampleEvents t ∧
      t.package "base" = some q ∧ q.author = some "alice.example" ∧
      q.packageSha256 = some (hex EvidenceBinding.sampleDigest) ∧
      Happens (step sampleConfig) (Keeps sampleConfig "base") (Transferred sampleConfig "base")
        unsignedRegistry sampleEvents := by
  have hrun : (run (step sampleConfig) (Keeps sampleConfig "base") unsignedRegistry
      sampleEvents).map rowAfter = some (some (some "alice.example", some storeOwner,
        some (hex EvidenceBinding.sampleDigest))) := by
    decide +kernel
  obtain ⟨t, ht, hrow⟩ := Option.map_eq_some_iff.mp hrun
  have htrace := trace_of_run ht
  have hstart : unsignedRegistry.package "base" = some unsignedRow := by decide
  obtain ⟨q, hq, hc⟩ := ownership_continuity htrace hstart
  rw [rowAfter, hq, Option.map_some, Option.some.injEq, Prod.mk.injEq, Prod.mk.injEq] at hrow
  refine ⟨t, q, htrace, hq, hrow.1, hrow.2.2, hc.author ?_⟩
  rw [hrow.1]
  decide

end Pishoo.Ownership
