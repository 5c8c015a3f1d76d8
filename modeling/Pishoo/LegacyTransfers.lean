import Pishoo.LegacyFiles
import Pishoo.Ownership
import Pishoo.Releases

namespace Pishoo.LegacyTransfers

open Result Registry Registration Publication Legacy LegacyFiles Installation

/-- The host, and the files of the identity. -/
def hostOf (c : Crates) (p : Profile) : Host := ⟨c.normalizeName, verifyLegacyFiles c p⟩

def namesOf (entries : List Json) : List String := entries.filterMap fun entry => (entry.get "name").asStr

/-- The package has the target of an entry of its name. -/
def Already (entries : List Json) (p : Package) : Prop :=
  ∃ author, p.author = some author ∧ ∃ entry ∈ entries, entry.get "name" = .str p.name ∧
    entry.get "target_author" = .str author ∧
      p.authorOwnerHash = (entry.get "target_owner_hash").asStr

/-- The entries of a package at its author and version. -/
def matching (entries : List Json) (p : Package) (author : String) : List Json :=
  (entries.filter fun entry => entry.get "name" == .str p.name).filter fun entry =>
    entry.get "author" == .str author && entry.get "version" == .str p.version

/-- The one entry that grants a transfer, and what has been checked. -/
structure Authorizes (host : Host) (entries : List Json) (p : Package) (author : String) (entry : Json)
    (t : Transfer) : Prop where
  name : t.name = p.name
  sole : matching entries p author = [entry]
  unsigned : p.signerLeafFingerprintSha256 = none
  owner : ∀ h, p.authorOwnerHash = some h → entry.get "author_owner_hash" = .str h
  digest : ∀ h, p.packageSha256 = some h → entry.get "package_sha256" = .str h
  verified : host.verifyLegacyFiles entry p.hasLib p.hasApp = .ok ()
  placement : isStandardAuthor author = isStandardAuthor t.author
  target : entry.get "target_author" = .str t.author
  targetOwner : entry.get "target_owner_hash" = .str t.owner

/-- What a group does to an installed package that it names. -/
def Moved (host : Host) (entries : List Json) (p : Package) (after : Option Package) : Prop :=
  Already entries p ∧ after = some p ∨
    ¬Already entries p ∧ ∃ author entry t, p.author = some author ∧
      Authorizes host entries p author entry t ∧ after = some (transferred t p)

/-- A group transfers all that it names or nothing, and changes nothing else. -/
structure GroupStep (host : Host) (group : Json) (s s' : Registry) : Prop where
  others : s'.dependencies = s.dependencies ∧ s'.capabilities = s.capabilities ∧
    s'.operations = s.operations
  rows : s' = s ∨ ∃ entries, asArr (group.get "packages") = some entries ∧ ∀ name,
    (name ∉ namesOf entries → s'.package name = s.package name) ∧
    (s.package name = none → s'.package name = none) ∧
    ∀ p, name ∈ namesOf entries → s.package name = some p → Moved host entries p (s'.package name)

def run (host : Host) (r : Registry) (groups : List Json) : Registry :=
  groups.foldl (transferOrKeep host) r

def entriesOf (group : Json) : List Json := (asArr (group.get "packages")).getD []

/-- No group changes a package that an earlier group names. -/
def Undisturbed (host : Host) (r : Registry) (groups : List Json) : Prop :=
  ∀ before group between other, before ++ group :: (between ++ [other]) <+: groups →
    ∀ name ∈ namesOf (entriesOf group),
      (run host r (before ++ group :: (between ++ [other]))).package name =
        (run host r (before ++ group :: between)).package name

section

variable {host : Host} {groups group : Json} {entries gs : List Json} {r r' s s' : Registry}
  {name author : String} {names : List String} {p q : Package} {t : Transfer} {ts : List Transfer}
  {entry : Json}

theorem authorize_ok (h : authorize host name author p entry = .ok t) :
    t.name = name ∧ (∀ h, p.authorOwnerHash = some h → entry.get "author_owner_hash" = .str h) ∧
      (∀ h, p.packageSha256 = some h → entry.get "package_sha256" = .str h) ∧
      host.verifyLegacyFiles entry p.hasLib p.hasApp = .ok () ∧
      isStandardAuthor author = isStandardAuthor t.author ∧
      entry.get "target_author" = .str t.author ∧ entry.get "target_owner_hash" = .str t.owner := by
  obtain ⟨oldOwner, hold, h⟩ := bind_eq_ok.mp h
  obtain ⟨targetOwner, howner, h⟩ := bind_eq_ok.mp h
  obtain ⟨target, htarget, h⟩ := bind_eq_ok.mp h
  obtain ⟨digest, hdigest, h⟩ := bind_eq_ok.mp h
  obtain ⟨_, -, h⟩ := bind_eq_ok.mp h
  obtain ⟨_, -, h⟩ := bind_eq_ok.mp h
  obtain ⟨_, hmismatch, h⟩ := bind_eq_ok.mp h
  obtain ⟨_, -, h⟩ := bind_eq_ok.mp h
  obtain ⟨_, -, h⟩ := bind_eq_ok.mp h
  obtain ⟨_, hverified, h⟩ := bind_eq_ok.mp h
  cases h
  rw [failIf_eq_ok] at hmismatch
  simp only [not_or, not_exists, not_and, not_not, Option.mem_def] at hmismatch
  obtain ⟨hplacement, hsameOwner, hsameDigest⟩ := hmismatch
  refine ⟨rfl, fun owner hh => ?_, fun digest' hh => ?_, hverified, hplacement,
    (migrationText_eq_ok.mp htarget).1, (migrationText_eq_ok.mp howner).1⟩
  · rw [hsameOwner owner hh]
    exact (migrationText_eq_ok.mp hold).1
  · rw [hsameDigest digest' hh]
    exact (migrationText_eq_ok.mp hdigest).1

theorem already_iff (hauthor : p.author = some author) :
    (entries.filter fun entry => entry.get "name" == .str p.name).any (already author p) = true ↔
      Already entries p := by
  simp only [List.any_eq_true, List.mem_filter, beq_iff_eq, already, Bool.and_eq_true, Already, hauthor,
    Option.some.injEq, exists_eq_left', and_assoc]

/-- What the loop body says about an installed package. -/
theorem change_ok {out : Option Transfer} (hp : r.package name = some p)
    (h : change host r entries name = .ok out) :
    (Already entries p ∧ out = none) ∨ (¬Already entries p ∧ ∃ author entry t, out = some t ∧
      p.author = some author ∧ Authorizes host entries p author entry t) := by
  have hname : p.name = name := (package_eq_some.mp hp).2
  subst hname
  simp only [change, hp] at h
  obtain ⟨author, hauthor, h⟩ := bind_eq_ok.mp h
  have hauthor := orElse_eq_ok.mp hauthor
  split at h
  · rename_i hany
    cases h
    exact .inl ⟨(already_iff hauthor).mp hany, rfl⟩
  · rename_i hnot
    rw [already_iff hauthor] at hnot
    split at h
    · rename_i entry hmatches
      obtain ⟨_, hunsigned, h⟩ := bind_eq_ok.mp h
      obtain ⟨t, ht, h⟩ := bind_eq_ok.mp h
      cases h
      obtain ⟨hname, howner, hdigest, hverified, hplacement, htarget, htargetOwner⟩ := authorize_ok ht
      exact .inr ⟨hnot, author, entry, t, rfl, hauthor, hname, hmatches,
        not_not.mp (failIf_eq_ok.mp hunsigned), howner, hdigest, hverified, hplacement, htarget,
        htargetOwner⟩
    · cases h

theorem change_congr (h : s.package name = r.package name) (entries : List Json) :
    change host s entries name = change host r entries name := by
  simp only [change, h]

/-- The update of an author breaks no constraint. -/
theorem transferAuthor_total (r : Registry) (t : Transfer) : ∃ r', transferAuthor r t = .ok r' := by
  have hvalid := r.valid
  have hnames : (Rows.updateWhere (fun p => p.name == t.name) (transferred t) r.packages).map
      Package.name = r.packages.map Package.name :=
    Rows.map_key_updateWhere _ fun _ => rfl
  refine ⟨_, dif_pos ?_⟩
  refine { hvalid with names := ?_, contents := ?_, sources := ?_, targets := ?_ }
  · rw [hnames]
    exact hvalid.names
  · intro p hp
    obtain ⟨q, hq, rfl⟩ := Rows.mem_updateWhere.mp hp
    split
    · exact hvalid.contents q hq
    · exact hvalid.contents q hq
  · rw [hnames]
    exact hvalid.sources
  · rw [hnames]
    exact hvalid.targets

theorem transferAuthors_total (r : Registry) (ts : List Transfer) :
    ∃ r', ts.foldlM transferAuthor r = .ok r' := by
  induction ts generalizing r with
  | nil => exact ⟨r, rfl⟩
  | cons t ts ih =>
      obtain ⟨s, hs⟩ := transferAuthor_total r t
      obtain ⟨r', hr'⟩ := ih s
      exact ⟨r', by rw [List.foldlM_cons, hs, ok_bind, hr']⟩

theorem transferAuthors_others (h : ts.foldlM transferAuthor r = .ok r') :
    r'.dependencies = r.dependencies ∧ r'.capabilities = r.capabilities ∧
      r'.operations = r.operations := by
  induction ts generalizing r with
  | nil =>
      cases h
      exact ⟨rfl, rfl, rfl⟩
  | cons t ts ih =>
      rw [List.foldlM_cons] at h
      obtain ⟨s, hs, h⟩ := bind_eq_ok.mp h
      obtain ⟨hdependencies, hcapabilities, hoperations⟩ := ih h
      rw [hdependencies, hcapabilities, hoperations, stored_ok hs]
      exact ⟨rfl, rfl, rfl⟩

theorem transferAuthors_other (h : ts.foldlM transferAuthor r = .ok r')
    (hname : name ∉ ts.map Transfer.name) : r'.package name = r.package name := by
  induction ts generalizing r with
  | nil =>
      cases h
      rfl
  | cons t ts ih =>
      rw [List.foldlM_cons] at h
      obtain ⟨s, hs, h⟩ := bind_eq_ok.mp h
      rw [List.map_cons, List.mem_cons, not_or] at hname
      rw [ih h hname.2, DependencyGraph.transferAuthor_package hs name]
      cases hp : r.package name with
      | none => rfl
      | some p =>
          have hne : (p.name == t.name) = false := by
            rw [(package_eq_some.mp hp).2]
            exact beq_eq_false_iff_ne.mpr hname.1
          rw [Option.map_some, hne]
          rfl

theorem transferAuthors_package (h : ts.foldlM transferAuthor r = .ok r')
    (hnames : (ts.map Transfer.name).Nodup) (ht : t ∈ ts) (hp : r.package t.name = some p) :
    r'.package t.name = some (transferred t p) := by
  induction ts generalizing r with
  | nil => cases ht
  | cons u ts ih =>
      rw [List.foldlM_cons] at h
      obtain ⟨s, hs, hrest⟩ := bind_eq_ok.mp h
      rw [List.map_cons, List.nodup_cons] at hnames
      have hrow := DependencyGraph.transferAuthor_package hs t.name
      rw [hp, Option.map_some, (package_eq_some.mp hp).2] at hrow
      rcases List.mem_cons.mp ht with rfl | ht
      · rw [transferAuthors_other hrest hnames.1, hrow, beq_self_eq_true]
        rfl
      · have hne : (t.name == u.name) = false := beq_eq_false_iff_ne.mpr fun heq =>
          hnames.1 (heq ▸ List.mem_map_of_mem ht)
        rw [hne] at hrow
        exact ih hrest hnames.2 ht hrow

theorem mem_names (h : entries.mapM (fun entry => migrationText entry "name") = .ok names) :
    name ∈ names ↔ name ∈ namesOf entries := by
  rw [namesOf, List.mem_filterMap]
  constructor
  · intro hname
    obtain ⟨entry, hentry, htext⟩ := exists_of_mem_mapM h hname
    refine ⟨entry, hentry, ?_⟩
    rw [(migrationText_eq_ok.mp htext).1]
    rfl
  · rintro ⟨entry, hentry, hname⟩
    obtain ⟨text, htext, hmem⟩ := exists_of_mapM h hentry
    rw [(migrationText_eq_ok.mp htext).1] at hname
    cases hname
    exact hmem

/-- What a group that does not fail has read, and what it has written. -/
structure Transferring (host : Host) (group : Json) (r r' : Registry) (entries : List Json)
    (names : List String) (ts : List Transfer) : Prop where
  read : asArr (group.get "packages") = some entries
  named : ∀ name, name ∈ names ↔ name ∈ namesOf entries
  each : ∀ name ∈ names, ∃ out, change host r entries name = .ok out ∧
    ∀ t, out = some t → t ∈ ts
  granted : ∀ t ∈ ts, t.name ∈ names ∧ change host r entries t.name = .ok (some t)
  distinct : (ts.map Transfer.name).Nodup
  written : ts.foldlM transferAuthor r = .ok r'

theorem transferGroup_ok (h : transferGroup host r group = .ok r') :
    ∃ entries names ts, Transferring host group r r' entries names ts := by
  obtain ⟨entries, hentries, h⟩ := bind_eq_ok.mp h
  obtain ⟨names, hnames, h⟩ := bind_eq_ok.mp h
  obtain ⟨outs, houts, h⟩ := bind_eq_ok.mp h
  obtain ⟨hsub, hgranted⟩ := Ownership.changes_names houts
  have hsorted : (Facts.sortedBy (fun name => [name]) names.dedup).Nodup :=
    (Facts.sortedBy_perm _ _).nodup_iff.mpr names.nodup_dedup
  refine ⟨entries, Facts.sortedBy (fun name => [name]) names.dedup, outs.reduceOption,
    (Option.filter_eq_some_iff.mp (orElse_eq_ok.mp hentries)).1, fun name => ?_, fun name hname => ?_,
    fun t ht => ⟨hsub.subset (List.mem_map_of_mem ht), hgranted t ht⟩, hsub.nodup hsorted, h⟩
  · rw [(Facts.sortedBy_perm _ _).mem_iff, List.mem_dedup]
    exact mem_names hnames
  · obtain ⟨out, hout, hmem⟩ := exists_of_mapM houts hname
    refine ⟨out, hout, ?_⟩
    rintro t rfl
    exact List.reduceOption_mem_iff.mpr hmem

theorem Transferring.package (h : Transferring host group r r' entries names ts)
    (hname : name ∈ names) (hp : r.package name = some p) :
    Moved host entries p (r'.package name) := by
  obtain ⟨out, hout, hmem⟩ := h.each name hname
  rcases change_ok hp hout with ⟨halready, rfl⟩ | ⟨hnot, author, entry, t, rfl, hauthor, hauthorizes⟩
  · refine .inl ⟨halready, ?_⟩
    rw [← hp]
    refine transferAuthors_other h.written fun hmem => ?_
    obtain ⟨t, ht, rfl⟩ := List.mem_map.mp hmem
    cases hout.symm.trans (h.granted t ht).2
  · have hsame : t.name = name := hauthorizes.name.trans (package_eq_some.mp hp).2
    refine .inr ⟨hnot, author, entry, t, hauthor, hauthorizes, ?_⟩
    rw [← hsame] at hp ⊢
    exact transferAuthors_package h.written h.distinct (hmem t rfl) hp

theorem Transferring.other (h : Transferring host group r r' entries names ts)
    (hname : name ∉ names) : r'.package name = r.package name := by
  refine transferAuthors_other h.written fun hmem => ?_
  obtain ⟨t, ht, rfl⟩ := List.mem_map.mp hmem
  exact hname (h.granted t ht).1

theorem Transferring.absent (h : Transferring host group r r' entries names ts)
    (hp : r.package name = none) : r'.package name = none := by
  rw [← hp]
  refine transferAuthors_other h.written fun hmem => ?_
  obtain ⟨t, ht, rfl⟩ := List.mem_map.mp hmem
  have hchange := (h.granted t ht).2
  simp only [change, hp] at hchange
  cases hchange

theorem groupStep (host : Host) (group : Json) (s : Registry) :
    GroupStep host group s (transferOrKeep host s group) := by
  unfold transferOrKeep
  split
  · rename_i s' h
    obtain ⟨entries, names, ts, htransferring⟩ := transferGroup_ok h
    refine ⟨transferAuthors_others htransferring.written, .inr ⟨entries, htransferring.read,
      fun name => ⟨fun hname => ?_, htransferring.absent, fun p hname hp => ?_⟩⟩⟩
    · exact htransferring.other fun hmem => hname ((htransferring.named name).mp hmem)
    · exact htransferring.package ((htransferring.named name).mpr hname) hp
  · exact ⟨⟨rfl, rfl, rfl⟩, .inl rfl⟩

/-- After a group, its entries have nothing left to do. -/
theorem Transferring.settled (h : Transferring host group r r' entries names ts)
    (hname : name ∈ names) : change host r' entries name = .ok none := by
  obtain ⟨out, hout, hmem⟩ := h.each name hname
  cases hp : r.package name with
  | none => simp only [change, h.absent hp]
  | some p =>
      cases out with
      | none =>
          have hsame : r'.package name = r.package name := by
            refine transferAuthors_other h.written fun hmem => ?_
            obtain ⟨t, ht, rfl⟩ := List.mem_map.mp hmem
            cases hout.symm.trans (h.granted t ht).2
          rw [change_congr hsame, hout]
      | some t =>
          rcases change_ok hp hout with ⟨-, ⟨⟩⟩ | ⟨-, author, entry, t', ht', -, hauthorizes⟩
          cases ht'
          have hsame : t.name = name := hauthorizes.name.trans (package_eq_some.mp hp).2
          have hrow : r'.package name = some (transferred t p) := by
            rw [← hsame] at hp ⊢
            exact transferAuthors_package h.written h.distinct (hmem t rfl) hp
          have hentry : entry ∈ matching entries p author := by
            rw [hauthorizes.sole]
            exact List.mem_singleton_self entry
          obtain ⟨hentry, -⟩ := List.mem_filter.mp hentry
          obtain ⟨hentry, hnamed⟩ := List.mem_filter.mp hentry
          have hany : (entries.filter fun entry => entry.get "name" == .str name).any
              (already t.author (transferred t p)) = true := by
            refine List.any_eq_true.mpr ⟨entry, List.mem_filter.mpr ⟨hentry, ?_⟩, ?_⟩
            · rw [← (package_eq_some.mp hp).2]
              exact hnamed
            · rw [already, hauthorizes.target, hauthorizes.targetOwner, Bool.and_eq_true]
              exact ⟨beq_self_eq_true _, beq_self_eq_true _⟩
          have hauthor : orElse (transferred t p).author constraintFailed = .ok t.author := rfl
          simp only [change, hrow, hauthor, ok_bind, hany, if_true]

theorem namesOf_entries (h : asArr (group.get "packages") = some entries) :
    namesOf (entriesOf group) = namesOf entries := by
  rw [entriesOf, h, Option.getD_some]

theorem mapM_congr {α β : Type} {f g : α → Except Error β} {l : List α} (h : ∀ a ∈ l, f a = g a) :
    l.mapM f = l.mapM g := by
  induction l with
  | nil => rfl
  | cons a l ih =>
      obtain ⟨hfirst, hrest⟩ := List.forall_mem_cons.mp h
      rw [List.mapM_cons, List.mapM_cons, hfirst, ih hrest]

/-- Whether a group fails depends on the packages that it names. -/
theorem transferGroup_total (hsame : ∀ name ∈ namesOf (entriesOf group), s.package name = r.package name)
    (h : transferGroup host s group = .ok s') : ∃ r', transferGroup host r group = .ok r' := by
  obtain ⟨entries, hentries, h⟩ := bind_eq_ok.mp h
  obtain ⟨names, hnames, h⟩ := bind_eq_ok.mp h
  obtain ⟨outs, houts, h⟩ := bind_eq_ok.mp h
  have hread := (Option.filter_eq_some_iff.mp (orElse_eq_ok.mp hentries)).1
  rw [namesOf_entries hread] at hsame
  have hchanges : (Facts.sortedBy (fun name => [name]) names.dedup).mapM (change host r entries) =
      .ok outs := by
    rw [← houts]
    refine mapM_congr fun name hname => ?_
    rw [(Facts.sortedBy_perm _ _).mem_iff, List.mem_dedup] at hname
    exact change_congr (hsame name ((mem_names hnames).mp hname)).symm entries
  obtain ⟨r', hr'⟩ := transferAuthors_total r outs.reduceOption
  exact ⟨r', by rw [transferGroup, hentries, ok_bind, hnames, ok_bind, hchanges, ok_bind, hr']⟩

/-- A group does nothing to a registry that has what the group has left of its packages. -/
theorem transferOrKeep_settled (h : ∀ name ∈ namesOf (entriesOf group),
    s.package name = (transferOrKeep host r group).package name) : transferOrKeep host s group = s := by
  cases hagain : transferGroup host s group with
  | error e => rw [transferOrKeep, hagain]
  | ok s' =>
      rw [transferOrKeep, hagain]
      obtain ⟨entries, names, ts, htransferring⟩ := transferGroup_ok hagain
      cases hgroup : transferGroup host r group with
      | error e =>
          have hkept : transferOrKeep host r group = r := by rw [transferOrKeep, hgroup]
          rw [hkept] at h
          obtain ⟨r', hr'⟩ := transferGroup_total h hagain
          cases hgroup.symm.trans hr'
      | ok r' =>
          have hkept : transferOrKeep host r group = r' := by rw [transferOrKeep, hgroup]
          rw [hkept, namesOf_entries htransferring.read] at h
          obtain ⟨entries', names', ts', hfirst⟩ := transferGroup_ok hgroup
          obtain rfl : entries' = entries := Option.some.inj (hfirst.read.symm.trans htransferring.read)
          have hnone : ts = [] := by
            rw [List.eq_nil_iff_forall_not_mem]
            intro t ht
            obtain ⟨hname, hchange⟩ := htransferring.granted t ht
            have hin := (htransferring.named t.name).mp hname
            rw [change_congr (h t.name hin), hfirst.settled ((hfirst.named t.name).mpr hin)] at hchange
            cases hchange
          have hwritten := htransferring.written
          rw [hnone] at hwritten
          cases hwritten
          rfl

theorem run_concat (host : Host) (r : Registry) (before : List Json) (group : Json) :
    run host r (before ++ [group]) = transferOrKeep host (run host r before) group := by
  rw [run, List.foldl_append]
  rfl

theorem run_append (host : Host) (r : Registry) (before after : List Json) :
    run host r (before ++ after) = run host (run host r before) after :=
  List.foldl_append

/-- What a group has left of its packages is still there at the end. -/
theorem undisturbed_settled {before after : List Json} (h : Undisturbed host r gs)
    (hinitial : before ++ group :: after <+: gs) (hname : name ∈ namesOf (entriesOf group)) :
    (run host r (before ++ group :: after)).package name =
      (transferOrKeep host (run host r before) group).package name := by
  induction after using List.reverseRecOn with
  | nil => rw [run_concat]
  | append_singleton between other ih =>
      rw [h before group between other hinitial name hname]
      refine ih (List.IsPrefix.trans ⟨[other], ?_⟩ hinitial)
      simp

theorem run_fixed (h : ∀ group ∈ gs, transferOrKeep host s group = s) : run host s gs = s := by
  induction gs with
  | nil => rfl
  | cons group gs ih =>
      obtain ⟨hfirst, hrest⟩ := List.forall_mem_cons.mp h
      rw [run, List.foldl_cons, hfirst]
      exact ih hrest

theorem run_again (h : Undisturbed host r gs) : run host (run host r gs) gs = run host r gs := by
  refine run_fixed fun group hgroup => ?_
  obtain ⟨before, after, rfl⟩ := List.append_of_mem hgroup
  exact transferOrKeep_settled fun name hname => undisturbed_settled h (List.prefix_refl _) hname

/-- A failing group is as good as none. -/
theorem run_failing {before after : List Json} {e : Error}
    (h : transferGroup host (run host r before) group = .error e) :
    run host r (before ++ group :: after) = run host r (before ++ after) := by
  have hkept : transferOrKeep host (run host r before) group = run host r before := by
    rw [transferOrKeep, h]
  rw [← List.singleton_append, ← List.append_assoc, run_append, run_concat, hkept, ← run_append]

/-- What no transfer changes of a package. -/
def core (p : Package) : String × Bool × Bool × Bool :=
  (p.version, p.hasLib, p.hasApp, p.author.any isStandardAuthor)

/-- Where the paths and the requirements of the packages are, is left as it is. -/
structure Kept (s s' : Registry) : Prop where
  dependencies : s'.dependencies = s.dependencies
  operations : s'.operations = s.operations
  core : ∀ name, (s'.package name).map core = (s.package name).map core

theorem Moved.core {after : Option Package} (h : Moved host entries p after) :
    after.map LegacyTransfers.core = some (LegacyTransfers.core p) := by
  obtain ⟨-, rfl⟩ | ⟨-, author, entry, t, hauthor, hauthorizes, rfl⟩ := h
  · rfl
  · have hplacement := hauthorizes.placement
    simp only [Option.map_some, LegacyTransfers.core, transferred, hauthor, Option.any_some, hplacement]

theorem groupStep_kept (h : GroupStep host group s s') : Kept s s' := by
  obtain ⟨⟨hdependencies, -, hoperations⟩, hrows⟩ := h
  refine ⟨hdependencies, hoperations, fun name => ?_⟩
  obtain rfl | ⟨entries, -, hrows⟩ := hrows
  · rfl
  · obtain ⟨hother, habsent, hmoved⟩ := hrows name
    by_cases hname : name ∈ namesOf entries
    · cases hp : s.package name with
      | none => rw [habsent hp]
      | some p => exact (hmoved p hname hp).core
    · rw [hother hname]

theorem run_kept (host : Host) (r : Registry) (gs : List Json) : Kept r (run host r gs) := by
  induction gs generalizing r with
  | nil => exact ⟨rfl, rfl, fun _ => rfl⟩
  | cons group gs ih =>
      obtain ⟨hdependencies, hoperations, hcore⟩ := groupStep_kept (groupStep host group r)
      obtain ⟨hdependencies', hoperations', hcore'⟩ := ih (transferOrKeep host r group)
      exact ⟨hdependencies'.trans hdependencies, hoperations'.trans hoperations,
        fun name => (hcore' name).trans (hcore name)⟩

theorem Kept.placed (h : Kept s s') (hplaced : Placed s) : Placed s' := by
  intro o ho
  rw [h.operations] at ho
  have hsame := hplaced o ho
  rw [misplaced_eq] at hsame ⊢
  have hany (r : Registry) : ((r.package o.libName).any fun p => p.hasLib && !p.author.any isStandardAuthor) =
      ((r.package o.libName).map LegacyTransfers.core).any fun c => c.2.1 && !c.2.2.2 := by
    rw [Option.any_map]
    rfl
  rw [hany, h.core, ← hany]
  exact hsame

theorem Kept.unbroken (h : Kept s s') (hbroken : s.dependencies.any (broken s) = false) :
    s'.dependencies.any (broken s') = false := by
  have hany (r : Registry) (d : PackageDependency) : broken r d =
      ((r.package d.dependencyName).map LegacyTransfers.core).any fun c => c.1 != d.version := by
    rw [broken, any_package, Option.any_map]
    rfl
  rw [List.any_eq_false] at hbroken ⊢
  intro d hd
  rw [h.dependencies] at hd
  rw [hany, h.core, ← hany]
  exact hbroken d hd

/-- The migration that opening the registry makes has nothing to do. -/
theorem migrateRegistration_placed (hplaced : Placed r) (hbroken : r.dependencies.any (broken r) = false) :
    migrateRegistration r = .ok r := by
  have hsame : Rows.updateWhere (misplaced r) replaced r.operations = r.operations := by
    rw [Rows.updateWhere]
    refine (List.map_congr_left fun o ho => ?_).trans (List.map_id _)
    rw [hplaced o ho]
    rfl
  have hstored : stored { r.toTables with
      operations := Rows.updateWhere (misplaced r) replaced r.operations } = .ok r := by
    rw [hsame]
    exact dif_pos r.valid
  rw [migrateRegistration, hstored, ok_bind, hbroken]
  rfl

theorem migrateRegistration_unbroken (h : migrateRegistration r = .ok r') :
    r'.dependencies.any (broken r') = false := by
  obtain ⟨r₁, -, h⟩ := bind_eq_ok.mp h
  obtain ⟨_, hbroken, h⟩ := bind_eq_ok.mp h
  cases h
  exact Bool.eq_false_iff.mpr (failIf_eq_ok.mp hbroken)

/-- In a registry with valid names nothing is left below `/std/` that does not belong there. -/
theorem migrateRegistration_moves (hnames : ∀ p ∈ r.packages, validName p.name = true ∧ p.name ≠ "std")
    (h : migrateRegistration r = .ok r') : Placed r' := by
  have htables := migrateRegistration_tables h
  have hpackages (name : String) : r'.package name = r.package name := by
    refine package_congr ?_ name
    rw [htables]
  intro o ho
  rw [htables] at ho
  obtain ⟨o, -, rfl⟩ := Rows.mem_updateWhere.mp ho
  rw [misplaced_congr (hpackages _)]
  split
  · rename_i hmisplaced
    rw [misplaced, Bool.and_eq_true, List.any_eq_true] at hmisplaced
    obtain ⟨hstd, p, hp, hlib⟩ := hmisplaced
    simp only [Bool.and_eq_true, beq_iff_eq] at hlib hstd
    obtain ⟨hvalid, hne⟩ := hnames p hp
    rw [hlib.1.1] at hvalid hne
    have hroot : (String.ofList (o.path.toList.drop 4)).toList.head? = some '/' := by
      have hslash : (o.path.toList.take 5)[4]? = some '/' := by
        rw [hstd]
        rfl
      rw [List.getElem?_take_of_lt (by decide)] at hslash
      rw [String.toList_ofList, List.head?_drop]
      exact hslash
    rw [misplaced_eq, replaced, mounted_not_std hvalid hne hroot]
    rfl
  · rename_i hplaced
    exact Bool.eq_false_iff.mpr hplaced

theorem migrateLegacyGroups_eq_ok : migrateLegacyGroups host groups r = .ok r' ↔
    ∃ gs r₀, asArr groups = some gs ∧ gs.length ≤ 100 ∧
      (gs = [] ∧ r₀ = r ∨ gs ≠ [] ∧ migrateRegistration r = .ok r₀) ∧ r' = run host r₀ gs := by
  simp only [migrateLegacyGroups, bind_eq_ok, orElse_eq_ok, Option.filter_eq_some_iff,
    decide_eq_true_eq]
  constructor
  · rintro ⟨gs, ⟨hgroups, hlength⟩, h⟩
    cases gs with
    | nil =>
        cases h
        exact ⟨[], r, hgroups, hlength, .inl ⟨rfl, rfl⟩, rfl⟩
    | cons group gs =>
        obtain ⟨r₀, hopened, h⟩ := bind_eq_ok.mp h
        cases h
        exact ⟨group :: gs, r₀, hgroups, hlength, .inr ⟨List.cons_ne_nil _ _, hopened⟩, rfl⟩
  · rintro ⟨gs, r₀, hgroups, hlength, ⟨rfl, rfl⟩ | ⟨hne, hopened⟩, rfl⟩
    · exact ⟨[], ⟨hgroups, hlength⟩, rfl⟩
    · refine ⟨gs, ⟨hgroups, hlength⟩, ?_⟩
      rw [if_neg (by simpa using hne), hopened]
      rfl

end

/-- Each group transfers all that it names or nothing; and a second run changes nothing, if no group
has changed a package of an earlier one. -/
theorem legacy_transfers {c : Crates} {p : Profile} {groups : Json} {r r' : Registry}
    (h : migrateLegacyGroups (hostOf c p) groups r = .ok r') :
    ∃ gs r₀, asArr groups = some gs ∧
      (gs = [] ∧ r₀ = r ∨ gs ≠ [] ∧ migrateRegistration r = .ok r₀) ∧
      (Placed r → r₀ = r) ∧ r' = run (hostOf c p) r₀ gs ∧
      (∀ before group after, gs = before ++ group :: after →
        GroupStep (hostOf c p) group (run (hostOf c p) r₀ before)
          (run (hostOf c p) r₀ (before ++ [group])) ∧
        ∀ e, transferGroup (hostOf c p) (run (hostOf c p) r₀ before) group = .error e →
          r' = run (hostOf c p) r₀ (before ++ after)) ∧
      ((∀ q ∈ r.packages, validName q.name = true ∧ q.name ≠ "std") →
        Undisturbed (hostOf c p) r₀ gs → migrateLegacyGroups (hostOf c p) groups r' = .ok r') := by
  obtain ⟨gs, r₀, hgroups, hlength, hopened, rfl⟩ := migrateLegacyGroups_eq_ok.mp h
  refine ⟨gs, r₀, hgroups, hopened, fun hplaced => ?_, rfl, ?_, fun hnames hundisturbed => ?_⟩
  · obtain ⟨-, rfl⟩ | ⟨-, hopened⟩ := hopened
    · rfl
    · exact migrateRegistration_eq hplaced hopened
  · rintro before group after rfl
    refine ⟨?_, fun e hfailing => run_failing hfailing⟩
    rw [run_concat]
    exact groupStep _ group _
  · refine migrateLegacyGroups_eq_ok.mpr ⟨gs, run (hostOf c p) r₀ gs, hgroups, hlength, ?_,
      (run_again hundisturbed).symm⟩
    obtain ⟨rfl, rfl⟩ | ⟨hne, hopened⟩ := hopened
    · exact .inl ⟨rfl, rfl⟩
    · have hkept := run_kept (hostOf c p) r₀ gs
      exact .inr ⟨hne, migrateRegistration_placed (hkept.placed (migrateRegistration_moves hnames hopened))
        (hkept.unbroken (migrateRegistration_unbroken hopened))⟩

def sampleHash (c : Char) : String := String.ofList (List.replicate 64 c)

/-- The transfer of the page from one author to another, each with the hash of its owner. -/
def pageEntry (author target : String) (owner targetOwner : Char) : Json :=
  .obj [("name", .str "page"), ("author", .str author), ("version", .str "1.0.0"),
    ("author_owner_hash", .str (sampleHash owner)), ("package_sha256", .str (sampleHash 'd')),
    ("target_author", .str target), ("target_owner_hash", .str (sampleHash targetOwner)),
    ("evidence", .str "audited"), ("files", .obj (sampleFiles "app/page/index.html"))]

def pageGroup (entries : List Json) : Json := .obj [("group", .str "page"), ("packages", .arr entries)]

def pageRow (author : String) (owner : Option String) : Package where
  name := "page"
  author := some author
  version := "1.0.0"
  title := none
  description := none
  license := none
  repository := none
  installedAt := some 1
  upgradedAt := none
  hasLib := false
  hasApp := true
  authorOwnerHash := owner
  packageSha256 := none
  signerLeafFingerprintSha256 := none

def pageRegistry : Registry := ⟨⟨[pageRow "alice.example" none], [], [], []⟩, by decide⟩

def pageHost : Host := hostOf sampleCrates (sampleProfile (PathText.chars "index.html") (by decide))

/-- The transfer that follows from the other one comes first. -/
def chained : List Json :=
  [pageGroup [pageEntry "bob.example" "carol.example" 'b' 'c'],
    pageGroup [pageEntry "alice.example" "bob.example" 'a' 'b']]

theorem chained_run : (run pageHost pageRegistry chained).packages =
    [pageRow "bob.example" (some (sampleHash 'b'))] := by
  decide +kernel

theorem chained_again : (run pageHost (run pageHost pageRegistry chained) chained).packages =
    [pageRow "carol.example" (some (sampleHash 'c'))] := by
  decide +kernel

/-- A registry without operations and requirements opens as it is. -/
theorem page_opened (h : Kept pageRegistry r) : migrateRegistration r = .ok r := by
  refine migrateRegistration_placed (h.placed fun o ho => ?_) (h.unbroken ?_)
  · exact absurd ho List.not_mem_nil
  · rfl

theorem page_migrated (groups : List Json) (hne : groups ≠ []) (hlength : groups.length ≤ 100)
    (h : Kept pageRegistry r) :
    migrateLegacyGroups pageHost (.arr groups) r = .ok (run pageHost r groups) :=
  migrateLegacyGroups_eq_ok.mpr ⟨groups, r, rfl, hlength, .inr ⟨hne, page_opened h⟩, rfl⟩

theorem second_run_transfers : ∃ r₁ r₂, migrateLegacyGroups pageHost (.arr chained) pageRegistry = .ok r₁ ∧
    migrateLegacyGroups pageHost (.arr chained) r₁ = .ok r₂ ∧ r₂.packages ≠ r₁.packages := by
  refine ⟨_, _, page_migrated chained (by decide) (by decide) ⟨rfl, rfl, fun _ => rfl⟩,
    page_migrated chained (by decide) (by decide) (run_kept pageHost pageRegistry chained), ?_⟩
  rw [chained_run, chained_again]
  decide

theorem legacy_transfers_page :
    ∃ gs r₀, asArr (.arr (chained.drop 1)) = some gs ∧
      (gs = [] ∧ r₀ = pageRegistry ∨ gs ≠ [] ∧ migrateRegistration pageRegistry = .ok r₀) ∧
      (Placed pageRegistry → r₀ = pageRegistry) ∧
      run pageHost pageRegistry (chained.drop 1) = run pageHost r₀ gs ∧
      (∀ before group after, gs = before ++ group :: after →
        GroupStep pageHost group (run pageHost r₀ before) (run pageHost r₀ (before ++ [group])) ∧
        ∀ e, transferGroup pageHost (run pageHost r₀ before) group = .error e →
          run pageHost pageRegistry (chained.drop 1) = run pageHost r₀ (before ++ after)) ∧
      ((∀ q ∈ pageRegistry.packages, validName q.name = true ∧ q.name ≠ "std") →
        Undisturbed pageHost r₀ gs →
          migrateLegacyGroups pageHost (.arr (chained.drop 1)) (run pageHost pageRegistry (chained.drop 1)) =
            .ok (run pageHost pageRegistry (chained.drop 1))) :=
  legacy_transfers (page_migrated (chained.drop 1) (by decide) (by decide) ⟨rfl, rfl, fun _ => rfl⟩)

end Pishoo.LegacyTransfers
