import Mathlib.Data.List.AList
import Mathlib.Data.List.Destutter
import Mathlib.Data.List.Sort

namespace Pishoo.Mdns

structure Binding where
  device : String
  ip : String
  deriving DecidableEq

/-- An address that a socket is bound to. -/
structure Bound where
  ip : String
  port : Nat
  deriving DecidableEq

structure Socket where
  localAddr : Option Bound
  boundDevice : Option String

/-- What a call to the resolvers returns, and whether it has had its effect. One that succeeds has. -/
structure Attempt where
  result : Except String Unit
  effect : Bool
  sound : result = .ok () → effect = true

section

variable (α : Type)

/-- The addresses that are published for each name. -/
abbrev Records := AList fun _ : String => List α

/-- The instances of the resolver set. -/
abbrev Resolvers := AList fun _ : Binding => Records α

/-- The address book and the sockets. `publishable` are internal addresses with a port. -/
structure Addresses where
  innerBindings : List (Bound × String)
  findSocket : Bound → Option Socket
  endpoints : Bound → List α
  publishable : α → Bool

/-- What the resolvers and the identities answer while they are maintained, and the order in which
the map of the desired instances is walked through. -/
structure Answers where
  retire : Binding → Attempt
  withdraw : Binding → Attempt
  upsert : Binding → Attempt
  authority : String → Except String Unit
  publish : Binding → String → Attempt
  order : List (Binding × List α) → List (Binding × List α)
  perm : ∀ l, (order l).Perm l

/-- The resolvers during their maintenance, and the first failure. -/
structure Pass where
  resolvers : Resolvers α
  error : Option String

end

section

variable {α : Type}

def usable (book : Addresses α) (bound : Bound) (device : String) : Bool :=
  (book.findSocket bound).any fun socket =>
    socket.localAddr == some bound && socket.boundDevice == some device

/-- `entry(key).or_default().extend(values)`. -/
def extend (key : Binding) (values : List α) : List (Binding × List α) → List (Binding × List α)
  | [] => [(key, values)]
  | (k, vs) :: rest => if k = key then (k, vs ++ values) :: rest else (k, vs) :: extend key values rest

def collect (book : Addresses α) (desired : List (Binding × List α)) (entry : Bound × String) :
    List (Binding × List α) :=
  if usable book entry.1 entry.2 then extend ⟨entry.2, entry.1.ip⟩ (book.endpoints entry.1) desired
  else desired

def collected (book : Addresses α) : List (Binding × List α) :=
  book.innerBindings.foldl (collect book) []

def Pass.note (p : Pass α) : Except String Unit → Pass α
  | .ok () => p
  | .error e => { p with error := p.error.or (some e) }

/-- The instances of a snapshot that meet the test are removed. -/
def eraseAll (attempt : Binding → Attempt) (test : Binding → Bool) (snapshot : List Binding)
    (p : Pass α) : Pass α :=
  snapshot.foldl (fun p b => if test b then
    { p with resolvers := if (attempt b).effect then p.resolvers.erase b else p.resolvers }.note
      (attempt b).result
    else p) p

def recordsOf (resolvers : Resolvers α) (b : Binding) : Records α := (resolvers.lookup b).getD ∅

def publishName (answers : Answers α) (b : Binding) (values : List α) (p : Pass α) (name : String) :
    Pass α :=
  match answers.authority name with
  | .error e => p.note (.error e)
  | .ok () =>
      let attempt := answers.publish b name
      { p with resolvers := if attempt.effect then
          p.resolvers.insert b ((recordsOf p.resolvers b).insert name values)
          else p.resolvers }.note attempt.result

def publishAll (answers : Answers α) (names : List String) (p : Pass α)
    (entry : Binding × List α) : Pass α :=
  let attempt := answers.upsert entry.1
  let p := { p with resolvers := if attempt.effect then
    p.resolvers.insert entry.1 (recordsOf p.resolvers entry.1) else p.resolvers }
  match attempt.result with
  | .error e => p.note (.error e)
  | .ok () => names.foldl (publishName answers entry.1 entry.2) p

variable [LinearOrder α]

def tidy (book : Addresses α) (values : List α) : List α :=
  ((values.filter book.publishable).insertionSort (· ≤ ·)).destutter (· ≠ ·)

def desired (book : Addresses α) : List (Binding × List α) :=
  ((collected book).map fun entry => (entry.1, tidy book entry.2)).filter fun entry => !entry.2.isEmpty

/-- `maintain_mdns`. The names are those of the endpoints. -/
def maintainMdns (answers : Answers α) (book : Addresses α) (names : List String)
    (removedBounds : List Bound) (resolvers : Resolvers α) : Pass α :=
  let retired := eraseAll answers.retire (fun b => removedBounds.any fun bound => bound.ip == b.ip)
    resolvers.keys ⟨resolvers, none⟩
  let withdrawn := eraseAll answers.withdraw (fun b => !((desired book).map Prod.fst).contains b)
    retired.resolvers.keys retired
  (answers.order (desired book)).foldl (publishAll answers names) withdrawn

def removeName (resolvers : Resolvers α) (name : String) : Resolvers α :=
  resolvers.keys.foldl (fun m b => m.insert b ((recordsOf m b).erase name)) resolvers

/-- Some instance answers for the name. -/
def Advertised (resolvers : Resolvers α) (name : String) : Prop :=
  ∃ b records, resolvers.lookup b = some records ∧ name ∈ records

/-- The pass has changed the records of one instance, and there those of the names at most. -/
structure Touches (b : Binding) (names : List String) (p p' : Pass α) : Prop where
  others : ∀ b', b' ≠ b → p'.resolvers.lookup b' = p.resolvers.lookup b'
  kept : ∀ name ∉ names, (recordsOf p'.resolvers b).lookup name = (recordsOf p.resolvers b).lookup name
  present : b ∈ p.resolvers → b ∈ p'.resolvers

/-- The addresses that are to be published for an instance. -/
def Wanted (book : Addresses α) (b : Binding) (a : α) : Prop :=
  book.publishable a = true ∧ ∃ bound device, (bound, device) ∈ book.innerBindings ∧
    usable book bound device = true ∧ b = ⟨device, bound.ip⟩ ∧ a ∈ book.endpoints bound

end

section

variable {α : Type} {p p' : Pass α} {resolvers : Resolvers α} {b b' : Binding} {name : String}
  {names : List String} {values : List α} {answers : Answers α} {r : Except String Unit}

@[simp] theorem note_resolvers : (p.note r).resolvers = p.resolvers := by
  cases r <;> rfl

theorem note_error : (p.note r).error = none ↔ p.error = none ∧ r = .ok () := by
  cases r with
  | ok u => exact ⟨fun h => ⟨h, rfl⟩, fun h => h.1⟩
  | error e => simp [Pass.note]

theorem mem_recordsOf : name ∈ recordsOf resolvers b ↔
    ∃ records, resolvers.lookup b = some records ∧ name ∈ records := by
  rw [recordsOf]
  cases resolvers.lookup b with
  | none =>
      rw [Option.getD_none]
      exact iff_of_false (AList.notMem_empty name) (by rintro ⟨_, ⟨⟩, _⟩)
  | some records => simp

theorem advertised_iff : Advertised resolvers name ↔ ∃ b, name ∈ recordsOf resolvers b := by
  simp only [Advertised, mem_recordsOf]

theorem recordsOf_insert (records : Records α) :
    recordsOf (resolvers.insert b records) b = records := by
  rw [recordsOf, AList.lookup_insert, Option.getD_some]

/-- An instance that is removed has met the test; and without a failure all that meet it are. -/
theorem eraseAll_spec (attempt : Binding → Attempt) (test : Binding → Bool) (snapshot : List Binding)
    (p : Pass α) : (∀ b, (eraseAll attempt test snapshot p).resolvers.lookup b = p.resolvers.lookup b ∨
        (eraseAll attempt test snapshot p).resolvers.lookup b = none ∧ test b = true) ∧
      ((eraseAll attempt test snapshot p).error = none → p.error = none ∧ ∀ b ∈ snapshot,
        test b = true → (eraseAll attempt test snapshot p).resolvers.lookup b = none) := by
  induction snapshot generalizing p with
  | nil => exact ⟨fun b => .inl rfl, fun h => ⟨h, fun _ hb => absurd hb List.not_mem_nil⟩⟩
  | cons first snapshot ih =>
      rw [eraseAll, List.foldl_cons]
      by_cases htest : test first = true
      · rw [if_pos htest]
        obtain ⟨hlookup, herror⟩ := ih ({ p with resolvers :=
          if (attempt first).effect then p.resolvers.erase first else p.resolvers }.note
            (attempt first).result)
        rw [eraseAll] at hlookup herror
        have hfirst (b : Binding) : (if (attempt first).effect then p.resolvers.erase first
            else p.resolvers).lookup b = p.resolvers.lookup b ∨
              (if (attempt first).effect then p.resolvers.erase first else p.resolvers).lookup b =
                none ∧ test b = true := by
          split
          · by_cases hb : b = first
            · rw [hb]
              exact .inr ⟨AList.lookup_erase first p.resolvers, htest⟩
            · exact .inl (AList.lookup_erase_ne hb)
          · exact .inl rfl
        simp only [note_resolvers] at hlookup
        refine ⟨fun b => ?_, fun hnone => ?_⟩
        · obtain hsame | hgone := hlookup b
          · rw [hsame]
            exact hfirst b
          · exact .inr hgone
        · obtain ⟨hfailed, hrest⟩ := herror hnone
          obtain ⟨hp, hok⟩ := note_error.mp hfailed
          refine ⟨hp, fun b hb hbtest => ?_⟩
          obtain rfl | hb := List.mem_cons.mp hb
          · obtain hsame | ⟨hgone, -⟩ := hlookup b
            · rw [hsame, if_pos ((attempt b).sound hok)]
              exact AList.lookup_erase b p.resolvers
            · exact hgone
          · exact hrest b hb hbtest
      · rw [if_neg htest]
        obtain ⟨hlookup, herror⟩ := ih p
        refine ⟨hlookup, fun hnone => ?_⟩
        obtain ⟨hp, hrest⟩ := herror hnone
        refine ⟨hp, fun b hb hbtest => ?_⟩
        obtain rfl | hb := List.mem_cons.mp hb
        · exact absurd hbtest htest
        · exact hrest b hb hbtest

theorem Touches.refl (b : Binding) (names : List String) (p : Pass α) : Touches b names p p :=
  ⟨fun _ _ => rfl, fun _ _ => rfl, id⟩

theorem Touches.trans {q : Pass α} {more : List String} (h : Touches b names p p')
    (h' : Touches b more p' q) : Touches b (names ++ more) p q where
  others b' hb' := (h'.others b' hb').trans (h.others b' hb')
  kept name hname := by
    rw [List.mem_append, not_or] at hname
    exact (h'.kept name hname.2).trans (h.kept name hname.1)
  present hb := h'.present (h.present hb)

theorem Touches.note (h : Touches b names p p') (r : Except String Unit) :
    Touches b names p (p'.note r) where
  others b' hb' := by rw [note_resolvers, h.others b' hb']
  kept name hname := by rw [note_resolvers, h.kept name hname]
  present hb := by
    rw [note_resolvers]
    exact h.present hb

theorem touches_insert {records : Records α}
    (h : ∀ name ∉ names, records.lookup name = (recordsOf p.resolvers b).lookup name) :
    Touches b names p { p with resolvers := p.resolvers.insert b records } where
  others b' hb' := AList.lookup_insert_ne hb'
  kept name hname := by rw [recordsOf_insert, h name hname]
  present _ := (AList.mem_insert _).mpr (.inl rfl)

theorem publishName_touches : Touches b [name] p (publishName answers b values p name) := by
  rw [publishName]
  split
  · exact (Touches.refl b [name] p).note _
  · refine Touches.note ?_ _
    split
    · refine touches_insert fun other hother => AList.lookup_insert_ne ?_
      exact fun hsame => hother (List.mem_singleton.mpr hsame)
    · exact .refl b [name] p

theorem publishName_ok (h : (publishName answers b values p name).error = none) :
    p.error = none ∧ b ∈ (publishName answers b values p name).resolvers ∧
      (recordsOf (publishName answers b values p name).resolvers b).lookup name = some values := by
  rw [publishName] at h ⊢
  split
  · rename_i e hauthority
    rw [hauthority] at h
    cases (note_error.mp h).2
  · rename_i hauthority
    rw [hauthority] at h
    obtain ⟨hp, hok⟩ := note_error.mp h
    refine ⟨hp, ?_⟩
    rw [note_resolvers, if_pos ((answers.publish b name).sound hok), recordsOf_insert]
    exact ⟨(AList.mem_insert _).mpr (.inl rfl), AList.lookup_insert _⟩

theorem publishNames_touches (names : List String) (p : Pass α) :
    Touches b names p (names.foldl (publishName answers b values) p) := by
  induction names generalizing p with
  | nil => exact .refl b [] p
  | cons name names ih => exact publishName_touches.trans (ih _)

/-- Without a failure all names have been published, and none of them has been lost. -/
theorem publishNames_ok (h : (names.foldl (publishName answers b values) p).error = none) :
    p.error = none ∧ ∀ name ∈ names, (recordsOf (names.foldl (publishName answers b values)
      p).resolvers b).lookup name = some values := by
  induction names generalizing p with
  | nil => exact ⟨h, fun _ hname => absurd hname List.not_mem_nil⟩
  | cons first names ih =>
      rw [List.foldl_cons] at h ⊢
      obtain ⟨hfirst, hrest⟩ := ih h
      obtain ⟨hp, -, hpublished⟩ := publishName_ok hfirst
      refine ⟨hp, fun name hname => ?_⟩
      by_cases hmem : name ∈ names
      · exact hrest name hmem
      · obtain rfl : name = first := (List.mem_cons.mp hname).resolve_right hmem
        rw [(publishNames_touches names _).kept name hmem, hpublished]

theorem publishAll_touches {entry : Binding × List α} :
    Touches entry.1 names p (publishAll answers names p entry) := by
  have hupsert : Touches entry.1 [] p ⟨if (answers.upsert entry.1).effect then
      p.resolvers.insert entry.1 (recordsOf p.resolvers entry.1) else p.resolvers, p.error⟩ := by
    split
    · exact touches_insert fun _ _ => rfl
    · exact .refl entry.1 [] p
  rw [publishAll]
  split
  · have hmore : Touches entry.1 names p _ := ⟨hupsert.others,
      fun name _ => hupsert.kept name List.not_mem_nil, hupsert.present⟩
    exact hmore.note _
  · exact hupsert.trans (publishNames_touches names _)

theorem publishAll_ok {entry : Binding × List α}
    (h : (publishAll answers names p entry).error = none) :
    p.error = none ∧ entry.1 ∈ (publishAll answers names p entry).resolvers ∧
      ∀ name ∈ names, (recordsOf (publishAll answers names p entry).resolvers entry.1).lookup name =
        some entry.2 := by
  rw [publishAll] at h ⊢
  split
  · rename_i e hupsert
    rw [hupsert] at h
    cases (note_error.mp h).2
  · rename_i hupsert
    rw [hupsert] at h
    obtain ⟨hp, hpublished⟩ := publishNames_ok h
    refine ⟨hp, ?_, hpublished⟩
    refine (publishNames_touches names _).present ?_
    rw [if_pos ((answers.upsert entry.1).sound hupsert)]
    exact (AList.mem_insert _).mpr (.inl rfl)

theorem mem_extend_keys {key : Binding} {entries : List (Binding × List α)} :
    b ∈ (extend key values entries).map Prod.fst ↔ b = key ∨ b ∈ entries.map Prod.fst := by
  induction entries with
  | nil => rw [extend, List.map_cons, List.mem_cons]
  | cons entry entries ih =>
      rw [extend]
      split
      · rename_i hk
        rw [List.map_cons, List.map_cons, List.mem_cons, hk]
        exact (or_iff_right_of_imp .inl).symm
      · rw [List.map_cons, List.map_cons, List.mem_cons, List.mem_cons, ih]
        exact or_left_comm

theorem nodup_extend {key : Binding} {entries : List (Binding × List α)}
    (h : (entries.map Prod.fst).Nodup) : ((extend key values entries).map Prod.fst).Nodup := by
  induction entries with
  | nil => exact List.nodup_singleton key
  | cons entry entries ih =>
      rw [List.map_cons, List.nodup_cons] at h
      rw [extend]
      split
      · exact List.nodup_cons.mpr h
      · rename_i hk
        rw [List.map_cons, List.nodup_cons, mem_extend_keys, not_or]
        exact ⟨⟨hk, h.1⟩, ih h.2⟩

theorem mem_extend {key : Binding} {entries : List (Binding × List α)} {a : α} :
    (∃ vs, (b, vs) ∈ extend key values entries ∧ a ∈ vs) ↔
      (b = key ∧ a ∈ values) ∨ ∃ vs, (b, vs) ∈ entries ∧ a ∈ vs := by
  induction entries with
  | nil => simp [extend]
  | cons entry entries ih =>
      obtain ⟨k, vs⟩ := entry
      rw [extend]
      by_cases hk : k = key
      · subst hk
        rw [if_pos rfl]
        simp only [List.mem_cons, Prod.mk.injEq, or_and_right, exists_or, and_assoc,
          exists_and_left, exists_eq_left, List.mem_append]
        tauto
      · rw [if_neg hk]
        simp only [List.mem_cons, Prod.mk.injEq, or_and_right, exists_or, and_assoc,
          exists_and_left, exists_eq_left, ih]
        tauto

theorem nodup_collected (book : Addresses α) : ((collected book).map Prod.fst).Nodup := by
  rw [collected]
  refine List.foldlRecOn (motive := fun entries : List (Binding × List α) =>
    (entries.map Prod.fst).Nodup) book.innerBindings _ List.nodup_nil fun entries h entry _ => ?_
  rw [collect]
  split
  · exact nodup_extend h
  · exact h

/-- The order of the bindings does not matter to what is collected for an instance. -/
theorem mem_collected {book : Addresses α} {a : α} :
    (∃ vs, (b, vs) ∈ collected book ∧ a ∈ vs) ↔ ∃ bound device,
      (bound, device) ∈ book.innerBindings ∧ usable book bound device = true ∧
        b = ⟨device, bound.ip⟩ ∧ a ∈ book.endpoints bound := by
  have hreverse (entry : Bound × String) : entry ∈ book.innerBindings ↔
      entry ∈ book.innerBindings.reverse := List.mem_reverse.symm
  rw [collected, ← List.foldr_reverse]
  simp only [hreverse]
  induction book.innerBindings.reverse with
  | nil => simp
  | cons entry entries ih =>
      obtain ⟨bound, device⟩ := entry
      rw [List.foldr_cons, collect]
      split
      · rename_i husable
        refine (mem_extend.trans (or_congr_right ih)).trans ⟨?_, ?_⟩
        · rintro (⟨hb, ha⟩ | ⟨bound', device', hmem, h⟩)
          · exact ⟨bound, device, List.mem_cons_self, husable, hb, ha⟩
          · exact ⟨bound', device', List.mem_cons_of_mem _ hmem, h⟩
        · rintro ⟨bound', device', hmem, husable', hb, ha⟩
          obtain heq | hmem := List.mem_cons.mp hmem
          · cases heq
            exact .inl ⟨hb, ha⟩
          · exact .inr ⟨bound', device', hmem, husable', hb, ha⟩
      · rename_i husable
        refine ih.trans ⟨?_, ?_⟩
        · rintro ⟨bound', device', hmem, h⟩
          exact ⟨bound', device', List.mem_cons_of_mem _ hmem, h⟩
        · rintro ⟨bound', device', hmem, husable', hb, ha⟩
          obtain heq | hmem := List.mem_cons.mp hmem
          · cases heq
            exact absurd husable' husable
          · exact ⟨bound', device', hmem, husable', hb, ha⟩

variable {book : Addresses α} {entries : List (Binding × List α)}

theorem eq_of_mem_collected {values' : List α} (h : (b, values) ∈ collected book)
    (h' : (b, values') ∈ collected book) : values = values' :=
  congrArg Prod.snd (List.inj_on_of_nodup_map (nodup_collected book) h h' rfl)

theorem recordsOf_eraseAll {attempt : Binding → Attempt} {test : Binding → Bool}
    {snapshot : List Binding}
    (h : name ∈ recordsOf (eraseAll attempt test snapshot p).resolvers b) :
    name ∈ recordsOf p.resolvers b := by
  obtain ⟨records, hlookup, hname⟩ := mem_recordsOf.mp h
  obtain hsame | ⟨hnone, -⟩ := (eraseAll_spec attempt test snapshot p).1 b
  · exact mem_recordsOf.mpr ⟨records, hsame ▸ hlookup, hname⟩
  · rw [hnone] at hlookup
    cases hlookup

theorem mem_recordsOf_iff : name ∈ recordsOf resolvers b ↔
    ∃ values, (recordsOf resolvers b).lookup name = some values := by
  rw [← AList.lookup_isSome, Option.isSome_iff_exists]

theorem publishBatch_others (hb : b ∉ entries.map Prod.fst) :
    (entries.foldl (publishAll answers names) p).resolvers.lookup b = p.resolvers.lookup b := by
  induction entries generalizing p with
  | nil => rfl
  | cons entry entries ih =>
      rw [List.map_cons, List.mem_cons, not_or] at hb
      rw [List.foldl_cons, ih hb.2, publishAll_touches.others b hb.1]

theorem publishBatch_kept (hname : name ∉ names) :
    (recordsOf (entries.foldl (publishAll answers names) p).resolvers b).lookup name =
      (recordsOf p.resolvers b).lookup name := by
  induction entries generalizing p with
  | nil => rfl
  | cons entry entries ih =>
      rw [List.foldl_cons, ih]
      by_cases hb : b = entry.1
      · rw [hb, publishAll_touches.kept name hname]
      · rw [recordsOf, publishAll_touches.others b hb, ← recordsOf]

/-- Without a failure every entry of the batch has been published, and no later one has undone it. -/
theorem publishBatch_ok (hnodup : (entries.map Prod.fst).Nodup)
    (h : (entries.foldl (publishAll answers names) p).error = none) :
    p.error = none ∧ ∀ b values, (b, values) ∈ entries →
      b ∈ (entries.foldl (publishAll answers names) p).resolvers ∧ ∀ name ∈ names,
        (recordsOf (entries.foldl (publishAll answers names) p).resolvers b).lookup name =
          some values := by
  induction entries generalizing p with
  | nil => exact ⟨h, fun _ _ hmem => absurd hmem List.not_mem_nil⟩
  | cons entry entries ih =>
      rw [List.map_cons, List.nodup_cons] at hnodup
      rw [List.foldl_cons] at h ⊢
      obtain ⟨hentry, hrest⟩ := ih hnodup.2 h
      obtain ⟨hp, hpresent, hpublished⟩ := publishAll_ok hentry
      refine ⟨hp, fun b values hmem => ?_⟩
      obtain rfl | hmem := List.mem_cons.mp hmem
      · have hsame : (entries.foldl (publishAll answers names)
            (publishAll answers names p (b, values))).resolvers.lookup b =
              (publishAll answers names p (b, values)).resolvers.lookup b :=
          publishBatch_others hnodup.1
        refine ⟨?_, fun name hname => ?_⟩
        · rwa [← AList.lookup_isSome, hsame, AList.lookup_isSome]
        · rw [recordsOf, hsame, ← recordsOf, hpublished name hname]
      · exact hrest b values hmem

variable [LinearOrder α]

theorem mem_tidy {a : α} : a ∈ tidy book values ↔ a ∈ values ∧ book.publishable a = true := by
  rw [tidy, (List.pairwise_insertionSort (· ≤ ·) _).destutter_eq_dedup, List.mem_dedup,
    List.mem_insertionSort, List.mem_filter]

theorem sorted_tidy : (tidy book values).Pairwise (· < ·) := by
  have hle : (tidy book values).Pairwise (· ≤ ·) :=
    (List.pairwise_insertionSort (· ≤ ·) _).sublist (List.destutter_sublist _ _)
  have hne : (tidy book values).Nodup := by
    rw [tidy, (List.pairwise_insertionSort (· ≤ ·) _).destutter_eq_dedup]
    exact List.nodup_dedup _
  exact (hle.and hne).imp fun h => lt_of_le_of_ne h.1 h.2

theorem nodup_desired : ((desired book).map Prod.fst).Nodup := by
  refine (nodup_collected book).sublist ?_
  have hkeys : ((collected book).map fun entry => (entry.1, tidy book entry.2)).map Prod.fst =
      (collected book).map Prod.fst := by
    rw [List.map_map]
    rfl
  rw [← hkeys]
  exact List.filter_sublist.map Prod.fst

theorem mem_desired {vs : List α} : (b, vs) ∈ desired book ↔
    (∃ values, (b, values) ∈ collected book ∧ vs = tidy book values) ∧ vs ≠ [] := by
  rw [desired, List.mem_filter, List.mem_map]
  simp only [Prod.mk.injEq, Prod.exists, Bool.not_eq_true', List.isEmpty_eq_false_iff]
  constructor
  · rintro ⟨⟨_, values, hmem, rfl, rfl⟩, hvs⟩
    exact ⟨⟨values, hmem, rfl⟩, hvs⟩
  · rintro ⟨⟨values, hmem, rfl⟩, hvs⟩
    exact ⟨⟨b, values, hmem, rfl, rfl⟩, hvs⟩

/-- The addresses of an instance are those that are wanted for it, each of them once. -/
theorem desired_spec {vs : List α} (h : (b, vs) ∈ desired book) :
    vs.Pairwise (· < ·) ∧ ∀ a, a ∈ vs ↔ Wanted book b a := by
  obtain ⟨⟨values, hmem, rfl⟩, -⟩ := mem_desired.mp h
  refine ⟨sorted_tidy, fun a => ?_⟩
  rw [mem_tidy, Wanted, ← mem_collected, and_comm]
  refine and_congr_right fun _ => ⟨fun ha => ⟨values, hmem, ha⟩, ?_⟩
  rintro ⟨values', hmem', ha⟩
  rw [eq_of_mem_collected hmem hmem']
  exact ha

theorem mem_desired_keys : b ∈ (desired book).map Prod.fst ↔ ∃ a, Wanted book b a := by
  constructor
  · intro h
    obtain ⟨⟨_, vs⟩, hmem, rfl⟩ := List.mem_map.mp h
    obtain ⟨a, ha⟩ := List.exists_mem_of_ne_nil vs (mem_desired.mp hmem).2
    exact ⟨a, ((desired_spec hmem).2 a).mp ha⟩
  · rintro ⟨a, hpublishable, hbound⟩
    obtain ⟨values, hmem, ha⟩ := mem_collected.mpr hbound
    have htidy : a ∈ tidy book values := mem_tidy.mpr ⟨ha, hpublishable⟩
    exact List.mem_map.mpr ⟨(b, tidy book values),
      mem_desired.mpr ⟨⟨values, hmem, rfl⟩, List.ne_nil_of_mem htidy⟩, rfl⟩

variable {removedBounds : List Bound}

theorem mem_order_keys (answers : Answers α) : b ∈ (answers.order (desired book)).map Prod.fst ↔
    ∃ a, Wanted book b a := by
  rw [((answers.perm (desired book)).map Prod.fst).mem_iff, mem_desired_keys]

/-- Whatever fails, only the names of the endpoints come to be advertised. -/
theorem maintain_names
    (h : name ∈ recordsOf (maintainMdns answers book names removedBounds resolvers).resolvers b) :
    name ∈ names ∨ name ∈ recordsOf resolvers b := by
  refine or_iff_not_imp_left.mpr fun hname => ?_
  rw [maintainMdns, mem_recordsOf_iff, publishBatch_kept hname, ← mem_recordsOf_iff] at h
  exact recordsOf_eraseAll (recordsOf_eraseAll h)

/-- Without a failure the instances are those for which an address is wanted. -/
theorem maintain_instances
    (h : (maintainMdns answers book names removedBounds resolvers).error = none) :
    b ∈ (maintainMdns answers book names removedBounds resolvers).resolvers ↔
      ∃ a, Wanted book b a := by
  have hnodup : ((answers.order (desired book)).map Prod.fst).Nodup :=
    ((answers.perm _).map Prod.fst).nodup_iff.mpr nodup_desired
  obtain ⟨hwithdrawn, hpublished⟩ := publishBatch_ok hnodup h
  constructor
  · intro hb
    by_contra hnone
    have hkeys : b ∉ (answers.order (desired book)).map Prod.fst := mt (mem_order_keys answers).mp hnone
    rw [maintainMdns, ← AList.lookup_isSome, publishBatch_others hkeys] at hb
    obtain ⟨hlookup, herror⟩ := eraseAll_spec answers.withdraw
      (fun b => !((desired book).map Prod.fst).contains b) _ _
    obtain hsame | ⟨hgone, -⟩ := hlookup b
    · rw [(herror hwithdrawn).2 b (AList.mem_keys.mp ?_) ?_] at hb
      · cases hb
      · rw [hsame, AList.lookup_isSome] at hb
        exact hb
      · rw [Bool.not_eq_true', List.contains_eq_mem, decide_eq_false_iff_not, mem_desired_keys]
        exact hnone
    · rw [hgone] at hb
      cases hb
  · intro hwanted
    obtain ⟨⟨b, values⟩, hmem, rfl⟩ := List.mem_map.mp ((mem_order_keys answers).mpr hwanted)
    exact (hpublished b values hmem).1

/-- Without a failure each name has its addresses at each instance. -/
theorem maintain_records
    (h : (maintainMdns answers book names removedBounds resolvers).error = none)
    (hb : b ∈ (maintainMdns answers book names removedBounds resolvers).resolvers)
    (hname : name ∈ names) :
    ∃ values, (recordsOf (maintainMdns answers book names removedBounds resolvers).resolvers
        b).lookup name = some values ∧ values.Pairwise (· < ·) ∧
      ∀ a, a ∈ values ↔ Wanted book b a := by
  obtain ⟨⟨b, values⟩, hmem, rfl⟩ :=
    List.mem_map.mp ((mem_order_keys answers).mpr ((maintain_instances h).mp hb))
  have hnodup : ((answers.order (desired book)).map Prod.fst).Nodup :=
    ((answers.perm _).map Prod.fst).nodup_iff.mpr nodup_desired
  have hdesired := (answers.perm (desired book)).mem_iff.mp hmem
  exact ⟨values, ((publishBatch_ok hnodup h).2 b values hmem).2 name hname, desired_spec hdesired⟩

end

section

variable {α : Type} {resolvers : Resolvers α} {b : Binding} {name other : String}

theorem erase_erase {records : Records α} :
    (records.erase name).erase name = records.erase name :=
  AList.ext (List.kerase_of_notMem_keys
    (List.notMem_keys_kerase name records.nodupKeys))

theorem removeName_spec (snapshot : List Binding) :
    recordsOf (snapshot.foldl (fun m b => m.insert b ((recordsOf m b).erase other)) resolvers) b =
      if b ∈ snapshot then (recordsOf resolvers b).erase other else recordsOf resolvers b := by
  induction snapshot generalizing resolvers with
  | nil => rfl
  | cons first snapshot ih =>
      rw [List.foldl_cons, ih]
      by_cases hb : b = first
      · subst hb
        rw [recordsOf_insert, if_pos List.mem_cons_self]
        split
        · exact erase_erase
        · rfl
      · rw [recordsOf, AList.lookup_insert_ne hb, ← recordsOf]
        simp only [List.mem_cons, hb, false_or]

/-- The name is not advertised any more, and the other names are as before. -/
theorem mem_removeName : name ∈ recordsOf (removeName resolvers other) b ↔
    name ∈ recordsOf resolvers b ∧ name ≠ other := by
  rw [removeName, removeName_spec]
  split
  · rw [AList.mem_erase, and_comm]
  · rename_i hb
    refine ⟨fun h => ?_, And.left⟩
    obtain ⟨records, hlookup, -⟩ := mem_recordsOf.mp h
    exact absurd (AList.mem_keys.mp (AList.lookup_isSome.mp (hlookup ▸ rfl))) hb

theorem lookup_removeName (h : name ≠ other) :
    (recordsOf (removeName resolvers other) b).lookup name =
      (recordsOf resolvers b).lookup name := by
  rw [removeName, removeName_spec]
  split
  · exact AList.lookup_erase_ne h
  · rfl

theorem mem_instances_removeName : b ∈ removeName resolvers other ↔ b ∈ resolvers := by
  have hsnapshot (snapshot : List Binding) (m : Resolvers α) :
      b ∈ snapshot.foldl (fun m b => m.insert b ((recordsOf m b).erase other)) m ↔
        b ∈ snapshot ∨ b ∈ m := by
    induction snapshot generalizing m with
    | nil => simp
    | cons first snapshot ih => rw [List.foldl_cons, ih, AList.mem_insert, List.mem_cons, or_left_comm,
        or_assoc]
  rw [removeName, hsnapshot, AList.mem_keys, or_self]

end

end Pishoo.Mdns
