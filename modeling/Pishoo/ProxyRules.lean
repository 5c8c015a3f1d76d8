import Mathlib.Algebra.GroupWithZero.Nat
import Mathlib.Data.List.Sort
import Pishoo.Publication
import Pishoo.Router

namespace Pishoo.ProxyRules

open Result PathText Publication Router Authorization

/-- `http::uri::PathAndQuery`. -/
structure PathAndQuery where
  path : Text
  query : Option Text
  deriving DecidableEq

def PathAndQuery.text (p : PathAndQuery) : Text := withQuery p.path p.query

/-- `http::uri::Parts`. -/
structure Parts where
  scheme : Option Text
  authority : Option Text
  pathAndQuery : Option PathAndQuery
  deriving DecidableEq

/-- `std::net::SocketAddr`, with the text it is printed as. -/
structure SocketAddr where
  text : Text
  loopback : Bool
  port : Nat

/-- The code that is not Pishoo's own: the parsers of addresses and URIs. -/
structure Http where
  address : Text → Option SocketAddr
  uri : Text → Option Parts
  pathAndQuery : Text → Option PathAndQuery
  fromParts : Parts → Option Parts

structure ProxyLocation extends Router.ProxyLocation where
  proxyPass : Parts

def exactMark : Text := chars "= "

/-- The path of a location, which may be marked as exact. -/
def pathOf (location : Text) : Text := (strip exactMark location).getD location

def validPath (path : Text) : Bool :=
  path.head? == some '/' && !(path.zip path.tail).contains ('/', '/') &&
    !path.any (fun c => c == '?' || c == '#' || c == '%' || c == '\\') &&
    !(path.splitOn '/').any (fun part => part == ['.'] || part == ['.', '.']) &&
    !path.any (fun c => whitespace c || control c)

/-- What comes after the first separator. -/
def afterFirst (separator : Text) : Text → Option Text
  | [] => none
  | c :: text => match strip separator (c :: text) with
    | some rest => some rest
    | none => afterFirst separator text

def schemeMark : Text := chars "://"

/-- The URI of an upstream, which may be a bare address. -/
def uriText (h : Http) (upstream : Text) : Text :=
  match h.address upstream with
  | some address => chars "http://" ++ address.text
  | none => upstream

/-- Without a slash after the scheme, the path of the request is kept. -/
def pathless (h : Http) (upstream : Text) : Bool :=
  (h.address upstream).isSome ||
    (afterFirst schemeMark (uriText h upstream)).any (!·.contains '/')

def parseUpstream (h : Http) (upstream : Text) : Except Error Parts := do
  let proxyPass ← orElse (h.uri (uriText h upstream)) (.invalidConfig "invalid proxy URI")
  failIf (proxyPass.scheme ≠ some (chars "http") ∨
      (proxyPass.authority.bind h.address).all (fun a => !a.loopback || a.port == 0) = true ∨
      upstream.any (fun c => c == '?' || c == '#' || c == '$') = true)
    (.invalidConfig "proxy_pass must identify a local HTTP/TCP endpoint")
  .ok (if pathless h upstream then { proxyPass with pathAndQuery := none } else proxyPass)

def parseProxy (h : Http) (seen : List Text) (value : Text × Text) : Except Error ProxyLocation := do
  let path := pathOf value.1
  failIf (validPath path = false ∨ value.1 ∈ seen ∨ reserved path = true)
    (.invalidConfig ("invalid or reserved proxy location: " ++ String.ofList value.1))
  let proxyPass ← parseUpstream h value.2
  .ok { location := value.1, proxyPass }

def sooner (p q : ProxyLocation) : Prop := String.ofList p.location ≤ String.ofList q.location

instance : DecidableRel sooner := fun p q =>
  inferInstanceAs (Decidable (String.ofList p.location ≤ String.ofList q.location))

def locations (rules : List ProxyLocation) : List Text := rules.map fun p => p.location

def addProxy (h : Http) (rules : List ProxyLocation) (value : Text × Text) :
    Except Error (List ProxyLocation) := do
  let rule ← parseProxy h (locations rules) value
  .ok (rules ++ [rule])

def parseProxies (h : Http) (values : List (Text × Text)) : Except Error (List ProxyLocation) := do
  let rules ← values.foldlM (addProxy h) []
  .ok (rules.insertionSort sooner)

/-- What `proxy_pass` does with a path. -/
inductive Choice
  | notFound
  | redirect (location : Text)
  | forward (rule : ProxyLocation)

/-- The length of a location in bytes. -/
def size (location : Text) : Nat := (location.map Char.utf8Size).sum

/-- `max_by_key`: the last one of those with the greatest key. -/
def maxByKey {α : Type} (key : α → Nat) : List α → Option α
  | [] => none
  | a :: as => match maxByKey key as with
    | none => some a
    | some b => if key b < key a then some a else some b

def choose (rules : List ProxyLocation) (path : Text) : Choice :=
  if reserved path then .notFound
  else
    let exact := rules.find? fun p => strip exactMark p.location == some path
    let redirect := if exact.isSome then none else rules.find? fun p =>
      p.location.getLast? == some '/' && trimEnd p.location == path
    match redirect with
    | some p => .redirect p.location
    | none =>
        match exact.orElse fun _ => maxByKey (fun p => size p.location)
          (rules.filter fun p => proxyMatches path p.toProxyLocation) with
        | some p => .forward p
        | none => .notFound

def proxyUri (h : Http) (route : ProxyLocation) (uri : PathAndQuery) : Except Error Parts := do
  let path ← (match route.proxyPass.pathAndQuery with
    | some base => do
        let suffix ← (if starts exactMark route.location then .ok []
          else orElse (strip route.location uri.path) .routeNotFound)
        .ok (base.path ++ suffix)
    | none => .ok uri.path)
  let path ← orElse (h.pathAndQuery (withQuery path uri.query))
    (.badRequest "invalid upstream path")
  orElse (h.fromParts { route.proxyPass with pathAndQuery := some path })
    (.badRequest "invalid upstream URI")

/-- The location is the path, or the path goes on after it at a slash. -/
def Covers (location path : Text) : Prop :=
  location.head? = some '/' ∧ ∃ rest, path = location ++ rest ∧
    (rest = [] ∨ location.getLast? = some '/' ∨ rest.head? = some '/')

/-- What the rules say about a path, whatever their order is. -/
inductive Selects (rules : List ProxyLocation) (path : Text) : Choice → Prop
  | reserved (hreserved : reserved path = true) : Selects rules path .notFound
  | exact {rule : ProxyLocation} (hreserved : reserved path = false) (hrule : rule ∈ rules)
      (hexact : rule.location = exactMark ++ path) : Selects rules path (.forward rule)
  | redirect (hreserved : reserved path = false) (hexact : exactMark ++ path ∉ locations rules)
      (hdirectory : path ++ ['/'] ∈ locations rules) : Selects rules path (.redirect (path ++ ['/']))
  | longest {rule : ProxyLocation} (hreserved : reserved path = false)
      (hexact : exactMark ++ path ∉ locations rules) (hdirectory : path ++ ['/'] ∉ locations rules)
      (hrule : rule ∈ rules) (hcovers : Covers rule.location path)
      (hlongest : ∀ other ∈ rules, Covers other.location path → other ≠ rule →
        size other.location < size rule.location) : Selects rules path (.forward rule)
  | notFound (hreserved : reserved path = false) (hexact : exactMark ++ path ∉ locations rules)
      (hdirectory : path ++ ['/'] ∉ locations rules)
      (hnone : ∀ rule ∈ rules, ¬Covers rule.location path) : Selects rules path .notFound

/-- What `http` accepts: paths, queries, and the length of both together. -/
structure Grammar where
  path : Text → Prop
  query : Text → Prop
  length : Text → Prop

/-- What is relied on of `http`: it accepts a valid path with a valid query, a valid path is still
valid with a suffix of a valid path behind it, a parsed URI has a valid path, and a URI is made of a
scheme, an authority and a path. -/
structure Lawful (h : Http) (g : Grammar) : Prop where
  parse : ∀ path query, g.path path → (∀ q ∈ query, g.query q) → g.length (withQuery path query) →
    h.pathAndQuery (withQuery path query) = some ⟨path, query⟩
  append : ∀ base location rest, g.path base → g.path (location ++ rest) → g.path (base ++ rest)
  upstream : ∀ text parts p, h.uri text = some parts → parts.pathAndQuery = some p → g.path p.path
  assemble : ∀ scheme authority p, h.fromParts ⟨some scheme, some authority, some p⟩ =
    some ⟨some scheme, some authority, some p⟩

/-- A port of this host. -/
structure Endpoint (h : Http) (parts : Parts) : Prop where
  scheme : parts.scheme = some (chars "http")
  authority : ∃ authority address, parts.authority = some authority ∧
    h.address authority = some address ∧ address.loopback = true ∧ address.port ≠ 0

/-- Without the marks of a query, of a fragment and of a variable. -/
def Clean (text : Text) : Prop := ∀ c ∈ text, c ≠ '?' ∧ c ≠ '#' ∧ c ≠ '$'

/-- The target is a local one, and its path has been parsed. -/
structure Local (h : Http) (parts : Parts) : Prop extends Endpoint h parts where
  path : ∀ p ∈ parts.pathAndQuery, ∃ text parsed, h.uri text = some parsed ∧
    parsed.pathAndQuery = some p

/-- The path of the request to the target. -/
def rewritten (rule : ProxyLocation) (path : Text) : Text :=
  match rule.proxyPass.pathAndQuery with
  | none => path
  | some base =>
      if rule.location = exactMark ++ path then base.path
      else base.path ++ path.drop rule.location.length

/-- The rules have locations of their own, each with a valid path. -/
structure Accepted (rules : List ProxyLocation) : Prop where
  distinct : (locations rules).Nodup
  valid : ∀ rule ∈ rules, validPath (pathOf rule.location) = true
  free : ∀ rule ∈ rules, reserved (pathOf rule.location) = false

section

variable {h : Http} {rules order : List ProxyLocation} {rule : ProxyLocation} {path location rest : Text}
  {values : List (Text × Text)} {α : Type} {key : α → Nat} {l : List α} {a b : α}

theorem maxByKey_eq_none : maxByKey key l = none ↔ l = [] := by
  cases l with
  | nil => exact iff_of_true rfl rfl
  | cons a l =>
      refine iff_of_false ?_ (List.cons_ne_nil a l)
      rw [maxByKey]
      split
      · exact Option.some_ne_none a
      · split <;> exact Option.some_ne_none _

theorem maxByKey_spec (h : maxByKey key l = some a) : a ∈ l ∧ ∀ b ∈ l, key b ≤ key a := by
  induction l generalizing a with
  | nil => cases h
  | cons c l ih =>
      rw [maxByKey] at h
      split at h
      · rename_i hnone
        cases h
        rw [maxByKey_eq_none.mp hnone]
        simp
      · rename_i d hd
        obtain ⟨hmem, hmax⟩ := ih hd
        split at h
        · rename_i hlt
          cases h
          refine ⟨List.mem_cons_self, List.forall_mem_cons.mpr ⟨Nat.le_refl _, fun b hb => ?_⟩⟩
          exact (hmax b hb).trans hlt.le
        · rename_i hle
          cases h
          exact ⟨List.mem_cons_of_mem _ hmem, List.forall_mem_cons.mpr ⟨Nat.le_of_not_lt hle, hmax⟩⟩

theorem size_append (a b : Text) : size (a ++ b) = size a + size b := by
  rw [size, List.map_append, List.sum_append]
  rfl

theorem size_pos (h : rest ≠ []) : 0 < size rest := by
  cases rest with
  | nil => exact absurd rfl h
  | cons c rest =>
      rw [size, List.map_cons, List.sum_cons]
      have hc := c.utf8Size_pos
      omega

/-- Two locations that cover a path are the same if they are equally long. -/
theorem Covers.eq_of_size {other : Text} (h : Covers location path) (h' : Covers other path)
    (hsize : size other = size location) : other = location := by
  obtain ⟨-, rest, rfl, -⟩ := h
  obtain ⟨-, rest', hpath, -⟩ := h'
  obtain ⟨k, hother, hrest⟩ | ⟨k, hlocation, hrest⟩ := List.append_eq_append_iff.mp hpath
  · have hk : k = [] := by
      by_contra hk
      have hpos := size_pos hk
      rw [hother, size_append] at hsize
      omega
    rw [hother, hk, List.append_nil]
  · have hk : k = [] := by
      by_contra hk
      have hpos := size_pos hk
      rw [hlocation, size_append] at hsize
      omega
    rw [hlocation, hk, List.append_nil]

theorem no_double (h : ¬(path.zip path.tail).contains ('/', '/') = true) (start : Text) :
    path ≠ start ++ ['/', '/'] := by
  rintro rfl
  refine h (List.contains_iff_mem.mpr ?_)
  induction start with
  | nil => exact List.mem_cons_self
  | cons c start ih =>
      have hne : start ++ ['/', '/'] ≠ [] := by simp
      obtain ⟨d, text, htext⟩ := List.exists_cons_of_ne_nil hne
      rw [List.cons_append, List.tail_cons, htext, List.zip_cons_cons]
      rw [htext, List.tail_cons] at ih
      refine List.mem_cons_of_mem _ (ih fun hmem => h ?_)
      rw [List.cons_append, List.tail_cons, htext, List.zip_cons_cons]
      exact List.contains_iff_mem.mpr (List.mem_cons_of_mem _ (List.contains_iff_mem.mp hmem))

theorem pathOf_cases (location : Text) :
    pathOf location = location ∨ location = exactMark ++ pathOf location := by
  rw [pathOf]
  cases hstrip : strip exactMark location with
  | none => exact .inl rfl
  | some rest => exact .inr (strip_eq_some.mp hstrip)

/-- A location ends with at most one slash. -/
theorem single_slash (h : validPath (pathOf location) = true) (start : Text) :
    location ≠ start ++ ['/', '/'] := by
  have hpath : ∀ start, pathOf location ≠ start ++ ['/', '/'] := by
    simp only [validPath, Bool.and_eq_true, Bool.not_eq_true'] at h
    exact no_double (Bool.eq_false_iff.mp h.1.1.1.2)
  rcases pathOf_cases location with hplain | hmarked
  · rw [← hplain]
    exact hpath start
  · rw [hmarked]
    intro heq
    rcases List.append_eq_append_iff.mp heq with ⟨k, hstart, hk⟩ | ⟨k, hmark, hk⟩
    · exact hpath k hk
    · cases k with
      | nil => exact hpath [] hk.symm
      | cons c k =>
          have hslash : c = '/' := (List.cons.inj hk).1.symm
          have hmem : c ∈ exactMark := by
            rw [hmark]
            simp
          rw [hslash] at hmem
          exact absurd hmem (by decide)

theorem trimEnd_eq (h : ∀ start, path ≠ start ++ ['/']) : trimEnd path = path := by
  rw [trimEnd, List.rdropWhile_eq_self_iff]
  intro hne hlast
  refine h path.dropLast ?_
  rw [← eq_of_beq hlast, List.dropLast_concat_getLast]

theorem trimEnd_concat (h : ∀ start, path ≠ start ++ ['/']) : trimEnd (path ++ ['/']) = path := by
  rw [trimEnd, List.rdropWhile_concat_pos _ _ _ rfl]
  exact trimEnd_eq h

/-- Without its slash a location does not end with a slash. -/
theorem not_slash (h : validPath (pathOf (location ++ ['/'])) = true) (start : Text) :
    location ≠ start ++ ['/'] := by
  rintro rfl
  exact single_slash h start (by simp)

theorem redirect_iff (h : validPath (pathOf location) = true) :
    (location.getLast? = some '/' ∧ trimEnd location = path) ↔ location = path ++ ['/'] := by
  constructor
  · rintro ⟨hlast, htrim⟩
    obtain ⟨start, rfl⟩ := List.getLast?_eq_some_iff.mp hlast
    rw [trimEnd_concat (not_slash h)] at htrim
    rw [htrim]
  · rintro rfl
    exact ⟨List.getLast?_concat, trimEnd_concat (not_slash h)⟩

theorem starts_iff {start text : Text} : starts start text = true ↔ ∃ rest, text = start ++ rest := by
  rw [starts, Option.isSome_iff_exists]
  simp only [strip_eq_some]

theorem head_slash {text : Text} : starts ['/'] text = true ↔ text.head? = some '/' := by
  rw [starts_iff, List.head?_eq_some_iff]
  rfl

/-- The matcher finds the locations that cover the path, unless one of them is its directory. -/
theorem proxyMatches_iff {p : Router.ProxyLocation} (h : validPath (pathOf p.location) = true)
    (hpath : path.head? = some '/') (hdirectory : p.location ≠ path ++ ['/']) :
    proxyMatches path p = true ↔ Covers p.location path := by
  simp only [proxyMatches, Bool.and_eq_true, Bool.or_eq_true, beq_iff_eq, head_slash, Covers]
  refine and_congr_right fun hhead => ?_
  by_cases hslash : ∃ start, p.location = start ++ ['/']
  · obtain ⟨start, hstart⟩ := hslash
    rw [hstart] at h hdirectory ⊢
    rw [trimEnd_concat (not_slash h), starts_iff, List.getLast?_concat]
    constructor
    · rintro ((hroot | hequal) | ⟨rest, hrest⟩)
      · obtain ⟨rest, rfl⟩ := List.head?_eq_some_iff.mp hpath
        rw [hroot]
        exact ⟨rest, rfl, .inr (.inl rfl)⟩
      · exact absurd (by rw [hequal]) hdirectory
      · exact ⟨rest, hrest, .inr (.inl rfl)⟩
    · rintro ⟨rest, hrest, -⟩
      exact .inr ⟨rest, hrest⟩
  · have hnot : ∀ start, p.location ≠ start ++ ['/'] := fun start heq => hslash ⟨start, heq⟩
    rw [trimEnd_eq hnot, starts_iff]
    constructor
    · rintro ((hroot | hequal) | ⟨rest, hrest⟩)
      · exact absurd hroot (hnot [])
      · exact ⟨[], by rw [hequal, List.append_nil], .inl rfl⟩
      · exact ⟨'/' :: rest, by rw [hrest, List.append_assoc]; rfl, .inr (.inr rfl)⟩
    · rintro ⟨rest, hrest, rfl | hlast | hfirst⟩
      · rw [List.append_nil] at hrest
        exact .inl (.inr hrest)
      · obtain ⟨start, hstart⟩ := List.getLast?_eq_some_iff.mp hlast
        exact absurd hstart (hnot start)
      · obtain ⟨tail, rfl⟩ := List.head?_eq_some_iff.mp hfirst
        exact .inr ⟨tail, by rw [hrest, List.append_assoc]; rfl⟩

theorem location_inj (h : (locations rules).Nodup) {p q : ProxyLocation} (hp : p ∈ rules)
    (hq : q ∈ rules) (hlocation : p.location = q.location) : p = q :=
  List.inj_on_of_nodup_map h hp hq hlocation

/-- The first rule with a property of its location alone is the rule at that location. -/
theorem find_location {test : ProxyLocation → Bool}
    (htest : ∀ p ∈ rules, test p = true ↔ p.location = location) :
    rules.find? test = none ∧ location ∉ locations rules ∨
      ∃ p ∈ rules, rules.find? test = some p ∧ p.location = location := by
  cases hfind : rules.find? test with
  | none =>
      refine .inl ⟨rfl, fun hmem => ?_⟩
      obtain ⟨p, hp, hlocation⟩ := List.mem_map.mp hmem
      exact List.find?_eq_none.mp hfind p hp ((htest p hp).mpr hlocation)
  | some p =>
      have hp := List.mem_of_find?_eq_some hfind
      exact .inr ⟨p, hp, rfl, (htest p hp).mp (List.find?_some hfind)⟩

theorem choose_selects (ha : Accepted rules) (hpath : path.head? = some '/') :
    Selects rules path (choose rules path) := by
  unfold choose
  split
  · rename_i hreserved
    exact .reserved hreserved
  · rename_i hreserved
    rw [Bool.not_eq_true] at hreserved
    have hexact : ∀ p ∈ rules, (strip exactMark p.location == some path) = true ↔
        p.location = exactMark ++ path := by
      intro p _
      rw [beq_iff_eq, strip_eq_some]
    have hredirect : ∀ p ∈ rules, (p.location.getLast? == some '/' && trimEnd p.location == path) =
        true ↔ p.location = path ++ ['/'] := by
      intro p hp
      rw [Bool.and_eq_true, beq_iff_eq, beq_iff_eq]
      exact redirect_iff (ha.valid p hp)
    dsimp only
    rcases find_location hexact with ⟨hnone, hnotExact⟩ | ⟨p, hp, hfound, hlocation⟩
    · rw [hnone]
      rcases find_location hredirect with ⟨hnone', hnotDirectory⟩ | ⟨p, hp, hfound, hlocation⟩
      · simp only [hnone', Option.isSome_none, Bool.false_eq_true, if_false, Option.orElse_none]
        have hmatches : ∀ p ∈ rules, proxyMatches path p.toProxyLocation = true ↔
            Covers p.location path := fun p hp =>
          proxyMatches_iff (ha.valid p hp) hpath fun heq =>
            hnotDirectory (List.mem_map.mpr ⟨p, hp, heq⟩)
        split
        · rename_i p hmax
          obtain ⟨hmem, hmax⟩ := maxByKey_spec hmax
          obtain ⟨hp, hcovers⟩ := List.mem_filter.mp hmem
          have hcovers := (hmatches p hp).mp hcovers
          refine .longest hreserved hnotExact hnotDirectory hp hcovers fun q hq hq' hne => ?_
          have hle := hmax q (List.mem_filter.mpr ⟨hq, (hmatches q hq).mpr hq'⟩)
          refine lt_of_le_of_ne hle fun hsize => hne ?_
          exact location_inj ha.distinct hq hp (hcovers.eq_of_size hq' hsize)
        · rename_i hmax
          rw [maxByKey_eq_none, List.filter_eq_nil_iff] at hmax
          exact .notFound hreserved hnotExact hnotDirectory fun p hp hcovers =>
            hmax p hp ((hmatches p hp).mpr hcovers)
      · simp only [hfound, Option.isSome_none, Bool.false_eq_true, if_false]
        rw [hlocation]
        exact .redirect hreserved hnotExact (List.mem_map.mpr ⟨p, hp, hlocation⟩)
    · simp only [hfound, Option.isSome_some, if_true, Option.orElse_some]
      exact .exact hreserved hp hlocation

theorem Selects.unique (h : (locations rules).Nodup) {c c' : Choice} (hc : Selects rules path c)
    (hc' : Selects rules path c') : c = c' := by
  have hmem {p : ProxyLocation} (hp : p ∈ rules) (heq : p.location = exactMark ++ path) :
      exactMark ++ path ∈ locations rules :=
    List.mem_map.mpr ⟨p, hp, heq⟩
  cases hc with
  | reserved hreserved => cases hc' <;> simp_all
  | @exact p hreserved hp hexact =>
      cases hc' with
      | reserved hreserved' => simp_all
      | @exact q _ hq hexact' => rw [location_inj h hp hq (hexact.trans hexact'.symm)]
      | redirect _ hnot => exact absurd (hmem hp hexact) hnot
      | longest _ hnot => exact absurd (hmem hp hexact) hnot
      | notFound _ hnot => exact absurd (hmem hp hexact) hnot
  | redirect hreserved hnot hdirectory =>
      cases hc' with
      | reserved hreserved' => simp_all
      | exact _ hq hexact => exact absurd (hmem hq hexact) hnot
      | redirect => rfl
      | longest _ _ hnot' => exact absurd hdirectory hnot'
      | notFound _ _ hnot' => exact absurd hdirectory hnot'
  | @longest p hreserved hnot hnotDirectory hp hcovers hlongest =>
      cases hc' with
      | reserved hreserved' => simp_all
      | exact _ hq hexact => exact absurd (hmem hq hexact) hnot
      | redirect _ _ hdirectory => exact absurd hdirectory hnotDirectory
      | @longest q _ _ _ hq hcovers' hlongest' =>
          by_contra hne
          have hpq : p ≠ q := fun heq => hne (by rw [heq])
          have hlt := hlongest q hq hcovers' (Ne.symm hpq)
          have hlt' := hlongest' p hp hcovers hpq
          omega
      | notFound _ _ _ hnone => exact absurd hcovers (hnone p hp)
  | notFound hreserved hnot hnotDirectory hnone =>
      cases hc' with
      | reserved => rfl
      | exact _ hq hexact => exact absurd (hmem hq hexact) hnot
      | redirect _ _ hdirectory => exact absurd hdirectory hnotDirectory
      | longest _ _ _ hq hcovers => exact absurd hcovers (hnone _ hq)
      | notFound => rfl

theorem endpoint_iff {parts : Parts} : Endpoint h parts ↔ parts.scheme = some (chars "http") ∧
    (parts.authority.bind h.address).all (fun a => !a.loopback || a.port == 0) = false := by
  rw [Option.all_eq_false]
  constructor
  · rintro ⟨hscheme, authority, address, hauthority, haddress, hloopback, hport⟩
    refine ⟨hscheme, address, by rw [hauthority]; exact haddress, ?_⟩
    simp [hloopback, hport]
  · rintro ⟨hscheme, address, haddress, hgood⟩
    obtain ⟨authority, hauthority, haddress⟩ := Option.bind_eq_some_iff.mp haddress
    simp only [Bool.or_eq_false_iff, Bool.not_eq_false', beq_eq_false_iff_ne] at hgood
    exact ⟨hscheme, authority, address, hauthority, haddress, hgood⟩

theorem clean_iff {text : Text} :
    Clean text ↔ text.any (fun c => c == '?' || c == '#' || c == '$') = false := by
  simp only [Clean, List.any_eq_false, Bool.or_eq_true, beq_iff_eq, not_or, and_assoc]

theorem parseUpstream_eq_ok {upstream : Text} {parts : Parts} :
    parseUpstream h upstream = .ok parts ↔ ∃ parsed, h.uri (uriText h upstream) = some parsed ∧
      Endpoint h parsed ∧ Clean upstream ∧
      parts = if pathless h upstream then { parsed with pathAndQuery := none } else parsed := by
  simp only [parseUpstream, bind_eq_ok, orElse_eq_ok, failIf_eq_ok, not_or, not_not,
    Bool.not_eq_true, endpoint_iff, clean_iff, Except.ok.injEq, exists_const]
  constructor
  · rintro ⟨parsed, hparsed, ⟨hscheme, haddress, hclean⟩, rfl⟩
    exact ⟨parsed, hparsed, ⟨hscheme, haddress⟩, hclean, rfl⟩
  · rintro ⟨parsed, hparsed, ⟨hscheme, haddress⟩, hclean, rfl⟩
    exact ⟨parsed, hparsed, ⟨hscheme, haddress, hclean⟩, rfl⟩

theorem parseUpstream_local {upstream : Text} {parts : Parts}
    (hparse : parseUpstream h upstream = .ok parts) : Local h parts := by
  obtain ⟨parsed, hparsed, hendpoint, -, rfl⟩ := parseUpstream_eq_ok.mp hparse
  split
  · exact ⟨⟨hendpoint.scheme, hendpoint.authority⟩, fun p hp => nomatch hp⟩
  · exact ⟨hendpoint, fun p hp => ⟨_, parsed, hparsed, hp⟩⟩

structure Parsed (h : Http) (rules : List ProxyLocation) : Prop extends Accepted rules where
  target : ∀ rule ∈ rules, Local h rule.proxyPass

theorem parsed_nil : Parsed h [] where
  distinct := List.nodup_nil
  valid := List.forall_mem_nil _
  free := List.forall_mem_nil _
  target := List.forall_mem_nil _

theorem parsed_concat {value : Text × Text} (hrules : Parsed h rules)
    (hrule : parseProxy h (locations rules) value = .ok rule) : Parsed h (rules ++ [rule]) := by
  obtain ⟨_, hcheck, hrule⟩ := bind_eq_ok.mp hrule
  obtain ⟨parts, hparts, hrule⟩ := bind_eq_ok.mp hrule
  cases hrule
  simp only [failIf_eq_ok, not_or, Bool.not_eq_false, Bool.not_eq_true] at hcheck
  obtain ⟨hvalid, hfresh, hfree⟩ := hcheck
  refine ⟨⟨?_, ?_, ?_⟩, ?_⟩
  · rw [locations, List.map_append, List.nodup_append_comm, List.map_singleton, List.singleton_append,
      List.nodup_cons]
    exact ⟨hfresh, hrules.distinct⟩
  · exact List.forall_mem_append.mpr ⟨hrules.valid, List.forall_mem_singleton.mpr hvalid⟩
  · exact List.forall_mem_append.mpr ⟨hrules.free, List.forall_mem_singleton.mpr hfree⟩
  · exact List.forall_mem_append.mpr ⟨hrules.target,
      List.forall_mem_singleton.mpr (parseUpstream_local hparts)⟩

theorem Parsed.perm (hrules : Parsed h rules) (hperm : order.Perm rules) : Parsed h order where
  distinct := (hperm.map _).nodup_iff.mpr hrules.distinct
  valid p hp := hrules.valid p (hperm.mem_iff.mp hp)
  free p hp := hrules.free p (hperm.mem_iff.mp hp)
  target p hp := hrules.target p (hperm.mem_iff.mp hp)

theorem parseProxies_parsed (hparse : parseProxies h values = .ok rules) : Parsed h rules := by
  obtain ⟨read, hread, hparse⟩ := bind_eq_ok.mp hparse
  cases hparse
  refine Parsed.perm (foldlM_invariant hread parsed_nil ?_) (List.perm_insertionSort _ _)
  intro value _ rules rules' hrules hstep
  obtain ⟨rule, hrule, hstep⟩ := bind_eq_ok.mp hstep
  cases hstep
  exact parsed_concat hrules hrule

/-- A row that gives a rule, whatever the other rows are. -/
structure Sound (h : Http) (value : Text × Text) : Prop where
  valid : validPath (pathOf value.1) = true
  free : reserved (pathOf value.1) = false
  upstream : ∃ parts, parseUpstream h value.2 = .ok parts

/-- The rule of a row. -/
def Gives (h : Http) (value : Text × Text) (rule : ProxyLocation) : Prop :=
  rule.location = value.1 ∧ parseUpstream h value.2 = .ok rule.proxyPass

theorem parseProxy_eq_ok {seen : List Text} {value : Text × Text} :
    parseProxy h seen value = .ok rule ↔
      Sound h value ∧ value.1 ∉ seen ∧ Gives h value rule := by
  simp only [parseProxy, bind_eq_ok, failIf_eq_ok, not_or, Bool.not_eq_false, Bool.not_eq_true]
  constructor
  · rintro ⟨_, ⟨hvalid, hfresh, hfree⟩, parts, hparts, hrule⟩
    cases hrule
    exact ⟨⟨hvalid, hfree, parts, hparts⟩, hfresh, rfl, hparts⟩
  · rintro ⟨hsound, hfresh, hlocation, hparts⟩
    obtain ⟨⟨location⟩, proxyPass⟩ := rule
    cases hlocation
    exact ⟨(), ⟨hsound.valid, hfresh, hsound.free⟩, proxyPass, hparts, rfl⟩

theorem addProxies_spec (hread : values.foldlM (addProxy h) order = .ok rules) :
    ∃ added, rules = order ++ added ∧
      List.Forall₂ (fun value rule => Sound h value ∧ Gives h value rule) values added := by
  induction values generalizing order with
  | nil =>
      cases hread
      exact ⟨[], (List.append_nil _).symm, .nil⟩
  | cons value values ih =>
      rw [List.foldlM_cons] at hread
      obtain ⟨next, hnext, hread⟩ := bind_eq_ok.mp hread
      obtain ⟨rule, hrule, hnext⟩ := bind_eq_ok.mp hnext
      cases hnext
      obtain ⟨hsound, -, hgives⟩ := parseProxy_eq_ok.mp hrule
      obtain ⟨added, hadded, hall⟩ := ih hread
      refine ⟨rule :: added, ?_, .cons ⟨hsound, hgives⟩ hall⟩
      rw [hadded, List.append_assoc]
      rfl

theorem addProxies_ok (hsound : ∀ value ∈ values, Sound h value)
    (hnodup : (locations order ++ values.map Prod.fst).Nodup) :
    ∃ rules, values.foldlM (addProxy h) order = .ok rules := by
  induction values generalizing order with
  | nil => exact ⟨order, rfl⟩
  | cons value values ih =>
      obtain ⟨hvalue, hrest⟩ := List.forall_mem_cons.mp hsound
      obtain ⟨parts, hparts⟩ := hvalue.upstream
      have hfresh : value.1 ∉ locations order := by
        intro hmem
        exact (List.nodup_append.mp hnodup).2.2 _ hmem value.1 (by simp) rfl
      have hrule : parseProxy h (locations order) value = .ok ⟨⟨value.1⟩, parts⟩ :=
        parseProxy_eq_ok.mpr ⟨hvalue, hfresh, rfl, hparts⟩
      have hnext : (locations (order ++ [⟨⟨value.1⟩, parts⟩]) ++ values.map Prod.fst).Nodup := by
        rw [locations, List.map_append, List.append_assoc]
        exact hnodup
      obtain ⟨rules, hrules⟩ := ih hrest hnext
      refine ⟨rules, ?_⟩
      rw [List.foldlM_cons, addProxy, hrule, ok_bind, ok_bind, hrules]

theorem exists_right {β : Type} {R : α → β → Prop} {l : List α} {l' : List β}
    (hall : List.Forall₂ R l l') {a : α} (ha : a ∈ l) : ∃ b ∈ l', R a b := by
  induction hall with
  | nil => cases ha
  | cons hab _ ih =>
      rcases List.mem_cons.mp ha with rfl | ha
      · exact ⟨_, List.mem_cons_self, hab⟩
      · obtain ⟨b, hb, hab⟩ := ih ha
        exact ⟨b, List.mem_cons_of_mem _ hb, hab⟩

theorem Gives.unique {value : Text × Text} {other : ProxyLocation} (hrule : Gives h value rule)
    (hother : Gives h value other) : rule = other := by
  obtain ⟨⟨location⟩, parts⟩ := rule
  obtain ⟨⟨location'⟩, parts'⟩ := other
  obtain ⟨hlocation, hparts⟩ := hrule
  obtain ⟨hlocation', hparts'⟩ := hother
  cases hlocation
  cases hlocation'
  rw [hparts] at hparts'
  cases hparts'
  rfl

/-- A list of rows is accepted if each row is, and no location comes twice. -/
theorem parseProxies_isOk : (∃ rules, parseProxies h values = .ok rules) ↔
    (values.map Prod.fst).Nodup ∧ ∀ value ∈ values, Sound h value := by
  constructor
  · rintro ⟨rules, hparse⟩
    have hdistinct := (parseProxies_parsed hparse).distinct
    obtain ⟨read, hread, hparse⟩ := bind_eq_ok.mp hparse
    cases hparse
    obtain ⟨added, rfl, hall⟩ := addProxies_spec hread
    rw [locations, ((List.perm_insertionSort sooner read).map _).nodup_iff] at hdistinct
    have hsame : values.map Prod.fst = read.map fun rule => rule.location := by
      rw [← List.forall₂_eq_eq_eq, List.forall₂_map_left_iff, List.forall₂_map_right_iff]
      exact hall.imp fun value rule h => h.2.1.symm
    refine ⟨hsame ▸ hdistinct, fun value hvalue => ?_⟩
    obtain ⟨rule, -, hsound, -⟩ := exists_right hall hvalue
    exact hsound
  · rintro ⟨hnodup, hsound⟩
    have hstart : (locations [] ++ values.map Prod.fst).Nodup := hnodup
    obtain ⟨rules, hrules⟩ := addProxies_ok hsound hstart
    exact ⟨_, by rw [parseProxies, hrules, ok_bind]⟩

theorem mem_parseProxies (hparse : parseProxies h values = .ok rules) :
    rule ∈ rules ↔ ∃ value ∈ values, Gives h value rule := by
  obtain ⟨read, hread, hparse⟩ := bind_eq_ok.mp hparse
  cases hparse
  obtain ⟨added, rfl, hall⟩ := addProxies_spec hread
  rw [(List.perm_insertionSort sooner read).mem_iff]
  constructor
  · intro hmem
    obtain ⟨value, hvalue, -, hgives⟩ := exists_right hall.flip hmem
    exact ⟨value, hvalue, hgives⟩
  · rintro ⟨value, hvalue, hgives⟩
    obtain ⟨other, hother, -, hgives'⟩ := exists_right hall hvalue
    rw [hgives.unique hgives']
    exact hother

theorem Selects.perm (hperm : order.Perm rules) {c : Choice} (hc : Selects order path c) :
    Selects rules path c := by
  have hlocations : (locations order).Perm (locations rules) := hperm.map _
  have hnot {location : Text} (hlocation : location ∉ locations order) : location ∉ locations rules :=
    fun hmem => hlocation (hlocations.mem_iff.mpr hmem)
  cases hc with
  | reserved hreserved => exact .reserved hreserved
  | exact hreserved hrule hexact => exact .exact hreserved (hperm.mem_iff.mp hrule) hexact
  | redirect hreserved hexact hdirectory =>
      exact .redirect hreserved (hnot hexact) (hlocations.mem_iff.mp hdirectory)
  | longest hreserved hexact hdirectory hrule hcovers hlongest =>
      exact .longest hreserved (hnot hexact) (hnot hdirectory) (hperm.mem_iff.mp hrule) hcovers
        fun other hother => hlongest other (hperm.mem_iff.mpr hother)
  | notFound hreserved hexact hdirectory hnone =>
      exact .notFound hreserved (hnot hexact) (hnot hdirectory) fun p hp => hnone p (hperm.mem_iff.mpr hp)

theorem choose_iff (ha : Accepted rules) (hperm : order.Perm rules) (ha' : Accepted order)
    (hpath : path.head? = some '/') {c : Choice} : Selects rules path c ↔ c = choose order path := by
  have hchosen := (choose_selects ha' hpath).perm hperm
  constructor
  · intro hc
    exact hc.unique ha.distinct hchosen
  · rintro rfl
    exact hchosen

/-- A rule is chosen for the path that it marks as exact or for a path that it covers. -/
theorem forward_spec (hc : Selects rules path (.forward rule)) : reserved path = false ∧
    rule ∈ rules ∧ (rule.location = exactMark ++ path ∨ Covers rule.location path) := by
  cases hc with
  | exact hreserved hrule hexact => exact ⟨hreserved, hrule, .inl hexact⟩
  | longest hreserved _ _ hrule hcovers _ => exact ⟨hreserved, hrule, .inr hcovers⟩

theorem Covers.not_exact (hcovers : Covers location path) : starts exactMark location = false := by
  obtain ⟨rest, rfl⟩ := List.head?_eq_some_iff.mp hcovers.1
  rfl

theorem rewritten_covers {base : PathAndQuery} (hbase : rule.proxyPass.pathAndQuery = some base)
    (hcovers : Covers rule.location path) (hrest : path = rule.location ++ rest) :
    rewritten rule path = base.path ++ rest := by
  have hnot : rule.location ≠ exactMark ++ path := by
    intro heq
    have hstarts : starts exactMark rule.location = true := starts_iff.mpr ⟨path, heq⟩
    rw [hcovers.not_exact] at hstarts
    cases hstarts
  simp only [rewritten, hbase]
  rw [if_neg hnot, hrest, List.drop_left]

/-- The path behind a rule of its own is a valid one. -/
theorem proxyUri_ok {g : Grammar} (hlawful : Lawful h g) (htarget : Local h rule.proxyPass)
    {uri : PathAndQuery} (hpath : g.path uri.path) (hquery : ∀ q ∈ uri.query, g.query q)
    (hrule : rule.location = exactMark ++ uri.path ∨ Covers rule.location uri.path)
    (hlength : g.length (withQuery (rewritten rule uri.path) uri.query)) :
    proxyUri h rule uri = .ok ⟨rule.proxyPass.scheme, rule.proxyPass.authority,
      some ⟨rewritten rule uri.path, uri.query⟩⟩ := by
  obtain ⟨authority, -, hauthority, -⟩ := htarget.authority
  have hassemble : ∀ p, h.fromParts ⟨rule.proxyPass.scheme, rule.proxyPass.authority, some p⟩ =
      some ⟨rule.proxyPass.scheme, rule.proxyPass.authority, some p⟩ := by
    intro p
    rw [htarget.scheme, hauthority]
    exact hlawful.assemble _ _ p
  have hrewritten : ∀ path, rewritten rule uri.path = path → g.path path →
      (do
        let path ← orElse (h.pathAndQuery (withQuery path uri.query))
          (.badRequest "invalid upstream path")
        orElse (h.fromParts ⟨rule.proxyPass.scheme, rule.proxyPass.authority, some path⟩)
          (.badRequest "invalid upstream URI")) =
        Except.ok ⟨rule.proxyPass.scheme, rule.proxyPass.authority,
          some ⟨rewritten rule uri.path, uri.query⟩⟩ := by
    rintro _ rfl hvalid
    rw [hlawful.parse _ _ hvalid hquery hlength, orElse, ok_bind, hassemble, orElse]
  cases hbase : rule.proxyPass.pathAndQuery with
  | none =>
      have hsame : rewritten rule uri.path = uri.path := by simp only [rewritten, hbase]
      simp only [proxyUri, hbase, ok_bind]
      exact hrewritten _ hsame hpath
  | some base =>
      obtain ⟨text, parsed, hparsed, hfound⟩ := htarget.path base hbase
      have hvalid := hlawful.upstream text parsed base hparsed hfound
      rcases hrule with hexact | hcovers
      · have hmarked : starts exactMark rule.location = true := starts_iff.mpr ⟨uri.path, hexact⟩
        have hsame : rewritten rule uri.path = base.path ++ [] := by
          simp only [rewritten, hbase]
          rw [if_pos hexact, List.append_nil]
        simp only [proxyUri, hbase, hmarked, if_true, ok_bind]
        refine hrewritten _ hsame ?_
        rwa [List.append_nil]
      · obtain ⟨-, rest, hrest, -⟩ := id hcovers
        have hstrip : strip rule.location uri.path = some rest := strip_eq_some.mpr hrest
        simp only [proxyUri, hbase, hcovers.not_exact, Bool.false_eq_true, if_false, hstrip, orElse,
          ok_bind]
        refine hrewritten _ (rewritten_covers hbase hcovers hrest) ?_
        exact hlawful.append _ _ _ hvalid (hrest ▸ hpath)

theorem size_lt_iff {other : Text} (hcovers : Covers location path) (hcovers' : Covers other path) :
    size other < size location ↔ other.length < location.length := by
  obtain ⟨-, rest, rfl, -⟩ := hcovers
  obtain ⟨-, rest', hpath, -⟩ := hcovers'
  rcases List.append_eq_append_iff.mp hpath with ⟨k, rfl, -⟩ | ⟨k, rfl, -⟩
  · rw [size_append, List.length_append]
    exact iff_of_false (by omega) (by omega)
  · rw [size_append, List.length_append]
    cases k with
    | nil => exact iff_of_false (Nat.lt_irrefl _) (Nat.lt_irrefl _)
    | cons c k =>
        have hpos : 0 < size (c :: k) := size_pos (List.cons_ne_nil c k)
        exact iff_of_true (by omega) (by rw [List.length_cons]; omega)

theorem longest_eq (hcovers : ∀ p ∈ rules, Covers p.location path) :
    longest (rules.map ProxyLocation.toProxyLocation) =
      (maxByKey (fun p => size p.location) rules).map ProxyLocation.toProxyLocation := by
  induction rules with
  | nil => rfl
  | cons p rules ih =>
      obtain ⟨hp, hrest⟩ := List.forall_mem_cons.mp hcovers
      rw [List.map_cons, longest, ih hrest, maxByKey]
      cases hmax : maxByKey (fun p => size p.location) rules with
      | none => rfl
      | some q =>
          have hq := hrest q (maxByKey_spec hmax).1
          have hiff := size_lt_iff hp hq
          simp only [Option.map_some]
          by_cases hlt : q.location.length < p.location.length
          · rw [if_pos hlt, if_pos (hiff.mpr hlt), Option.map_some]
          · rw [if_neg hlt, if_neg fun hsize => hlt (hiff.mp hsize), Option.map_some]

/-- What the router answers with a choice. -/
def answerOf (s : Server) (request : Authorization.Request) : Choice → Reply
  | .notFound => reply .none routeNotFound []
  | .redirect location =>
      reply .none 301 [("location", String.ofList (withQuery location request.uri.query))]
  | .forward rule => s.answer (.proxy rule.location) request

/-- The router does what the rules say. -/
theorem proxyPass_choose {s : Server} {request : Authorization.Request} (ha : Accepted rules)
    (hproxies : s.proxies = rules.map ProxyLocation.toProxyLocation)
    (hpath : request.uri.pathText.head? = some '/') :
    proxyPass s request = answerOf s request (choose rules request.uri.pathText) := by
  have hredirect : ∀ p ∈ rules, (p.location.getLast? == some '/' &&
      trimEnd p.location == request.uri.pathText) = true ↔
        p.location = request.uri.pathText ++ ['/'] := by
    intro p hp
    rw [Bool.and_eq_true, beq_iff_eq, beq_iff_eq]
    exact redirect_iff (ha.valid p hp)
  simp only [proxyPass, choose, hproxies, List.find?_map]
  by_cases hreserved : reserved request.uri.pathText = true
  · rw [if_pos hreserved, if_pos hreserved]
    rfl
  · rw [if_neg hreserved, if_neg hreserved]
    cases hexact : rules.find? fun p => strip exactMark p.location == some request.uri.pathText with
    | some p =>
        have hexact' : rules.find? ((fun p : Router.ProxyLocation =>
            strip (chars "= ") p.location == some request.uri.pathText) ∘
              ProxyLocation.toProxyLocation) = some p := hexact
        rw [hexact']
        rfl
    | none =>
        have hexact' : rules.find? ((fun p : Router.ProxyLocation =>
            strip (chars "= ") p.location == some request.uri.pathText) ∘
              ProxyLocation.toProxyLocation) = none := hexact
        simp only [hexact', Option.map_none, Option.isSome_none, Bool.false_eq_true, if_false,
          Option.orElse_none]
        rcases find_location hredirect with ⟨hnone, hnot⟩ | ⟨p, hp, hfound, hlocation⟩
        · have hcovers : ∀ p ∈ rules.filter fun p =>
              proxyMatches request.uri.pathText p.toProxyLocation,
              Covers p.location request.uri.pathText := by
            intro p hp
            obtain ⟨hp, hmatches⟩ := List.mem_filter.mp hp
            exact (proxyMatches_iff (ha.valid p hp) hpath fun heq =>
              hnot (List.mem_map.mpr ⟨p, hp, heq⟩)).mp hmatches
          have hnone' : rules.find? ((fun p : Router.ProxyLocation => p.location.getLast? == some '/' &&
              trimEnd p.location == request.uri.pathText) ∘ ProxyLocation.toProxyLocation) = none :=
            hnone
          rw [hnone', hnone, List.filter_map]
          have hfilter : rules.filter ((fun p : Router.ProxyLocation =>
              proxyMatches request.uri.pathText p) ∘ ProxyLocation.toProxyLocation) =
              rules.filter fun p => proxyMatches request.uri.pathText p.toProxyLocation := rfl
          rw [hfilter, longest_eq hcovers]
          simp only
          cases maxByKey (fun p : ProxyLocation => size p.location) (rules.filter fun p =>
            proxyMatches request.uri.pathText p.toProxyLocation) <;> rfl
        · have hfound' : rules.find? ((fun p : Router.ProxyLocation => p.location.getLast? == some '/' &&
              trimEnd p.location == request.uri.pathText) ∘ ProxyLocation.toProxyLocation) = some p :=
            hfound
          rw [hfound', hfound]
          rfl

end

/-- In whatever order the rules are, a path goes to the rule that is exactly for it, else to its
directory, else to the longest location that covers it; and the target of the rule gets the path
that the rule says. -/
theorem proxy_chosen {h : Http} {g : Grammar} {values : List (Text × Text)}
    {rules order : List ProxyLocation} {uri : PathAndQuery} (hlawful : Lawful h g)
    (hparse : parseProxies h values = .ok rules) (hperm : order.Perm rules)
    (hroot : uri.path.head? = some '/') (hpath : g.path uri.path)
    (hquery : ∀ q ∈ uri.query, g.query q) :
    (∀ choice, Selects rules uri.path choice ↔ choice = choose order uri.path) ∧
    ∀ rule, choose order uri.path = .forward rule → reserved uri.path = false ∧ rule ∈ rules ∧
      (rule.location = exactMark ++ uri.path ∨ Covers rule.location uri.path) ∧
      (g.length (withQuery (rewritten rule uri.path) uri.query) →
        ∃ path, proxyUri h rule uri = .ok ⟨rule.proxyPass.scheme, rule.proxyPass.authority,
          some ⟨path, uri.query⟩⟩ ∧ (rule.proxyPass.pathAndQuery = none → path = uri.path) ∧
          ∀ base, rule.proxyPass.pathAndQuery = some base →
            (rule.location = exactMark ++ uri.path → path = base.path) ∧
            ∀ rest, Covers rule.location uri.path → uri.path = rule.location ++ rest →
              path = base.path ++ rest) := by
  have hparsed := parseProxies_parsed hparse
  have hchoose : ∀ choice, Selects rules uri.path choice ↔ choice = choose order uri.path :=
    fun choice => choose_iff hparsed.toAccepted hperm (hparsed.perm hperm).toAccepted hroot
  refine ⟨hchoose, fun rule hrule => ?_⟩
  obtain ⟨hreserved, hmem, hcases⟩ := forward_spec ((hchoose _).mpr hrule.symm)
  refine ⟨hreserved, hmem, hcases, fun hlength => ?_⟩
  refine ⟨_, proxyUri_ok hlawful (hparsed.target rule hmem) hpath hquery hcases hlength, ?_, ?_⟩
  · intro hbase
    simp only [rewritten, hbase]
  · intro base hbase
    refine ⟨fun hexact => ?_, fun rest hcovers hrest => rewritten_covers hbase hcovers hrest⟩
    simp only [rewritten, hbase]
    rw [if_pos hexact]

/-- Addresses of this host with the port 8080, and URIs without a query. -/
def sampleHttp : Http where
  address text := if text = chars "127.0.0.1:8080" then some ⟨text, true, 8080⟩ else none
  uri text :=
    if text.contains '?' then none
    else (strip (chars "http://") text).map fun rest =>
      ⟨some (chars "http"), some (segment rest),
        some ⟨if afterSegment rest = [] then ['/'] else afterSegment rest, none⟩⟩
  pathAndQuery text :=
    some ⟨text.takeWhile (· != '?'), match text.dropWhile (· != '?') with
      | [] => none
      | _ :: query => some query⟩
  fromParts := some

def sampleGrammar : Grammar where
  path text := '?' ∉ text
  query _ := True
  length _ := True

theorem takeWhile_query {path : Text} (h : '?' ∉ path) (rest : Text) :
    (path ++ '?' :: rest).takeWhile (· != '?') = path ∧
      (path ++ '?' :: rest).dropWhile (· != '?') = '?' :: rest := by
  have hall : ∀ c ∈ path, (c != '?') = true := fun c hc => bne_iff_ne.mpr fun heq => h (heq ▸ hc)
  rw [List.takeWhile_append_of_pos hall, List.dropWhile_append_of_pos hall]
  simp

theorem sampleHttp_lawful : Lawful sampleHttp sampleGrammar where
  parse path query hpath _ _ := by
    cases query with
    | none =>
        have hall : ∀ c ∈ path, (c != '?') = true := fun c hc =>
          bne_iff_ne.mpr fun heq => hpath (heq ▸ hc)
        simp only [withQuery, sampleHttp, List.takeWhile_eq_self_iff.mpr hall,
          List.dropWhile_eq_nil_iff.mpr hall]
    | some query =>
        obtain ⟨htake, hdrop⟩ := takeWhile_query hpath query
        simp only [withQuery, sampleHttp, htake, hdrop]
  append base location rest hbase hpath := by
    intro hmem
    rcases List.mem_append.mp hmem with h | h
    · exact hbase h
    · exact hpath (List.mem_append_right location h)
  upstream text parts p hparts hp := by
    simp only [sampleHttp] at hparts
    split at hparts
    · cases hparts
    · rename_i hclean
      obtain ⟨rest, hrest, rfl⟩ := Option.map_eq_some_iff.mp hparts
      cases hp
      have htext : '?' ∉ text := by simpa using hclean
      rw [strip_eq_some.mp hrest] at htext
      change '?' ∉ if afterSegment rest = [] then ['/'] else afterSegment rest
      split
      · decide
      · intro hmem
        exact htext (List.mem_append_right _ ((List.dropWhile_suffix _).subset hmem))
  assemble _ _ _ := rfl

def sampleValues : List (Text × Text) :=
  [("/shop", "http://127.0.0.1:8080/up"), ("/", "127.0.0.1:8080"), ("/wiki/", "127.0.0.1:8080")].map
    fun value => (chars value.1, chars value.2)

def shopRule : ProxyLocation :=
  ⟨⟨chars "/shop"⟩, ⟨some (chars "http"), some (chars "127.0.0.1:8080"), some ⟨chars "/up", none⟩⟩⟩

def sampleRules : List ProxyLocation :=
  [⟨⟨chars "/"⟩, ⟨some (chars "http"), some (chars "127.0.0.1:8080"), none⟩⟩, shopRule,
    ⟨⟨chars "/wiki/"⟩, ⟨some (chars "http"), some (chars "127.0.0.1:8080"), none⟩⟩]

/-- The list of the shop is asked for below the path of the target. -/
theorem proxy_chosen_shop : ∃ path, proxyUri sampleHttp shopRule ⟨chars "/shop/list", some ['q']⟩ =
    .ok ⟨some (chars "http"), some (chars "127.0.0.1:8080"), some ⟨path, some ['q']⟩⟩ ∧
      path = chars "/up" ++ chars "/list" := by
  have hparse : parseProxies sampleHttp sampleValues = .ok sampleRules := by rfl
  have hchosen : choose sampleRules (chars "/shop/list") = .forward shopRule := by rfl
  have hclean : sampleGrammar.path (PathAndQuery.mk (chars "/shop/list") (some ['q'])).path :=
    show '?' ∉ chars "/shop/list" by decide
  obtain ⟨-, -, hcases, hpath⟩ := (proxy_chosen sampleHttp_lawful hparse (.refl _) rfl hclean
    fun _ _ => trivial).2 shopRule hchosen
  obtain ⟨path, hok, -, hbase⟩ := hpath trivial
  refine ⟨path, hok, (hbase _ rfl).2 (chars "/list") ?_ rfl⟩
  rcases hcases with hexact | hcovers
  · exact absurd hexact (by decide)
  · exact hcovers

end Pishoo.ProxyRules
