import Pishoo.Component
import Pishoo.Machine
import Pishoo.ProxyRules
import Pishoo.Registry

namespace Pishoo.Settings

open Result PathText Publication ProxyRules Machine

/-- What is read of the setting database and of the packages that are attached to it. -/
structure Store where
  version : Int
  listen : Option String
  mounts : List (Text × Text)
  packages : List Package
  primary : (mounts.map Prod.fst).Nodup

structure ServerConfig where
  listen : String
  proxyLocations : List ProxyLocation

def validListen (value : String) : Bool :=
  ["loopback", "internal", "external", "all"].contains value

def inOrder (a b : Text × Text) : Prop := String.ofList a.1 ≤ String.ofList b.1

instance : DecidableRel inOrder := fun a b =>
  inferInstanceAs (Decidable (String.ofList a.1 ≤ String.ofList b.1))

def readConfig (h : Http) (d : Store) : Except Error ServerConfig := do
  failIf (d.version ≠ 3) (.invalidConfig (s!"unsupported schema {d.version}; " ++
    "reinitialize the identity service (existing data preserved)"))
  let listen := d.listen.getD "off"
  failIf (listen ≠ "off" ∧ validListen listen = false) (.invalidConfig "invalid listen mode")
  failIf (listen = "off" ∧ d.listen.isSome = true)
    (.invalidConfig "disabled listening must have no KV record")
  let proxyLocations ← parseProxies h (d.mounts.insertionSort inOrder)
  .ok { listen, proxyLocations }

def appMount (name : String) : Text := chars "/app/" ++ chars name

def libMount (name : String) : Text := '/' :: chars name

/-- The location, exact or not, is the mount or lies below it. -/
def occupies (mount location : Text) : Bool :=
  pathOf location == mount || starts (mount ++ ['/']) (pathOf location)

def checkMount (kind : String) (mount : String → Text) (proxies : List ProxyLocation)
    (name : String) : Except Error Unit :=
  match proxies.find? fun p => occupies (mount name) p.location with
  | none => .ok ()
  | some p => .error (.invalidConfig ("proxy " ++ String.ofList p.location ++
      " conflicts with installed " ++ kind ++ " " ++ String.ofList (mount name)))

/-- The names of some packages, `ORDER BY name`. -/
def namesOf (packages : List Package) (test : Package → Bool) : List String :=
  ((packages.filter test).map Package.name).insertionSort (· ≤ ·)

/-- The packages whose libs are mounted at their own names. -/
def ordinary (p : Package) : Bool := p.hasLib && !p.author.any isStandardAuthor

def checkProxyMounts (d : Store) (proxies : List ProxyLocation) : Except Error Unit := do
  failIf (proxies.any (fun p => reserved (pathOf p.location)) = true)
    (.invalidConfig "proxy cannot occupy /std")
  (namesOf d.packages Package.hasApp).forM (checkMount "App" appMount proxies)
  (namesOf d.packages ordinary).forM (checkMount "Lib" libMount proxies)

def readServerConfig (h : Http) (d : Store) : Except Error ServerConfig := do
  let config ← readConfig h d
  checkProxyMounts d config.proxyLocations
  .ok config

def upgradeSettings (h : Http) (d : Store) : Except Error Unit := do
  let config ← readConfig h d
  checkProxyMounts d config.proxyLocations

/-- `Display` of an error. -/
def display : Error → String
  | .badRequest message => message
  | .invalidConfig message => message
  | .invalidComponent message => message
  | .packagePolicy code _ => code
  | .signingStatusUnavailable => "signing_status_unavailable"
  | .routeNotFound => "route not found"
  | .denied => "permission denied"
  | .io message => "I/O: " ++ message
  | .invalidInput message => "I/O: " ++ message
  | .configDatabase message => "configuration database: " ++ message
  | .methodNotAllowed => "method not allowed"

def upstreamText (parts : Parts) : Text :=
  parts.scheme.getD [] ++ schemeMark ++ parts.authority.getD [] ++
    (parts.pathAndQuery.map PathAndQuery.text).getD []

def readRule (value : Json) : Except Error (Text × Text) := do
  let fields ← orElse ((Component.fieldsOf value).filter fun fields => fields.length == 2)
    (.badRequest "invalid proxy fields")
  let location ← orElse ((fields.lookup "location").bind Json.asStr)
    (.badRequest "proxy location must be a string")
  let upstream ← orElse ((fields.lookup "proxy_pass").bind Json.asStr)
    (.badRequest "proxy_pass must be a string")
  .ok (chars location, chars upstream)

def parseProxyJson (h : Http) (payload : Json) : Except Error (List ProxyLocation) := do
  let values ← orElse (asArr payload) (.badRequest "mount requires an array")
  let values ← values.mapM readRule
  (parseProxies h values).mapError fun error => .badRequest (display error)

def patchModes : List String := ["internal", "external", "all", "off"]

/-- The mode of a patch of the listening. -/
def validateListenPatch (payload : Json) : Except Error Unit := do
  let fields ← orElse ((Component.fieldsOf payload).filter fun fields => fields.length == 1)
    (.badRequest "listen PATCH requires exactly one listen field")
  fields.forM fun field => failIf ((field.1 == "listen" &&
    field.2.asStr.any patchModes.contains) = false) (.badRequest ("invalid listen field: " ++ field.1))

/-- The first rule of a request that names one. -/
def onlyRule (h : Http) (value : Json) : Except Error ProxyLocation := do
  let rules ← parseProxyJson h (.arr [value])
  match rules with
  | rule :: _ => .ok rule
  | [] => .error (.badRequest "mount requires an array")

def listenPath : Text := chars "/std/sys/listen"

def mountPath : Text := chars "/std/sys/mount"

/-- A request to the settings. The query is given as its pairs. -/
structure Request where
  method : Authorization.Method
  path : Text
  query : Option (List (String × String))
  payload : Option Json

/-- What a request asks for. -/
inductive Action
  | read
  | listen (mode : String)
  | unlisten
  | mount (rule : ProxyLocation)
  | unmount (rule : ProxyLocation)

def readDeletion (h : Http) (r : Request) : Except Error (Option ProxyLocation) :=
  match r.query with
  | none => .ok none
  | some params => do
      failIf (r.path ≠ mountPath ∨ r.method ≠ .delete) (.badRequest "unsupported query parameters")
      failIf (params.length ≠ 2 ∨ (params.filter (·.1 == "location")).length ≠ 1 ∨
          (params.filter (·.1 == "proxy_pass")).length ≠ 1)
        (.badRequest "unmount requires exactly location and proxy_pass")
      let rule ← onlyRule h (.obj [("location", .str ((params.lookup "location").getD "")),
        ("proxy_pass", .str ((params.lookup "proxy_pass").getD ""))])
      .ok (some rule)

/-- The checks of a request before the database is opened. -/
def examine (h : Http) (r : Request) : Except Error Action := do
  failIf (r.path ≠ listenPath ∧ r.path ≠ mountPath) .routeNotFound
  let deletion ← readDeletion h r
  failIf (r.path = mountPath ∧ r.method = .delete ∧ deletion.isNone = true)
    (.badRequest "unmount requires location and proxy_pass")
  match r.method with
  | .get => do
      failIf (r.payload.isSome = true) (.badRequest "GET does not accept a body")
      .ok .read
  | .patch => do
      let payload ← orElse r.payload (.badRequest "missing configuration")
      if r.path = listenPath then do
        validateListenPatch payload
        .ok (.listen ((payload.get "listen").asStr.getD ""))
      else do
        let rule ← onlyRule h payload
        .ok (.mount rule)
  | .delete =>
      if r.payload.isSome then .error .methodNotAllowed
      else .ok ((deletion.map Action.unmount).getD .unlisten)
  | _ => .error .methodNotAllowed

theorem nodup_unmount {mounts : List (Text × Text)} (h : (mounts.map Prod.fst).Nodup)
    (location : Text) : ((mounts.filter fun row => row.1 != location).map Prod.fst).Nodup :=
  h.sublist (List.filter_sublist.map _)

def Store.unmount (d : Store) (location : Text) : Store :=
  { d with
    mounts := d.mounts.filter fun row => row.1 != location
    primary := nodup_unmount d.primary location }

def Store.mount (d : Store) (location upstream : Text) : Store :=
  { d with
    mounts := (d.unmount location).mounts ++ [(location, upstream)]
    primary := by
      rw [List.map_append, List.nodup_append_comm, List.map_singleton, List.singleton_append,
        List.nodup_cons]
      refine ⟨fun hmem => ?_, (d.unmount location).primary⟩
      obtain ⟨row, hrow, hlocation⟩ := List.mem_map.mp hmem
      exact bne_iff_ne.mp (List.mem_filter.mp hrow).2 hlocation }

/-- The statements of the transaction. -/
def change (h : Http) (d : Store) : Action → Except Error Store
  | .read => .ok d
  | .listen mode => .ok { d with listen := if mode = "off" then none else some mode }
  | .unlisten => .ok { d with listen := none }
  | .mount rule => .ok (d.mount rule.location (upstreamText rule.proxyPass))
  | .unmount rule => do
      let current ← readConfig h d
      match current.proxyLocations.find? fun existing => existing.location == rule.location with
      | none => .ok d
      | some existing => do
          failIf (upstreamText existing.proxyPass ≠ upstreamText rule.proxyPass)
            (.invalidInput "mount upstream changed")
          .ok (d.unmount rule.location)

/-- What the file system and SQLite answer during a request. -/
structure Environment where
  prepare : Except Error Unit
  openConfig : Except Error Unit
  execute : Except Error Unit
  commit : Except Error Unit
  inheritFiles : Except Error Unit

def transaction (h : Http) (env : Environment) (d : Store) (action : Action) :
    Except Error (ServerConfig × Store) := do
  env.prepare
  env.openConfig
  upgradeSettings h d
  let d' ← change h d action
  env.execute
  let config ← readConfig h d'
  checkProxyMounts d' config.proxyLocations
  env.commit
  .ok (config, d')

def forward (p : ProxyLocation) : Json :=
  .obj [("location", .str (String.ofList p.location)),
    ("proxy_pass", .str (String.ofList (upstreamText p.proxyPass)))]

def answer (r : Request) (config : ServerConfig) : Json :=
  if r.method = .delete then .null
  else if r.path = listenPath then .obj [("listen", .str config.listen)]
  else .arr (config.proxyLocations.map forward)

/-- The answer to a request, and the database after it. The files are inherited after the commit. -/
def configDatabase (h : Http) (env : Environment) (d : Store) (r : Request) :
    Except Error Json × Store :=
  match examine h r with
  | .error e => (.error e, d)
  | .ok .read => (do
      env.openConfig
      let config ← readServerConfig h d
      .ok (answer r config), d)
  | .ok action => match transaction h env d action with
    | .error e => (.error e, d)
    | .ok (config, d') => (env.inheritFiles.map fun _ => answer r config, d')

/-- Nothing fails. -/
def Environment.healthy : Environment := ⟨.ok (), .ok (), .ok (), .ok (), .ok ()⟩

/-- The rules as a map. -/
def stored (h : Http) (d : Store) (location : Text) : Option Parts :=
  (d.mounts.lookup location).bind fun upstream => (parseUpstream h upstream).toOption

def Valid (h : Http) (d : Store) : Prop := ∃ config, readServerConfig h d = .ok config

/-- What is relied on of `http` and `std`: what is printed of a URI is parsed as the same URI, and
neither a printed address nor the parts of a URI have characters that were not there. -/
structure Prints (h : Http) : Prop where
  plain : ∀ text address, h.address text = some address → '/' ∉ text
  printed : ∀ text address, h.address text = some address → Clean address.text
  authority : ∀ text parts authority, h.uri text = some parts → parts.authority = some authority →
    '/' ∉ authority ∧ ∀ c ∈ authority, c ∈ text
  path : ∀ text parts p, h.uri text = some parts → parts.pathAndQuery = some p →
    p.path.head? = some '/' ∧ ∀ c ∈ p.text, c = '/' ∨ c ∈ text
  reparsed : ∀ text parts scheme authority, h.uri text = some parts → parts.scheme = some scheme →
    parts.authority = some authority →
      (∃ path, h.uri (scheme ++ schemeMark ++ authority) = some ⟨some scheme, some authority, path⟩) ∧
      ∀ p, parts.pathAndQuery = some p → h.uri (scheme ++ schemeMark ++ authority ++ p.text) =
        some ⟨some scheme, some authority, some p⟩

/-- The row that a deletion names. -/
def named (params : List (String × String)) : Text × Text :=
  (chars ((params.lookup "location").getD ""), chars ((params.lookup "proxy_pass").getD ""))

/-- What one request does to the map of the rules. -/
structure MapStep (h : Http) (env : Environment) (r : Request) (d d' : Store)
    (reply : Except Error Json) : Prop where
  patched : r.method = .patch → r.path = mountPath → ∀ value, reply = .ok value →
    ∃ payload location upstream parts, r.payload = some payload ∧
      readRule payload = .ok (location, upstream) ∧ parseUpstream h upstream = .ok parts ∧
      stored h d' = Function.update (stored h d) location (some parts)
  deleted : r.method = .delete → r.path = mountPath → ∀ value, reply = .ok value →
    ∃ params parts, r.query = some params ∧ parseUpstream h (named params).2 = .ok parts ∧
      (∀ old, stored h d (named params).1 = some old → upstreamText old = upstreamText parts) ∧
      stored h d' = Function.update (stored h d) (named params).1 none
  refused : env = .healthy → ∀ rule, examine h r = .ok (.unmount rule) →
    ((∃ e, reply = .error e) ↔ ∃ old, stored h d rule.location = some old ∧
      upstreamText old ≠ upstreamText rule.proxyPass)
  listens : r.path = listenPath → d'.mounts = d.mounts
  mounts : r.path = mountPath → d'.listen = d.listen
  read : r.method = .get → d' = d
  listed : r.method = .get → r.path = mountPath → ∀ value, reply = .ok value →
    ∃ rules, value = .arr (rules.map forward) ∧ (locations rules).Nodup ∧
      ∀ rule, rule ∈ rules ↔ stored h d rule.location = some rule.proxyPass
  answered : env = .healthy → r.method = .get → r.path = mountPath → r.query = none →
    r.payload = none → ∃ value, reply = .ok value
  failed : ∀ e, reply = .error e → d' = d

/-- The files can be inherited, if the request is one that does so. -/
def Inherits (_ : Store) (call : Environment × Request) : Prop :=
  call.2.method = .get ∨ call.1.inheritFiles = .ok ()

def step (h : Http) (d : Store) (call : Environment × Request) : Option Store :=
  some (configDatabase h call.1 d call.2).2

section

variable {h : Http} {d d' : Store} {reply : Except Error Json} {env : Environment} {r : Request} {config : ServerConfig}
  {rule : ProxyLocation} {parts : Parts} {location upstream text : Text} {action : Action}
  {proxies : List ProxyLocation}

theorem Clean.append {a b : Text} (ha : Clean a) (hb : Clean b) : Clean (a ++ b) :=
  List.forall_mem_append.mpr ⟨ha, hb⟩

theorem clean_http : Clean (chars "http" ++ schemeMark) := by
  intro c hc
  have hmem : c ∈ ['h', 't', 't', 'p', ':', '/', '/'] := hc
  simp only [List.mem_cons, List.not_mem_nil, or_false] at hmem
  obtain rfl | rfl | rfl | rfl | rfl | rfl | rfl := hmem <;> decide

theorem clean_uriText (hprints : Prints h) (hclean : Clean upstream) : Clean (uriText h upstream) := by
  unfold uriText
  split
  · rename_i address haddress
    have hmark : Clean (chars "http://") := clean_http
    exact Clean.append hmark (hprints.printed _ _ haddress)
  · exact hclean

theorem upstreamText_eq {authority : Text} (hscheme : parts.scheme = some (chars "http"))
    (hauthority : parts.authority = some authority) : upstreamText parts =
      chars "http" ++ schemeMark ++ authority ++
        (parts.pathAndQuery.map PathAndQuery.text).getD [] := by
  rw [upstreamText, hscheme, hauthority]
  rfl

theorem afterFirst_http (rest : Text) :
    afterFirst schemeMark (chars "http" ++ schemeMark ++ rest) = some rest := by
  have h₁ : strip schemeMark ('h' :: 't' :: 't' :: 'p' :: ':' :: '/' :: '/' :: rest) = none := rfl
  have h₂ : strip schemeMark ('t' :: 't' :: 'p' :: ':' :: '/' :: '/' :: rest) = none := rfl
  have h₃ : strip schemeMark ('t' :: 'p' :: ':' :: '/' :: '/' :: rest) = none := rfl
  have h₄ : strip schemeMark ('p' :: ':' :: '/' :: '/' :: rest) = none := rfl
  have h₅ : strip schemeMark (':' :: '/' :: '/' :: rest) = some rest := strip_append
  change afterFirst schemeMark ('h' :: 't' :: 't' :: 'p' :: ':' :: '/' :: '/' :: rest) = some rest
  simp only [afterFirst, h₁, h₂, h₃, h₄, h₅]

/-- What is printed is parsed as the same target. -/
theorem parseUpstream_stable (hprints : Prints h) (hparse : parseUpstream h upstream = .ok parts) :
    parseUpstream h (upstreamText parts) = .ok parts := by
  obtain ⟨parsed, hparsed, hendpoint, hclean, hparts⟩ := parseUpstream_eq_ok.mp hparse
  obtain ⟨authority, address, hauthority, haddress, hgood⟩ := hendpoint.authority
  have hscheme := hendpoint.scheme
  obtain ⟨hslash, hwithin⟩ := hprints.authority _ _ _ hparsed hauthority
  obtain ⟨⟨path, hbare⟩, hpath⟩ := hprints.reparsed _ _ _ _ hparsed hscheme hauthority
  have hcleanText := clean_uriText hprints hclean
  have hcleanAuthority : Clean authority := fun c hc => hcleanText c (hwithin c hc)
  have hcleanStart : Clean (chars "http" ++ schemeMark ++ authority) :=
    Clean.append clean_http hcleanAuthority
  have hendpoint' (path : Option PathAndQuery) :
      ProxyRules.Endpoint h ⟨some (chars "http"), some authority, path⟩ :=
    ⟨rfl, authority, address, rfl, haddress, hgood⟩
  -- the printed text is no address, so it is parsed as a URI
  have hnot (rest : Text) : h.address (chars "http" ++ schemeMark ++ rest) = none := by
    by_contra hsome
    obtain ⟨address, haddress⟩ := Option.ne_none_iff_exists'.mp hsome
    refine hprints.plain _ _ haddress ?_
    exact List.mem_append_left _ (by decide)
  have huri (rest : Text) : uriText h (chars "http" ++ schemeMark ++ rest) =
      chars "http" ++ schemeMark ++ rest := by
    rw [uriText, hnot]
  have hpathless (rest : Text) :
      pathless h (chars "http" ++ schemeMark ++ rest) = !rest.contains '/' := by
    rw [pathless, huri, hnot, afterFirst_http]
    rfl
  have hnone : parseUpstream h (chars "http" ++ schemeMark ++ authority) =
      .ok ⟨some (chars "http"), some authority, none⟩ := by
    refine parseUpstream_eq_ok.mpr ⟨_, (congrArg h.uri (huri authority)).trans hbare,
      hendpoint' path, hcleanStart, ?_⟩
    have hno : authority.contains '/' = false := by
      rw [← Bool.not_eq_true, List.contains_iff_mem]
      exact hslash
    rw [hpathless, hno]
    rfl
  obtain ⟨scheme, authority', path'⟩ := parsed
  cases hscheme
  cases hauthority
  split at hparts
  · rw [hparts, upstreamText_eq rfl rfl, Option.map_none, Option.getD_none, List.append_nil]
    exact hnone
  · cases hparts
    cases path' with
    | none =>
        rw [upstreamText_eq rfl rfl, Option.map_none, Option.getD_none, List.append_nil]
        exact hnone
    | some p =>
        obtain ⟨hhead, hwithin'⟩ := hprints.path _ _ p hparsed rfl
        have hcleanPath : Clean p.text := by
          intro c hc
          rcases hwithin' c hc with rfl | hc
          · decide
          · exact hcleanText c hc
        rw [upstreamText_eq rfl rfl, Option.map_some, Option.getD_some, List.append_assoc]
        refine parseUpstream_eq_ok.mpr ⟨_, (congrArg h.uri (huri _)).trans ?_, hendpoint' (some p), ?_, ?_⟩
        · rw [← List.append_assoc]
          exact hpath p rfl
        · rw [← List.append_assoc]
          exact Clean.append hcleanStart hcleanPath
        · have hyes : (authority ++ p.text).contains '/' = true := by
            rw [List.contains_iff_mem]
            refine List.mem_append_right _ ?_
            obtain ⟨rest, hrest⟩ := List.head?_eq_some_iff.mp hhead
            rw [PathAndQuery.text, hrest]
            cases p.query <;> exact List.mem_cons_self
          rw [hpathless, hyes]
          rfl

theorem forM_eq_ok {α : Type} {f : α → Except Error Unit} {l : List α} {u : Unit} :
    l.forM f = .ok u ↔ ∀ a ∈ l, f a = .ok () := by
  induction l with
  | nil => exact iff_of_true rfl (List.forall_mem_nil _)
  | cons a l ih =>
      change (f a >>= fun _ => l.forM f) = .ok u ↔ _
      rw [bind_eq_ok, List.forall_mem_cons, ← ih]
      exact ⟨fun ⟨_, ha, hl⟩ => ⟨ha, hl⟩, fun ⟨ha, hl⟩ => ⟨(), ha, hl⟩⟩

theorem mem_namesOf {packages : List Package} {test : Package → Bool} {name : String} :
    name ∈ namesOf packages test ↔ ∃ p ∈ packages, test p = true ∧ p.name = name := by
  rw [namesOf, (List.perm_insertionSort _ _).mem_iff, List.mem_map]
  simp only [List.mem_filter, and_assoc]

theorem checkMount_eq_ok {kind name : String} {mount : String → Text} {u : Unit} :
    checkMount kind mount proxies name = .ok u ↔
      ∀ p ∈ proxies, occupies (mount name) p.location = false := by
  rw [checkMount]
  split
  · rename_i hnone
    refine iff_of_true rfl fun p hp => ?_
    exact Bool.eq_false_iff.mpr (List.find?_eq_none.mp hnone p hp)
  · rename_i p hfound
    refine iff_of_false (by rintro ⟨⟩) fun hall => ?_
    have hfree := hall p (List.mem_of_find?_eq_some hfound)
    rw [List.find?_some hfound] at hfree
    cases hfree

/-- The location is neither at the mount of a package nor below it. -/
structure Beside (packages : List Package) (location : Text) : Prop where
  app : ∀ p ∈ packages, p.hasApp = true → occupies (appMount p.name) location = false
  lib : ∀ p ∈ packages, ordinary p = true → occupies (libMount p.name) location = false

theorem checkProxyMounts_eq_ok {u : Unit} : checkProxyMounts d proxies = .ok u ↔
    ∀ p ∈ proxies, reserved (pathOf p.location) = false ∧ Beside d.packages p.location := by
  simp only [checkProxyMounts, bind_eq_ok, failIf_eq_ok, forM_eq_ok, checkMount_eq_ok,
    mem_namesOf, Bool.not_eq_true, List.any_eq_false]
  constructor
  · rintro ⟨_, hfree, _, happ, hlib⟩ p hp
    exact ⟨hfree p hp, fun q hq hhas => happ _ ⟨q, hq, hhas, rfl⟩ p hp,
      fun q hq hhas => hlib _ ⟨q, hq, hhas, rfl⟩ p hp⟩
  · intro hall
    refine ⟨(), fun p hp => (hall p hp).1, (), ?_, ?_⟩
    · rintro _ ⟨q, hq, hhas, rfl⟩ p hp
      exact (hall p hp).2.app q hq hhas
    · rintro _ ⟨q, hq, hhas, rfl⟩ p hp
      exact (hall p hp).2.lib q hq hhas

/-- The mode of listening that is stored, if one is, is a valid one. -/
def ListenValid (d : Store) : Prop := ∀ mode, d.listen = some mode → validListen mode = true

theorem listenValid_iff : ListenValid d ↔
    ¬(d.listen.getD "off" ≠ "off" ∧ validListen (d.listen.getD "off") = false) ∧
      ¬(d.listen.getD "off" = "off" ∧ d.listen.isSome = true) := by
  rw [ListenValid]
  cases d.listen with
  | none => simp
  | some mode =>
      have hoff : validListen "off" = false := by decide
      simp only [Option.some.injEq, Option.getD_some, Option.isSome_some, and_true, forall_eq',
        not_and, Bool.not_eq_false]
      constructor
      · intro hvalid
        refine ⟨fun _ => hvalid, ?_⟩
        rintro rfl
        rw [hoff] at hvalid
        cases hvalid
      · rintro ⟨hvalid, hnot⟩
        exact hvalid hnot

/-- What makes a row a rule beside the packages. -/
structure Fits (h : Http) (packages : List Package) (row : Text × Text) : Prop
    extends Sound h row, Beside packages row.1

theorem rows_perm : (d.mounts.insertionSort inOrder).Perm d.mounts := List.perm_insertionSort _ _

theorem readConfig_eq_ok : readConfig h d = .ok config ↔ d.version = 3 ∧ ListenValid d ∧
    config.listen = d.listen.getD "off" ∧
      parseProxies h (d.mounts.insertionSort inOrder) = .ok config.proxyLocations := by
  simp only [readConfig, bind_eq_ok, failIf_eq_ok, not_not, listenValid_iff]
  constructor
  · rintro ⟨_, hversion, _, hmode, _, hoff, rules, hrules, hconfig⟩
    cases hconfig
    exact ⟨hversion, ⟨hmode, hoff⟩, rfl, hrules⟩
  · rintro ⟨hversion, ⟨hmode, hoff⟩, hlisten, hrules⟩
    obtain ⟨listen, rules⟩ := config
    cases hlisten
    exact ⟨(), hversion, (), hmode, (), hoff, rules, hrules, rfl⟩

theorem mem_rules (hread : readConfig h d = .ok config) :
    rule ∈ config.proxyLocations ↔ ∃ row ∈ d.mounts, Gives h row rule := by
  obtain ⟨-, -, -, hparse⟩ := readConfig_eq_ok.mp hread
  rw [mem_parseProxies hparse]
  simp only [rows_perm.mem_iff]

theorem valid_iff : Valid h d ↔
    d.version = 3 ∧ ListenValid d ∧ ∀ row ∈ d.mounts, Fits h d.packages row := by
  simp only [Valid, readServerConfig, bind_eq_ok]
  constructor
  · rintro ⟨-, config, hread, _, hmounts, -⟩
    obtain ⟨hversion, hlisten, -, hparse⟩ := readConfig_eq_ok.mp hread
    obtain ⟨-, hsound⟩ := parseProxies_isOk.mp ⟨_, hparse⟩
    refine ⟨hversion, hlisten, fun row hrow => ?_⟩
    have hrow' := hsound row (rows_perm.mem_iff.mpr hrow)
    obtain ⟨parts, hparts⟩ := hrow'.upstream
    have hrule : ⟨⟨row.1⟩, parts⟩ ∈ config.proxyLocations := (mem_rules hread).mpr
      ⟨row, hrow, rfl, hparts⟩
    exact ⟨hrow', (checkProxyMounts_eq_ok.mp hmounts _ hrule).2⟩
  · rintro ⟨hversion, hlisten, hrows⟩
    have hnodup : ((d.mounts.insertionSort inOrder).map Prod.fst).Nodup :=
      (rows_perm.map _).nodup_iff.mpr d.primary
    obtain ⟨rules, hparse⟩ := parseProxies_isOk.mpr
      ⟨hnodup, fun row hrow => (hrows row (rows_perm.mem_iff.mp hrow)).toSound⟩
    have hread : readConfig h d = .ok ⟨d.listen.getD "off", rules⟩ :=
      readConfig_eq_ok.mpr ⟨hversion, hlisten, rfl, hparse⟩
    refine ⟨_, _, hread, (), checkProxyMounts_eq_ok.mpr fun p hp => ?_, rfl⟩
    obtain ⟨row, hrow, hlocation, -⟩ := (mem_rules hread).mp hp
    have hfits := hrows row hrow
    rw [hlocation]
    exact ⟨hfits.free, hfits.toBeside⟩

theorem lookup_mounts : d.mounts.lookup location = some upstream ↔ (location, upstream) ∈ d.mounts := by
  constructor
  · intro hlookup
    obtain ⟨before, after, heq, -⟩ := List.lookup_eq_some_iff.mp hlookup
    rw [heq]
    simp
  · exact Json.lookup_of_mem d.primary

theorem stored_eq_some : stored h d location = some parts ↔
    ∃ upstream, (location, upstream) ∈ d.mounts ∧ parseUpstream h upstream = .ok parts := by
  simp only [stored, Option.bind_eq_some_iff, lookup_mounts]
  refine exists_congr fun upstream => and_congr_right fun _ => ?_
  cases parseUpstream h upstream with
  | error e => exact iff_of_false (by rintro ⟨⟩) (by rintro ⟨⟩)
  | ok parts' => rw [Except.toOption, Option.some.injEq, Except.ok.injEq]

/-- The rules that are read are those of the map. -/
theorem mem_rules_stored (hread : readConfig h d = .ok config) :
    rule ∈ config.proxyLocations ↔ stored h d rule.location = some rule.proxyPass := by
  rw [mem_rules hread, stored_eq_some]
  constructor
  · rintro ⟨⟨location, upstream⟩, hrow, rfl, hparse⟩
    exact ⟨upstream, hrow, hparse⟩
  · rintro ⟨upstream, hrow, hparse⟩
    exact ⟨(rule.location, upstream), hrow, rfl, hparse⟩

theorem mem_unmount {row : Text × Text} :
    row ∈ (d.unmount location).mounts ↔ row ∈ d.mounts ∧ row.1 ≠ location := by
  rw [Store.unmount, List.mem_filter, bne_iff_ne]

theorem mem_mount {row : Text × Text} : row ∈ (d.mount location upstream).mounts ↔
    row ∈ d.mounts ∧ row.1 ≠ location ∨ row = (location, upstream) := by
  rw [Store.mount, List.mem_append, mem_unmount, List.mem_singleton]

theorem stored_unmount :
    stored h (d.unmount location) = Function.update (stored h d) location none := by
  funext other
  by_cases hother : other = location
  · rw [hother, Function.update_self, Option.eq_none_iff_forall_not_mem]
    intro parts hparts
    obtain ⟨upstream, hrow, -⟩ := stored_eq_some.mp hparts
    exact (mem_unmount.mp hrow).2 rfl
  · rw [Function.update_of_ne hother]
    ext parts
    simp only [stored_eq_some, mem_unmount]
    exact exists_congr fun upstream => and_congr_left fun _ => and_iff_left hother

theorem stored_mount (hparse : parseUpstream h upstream = .ok parts) :
    stored h (d.mount location upstream) = Function.update (stored h d) location (some parts) := by
  funext other
  by_cases hother : other = location
  · rw [hother, Function.update_self, stored_eq_some]
    exact ⟨upstream, mem_mount.mpr (.inr rfl), hparse⟩
  · rw [Function.update_of_ne hother]
    ext parts
    simp only [stored_eq_some, mem_mount, Prod.mk.injEq, hother, false_and, or_false, ne_eq,
      not_false_eq_true, and_true]

theorem valid_unmount (hvalid : Valid h d) : Valid h (d.unmount location) := by
  obtain ⟨hversion, hlisten, hrows⟩ := valid_iff.mp hvalid
  exact valid_iff.mpr ⟨hversion, hlisten, fun row hrow => hrows row (mem_unmount.mp hrow).1⟩

theorem transaction_eq_ok : transaction h env d action = .ok (config, d') ↔
    env.prepare = .ok () ∧ env.openConfig = .ok () ∧ Valid h d ∧ change h d action = .ok d' ∧
      env.execute = .ok () ∧ readServerConfig h d' = .ok config ∧ env.commit = .ok () := by
  simp only [transaction, upgradeSettings, Valid, readServerConfig, bind_eq_ok]
  constructor
  · rintro ⟨_, hprepare, _, hopen, _, ⟨config', hread, hmounts⟩, d'', hchange, _, hexecute, config'',
      hread', _, hmounts', _, hcommit, hok⟩
    cases hok
    exact ⟨hprepare, hopen, ⟨config', config', hread, (), hmounts, rfl⟩, hchange, hexecute,
      ⟨config, hread', (), hmounts', rfl⟩, hcommit⟩
  · rintro ⟨hprepare, hopen, ⟨-, config', hread, _, hmounts, -⟩, hchange, hexecute,
      ⟨config'', hread', _, hmounts', hsame⟩, hcommit⟩
    cases hsame
    exact ⟨(), hprepare, (), hopen, (), ⟨config', hread, hmounts⟩, d', hchange, (), hexecute,
      config, hread', (), hmounts', (), hcommit, rfl⟩

theorem onlyRule_gives {value : Json} (hrule : onlyRule h value = .ok rule) :
    ∃ row, readRule value = .ok row ∧ Gives h row rule := by
  obtain ⟨rules, hrules, hfirst⟩ := bind_eq_ok.mp hrule
  obtain ⟨values, hvalues, hrules⟩ := bind_eq_ok.mp hrules
  obtain ⟨rows, hrows, hrules⟩ := bind_eq_ok.mp hrules
  have hparse := mapError_eq_ok.mp hrules
  obtain rfl : [value] = values := Option.some.inj (orElse_eq_ok.mp hvalues)
  cases rules with
  | nil => cases hfirst
  | cons first rules =>
      cases hfirst
      obtain ⟨row, hrow, hgives⟩ := (mem_parseProxies hparse).mp List.mem_cons_self
      obtain ⟨value', hvalue', hread⟩ := exists_of_mem_mapM hrows hrow
      rw [List.mem_singleton.mp hvalue'] at hread
      exact ⟨row, hread, hgives⟩

/-- What a request has to say for an action. -/
inductive Asks (h : Http) (r : Request) : Action → Prop
  | read (hmethod : r.method = .get) : Asks h r .read
  | listen {mode : String} (hmethod : r.method = .patch) (hpath : r.path = listenPath) :
      Asks h r (.listen mode)
  | unlisten (hmethod : r.method = .delete) (hpath : r.path = listenPath) : Asks h r .unlisten
  | mount {payload : Json} {row : Text × Text} {rule : ProxyLocation} (hmethod : r.method = .patch)
      (hpath : r.path = mountPath) (hpayload : r.payload = some payload)
      (hread : readRule payload = .ok row) (hgives : Gives h row rule) : Asks h r (.mount rule)
  | unmount {params : List (String × String)} {rule : ProxyLocation} (hmethod : r.method = .delete)
      (hpath : r.path = mountPath) (hquery : r.query = some params)
      (hgives : Gives h (named params) rule) : Asks h r (.unmount rule)

theorem readDeletion_ok {deletion : Option ProxyLocation} (hread : readDeletion h r = .ok deletion) :
    deletion = none ∨ ∃ params rule, deletion = some rule ∧ r.path = mountPath ∧ r.query = some params ∧
      Gives h (named params) rule := by
  rw [readDeletion] at hread
  split at hread
  · cases hread
    exact .inl rfl
  · rename_i params hquery
    obtain ⟨_, hplace, hread⟩ := bind_eq_ok.mp hread
    obtain ⟨_, -, hread⟩ := bind_eq_ok.mp hread
    obtain ⟨rule, hrule, hread⟩ := bind_eq_ok.mp hread
    cases hread
    obtain ⟨row, hrow, hgives⟩ := onlyRule_gives hrule
    rw [failIf_eq_ok, not_or, not_not] at hplace
    cases hrow
    exact .inr ⟨params, rule, rfl, hplace.1, hquery, hgives⟩

theorem examine_asks (hexamine : examine h r = .ok action) : Asks h r action := by
  obtain ⟨_, hpaths, hexamine⟩ := bind_eq_ok.mp hexamine
  obtain ⟨deletion, hdeletion, hexamine⟩ := bind_eq_ok.mp hexamine
  obtain ⟨_, hneeded, hexamine⟩ := bind_eq_ok.mp hexamine
  simp only [failIf_eq_ok, not_and_or, not_not] at hpaths hneeded
  split at hexamine
  · rename_i hmethod
    obtain ⟨_, -, hexamine⟩ := bind_eq_ok.mp hexamine
    cases hexamine
    exact .read hmethod
  · rename_i hmethod
    obtain ⟨payload, hpayload, hexamine⟩ := bind_eq_ok.mp hexamine
    split at hexamine
    · rename_i hpath
      obtain ⟨_, -, hexamine⟩ := bind_eq_ok.mp hexamine
      cases hexamine
      exact .listen hmethod hpath
    · rename_i hpath
      obtain ⟨rule, hrule, hexamine⟩ := bind_eq_ok.mp hexamine
      cases hexamine
      obtain ⟨row, hread, hgives⟩ := onlyRule_gives hrule
      exact .mount hmethod (hpaths.resolve_left hpath) (orElse_eq_ok.mp hpayload) hread hgives
  · rename_i hmethod
    split at hexamine
    · cases hexamine
    · cases hexamine
      obtain rfl | ⟨params, rule, rfl, hpath, hquery, hgives⟩ := readDeletion_ok hdeletion
      · have hpath : r.path ≠ mountPath := by simpa [hmethod] using hneeded
        exact .unlisten hmethod (hpaths.resolve_right hpath)
      · exact .unmount hmethod hpath hquery hgives
  · cases hexamine

theorem find_rule (hread : readConfig h d = .ok config) :
    (config.proxyLocations.find? fun p => p.location == location) =
      (stored h d location).map fun parts => ⟨⟨location⟩, parts⟩ := by
  cases hfind : config.proxyLocations.find? fun p => p.location == location with
  | some p =>
      have hrule := (mem_rules_stored hread).mp (List.mem_of_find?_eq_some hfind)
      have hlocation := List.find?_some hfind
      obtain rfl : p.location = location := eq_of_beq hlocation
      rw [hrule]
      rfl
  | none =>
      cases hstored : stored h d location with
      | none => rfl
      | some parts =>
          have hrule : ⟨⟨location⟩, parts⟩ ∈ config.proxyLocations :=
            (mem_rules_stored hread).mpr hstored
          exact absurd (beq_self_eq_true location) (List.find?_eq_none.mp hfind _ hrule)

/-- A rule is deleted if it is the one that is named. -/
theorem change_unmount (hvalid : Valid h d) : change h d (.unmount rule) =
    match stored h d rule.location with
    | none => .ok d
    | some parts =>
        failIf (upstreamText parts ≠ upstreamText rule.proxyPass)
          (.invalidInput "mount upstream changed") >>= fun _ => .ok (d.unmount rule.location) := by
  obtain ⟨config', hvalid⟩ := hvalid
  obtain ⟨config, hread, -⟩ := bind_eq_ok.mp hvalid
  rw [change, hread, ok_bind, find_rule hread]
  cases stored h d rule.location <;> rfl

theorem listen_ne_mount : listenPath ≠ mountPath := by decide

theorem change_keeps (hchange : change h d action = .ok d') (hasks : Asks h r action) :
    (r.path = listenPath → d'.mounts = d.mounts) ∧ (r.path = mountPath → d'.listen = d.listen) := by
  cases hasks with
  | read =>
      cases hchange
      exact ⟨fun _ => rfl, fun _ => rfl⟩
  | listen _ hpath =>
      cases hchange
      exact ⟨fun _ => rfl, fun hmount => absurd (hpath.symm.trans hmount) listen_ne_mount⟩
  | unlisten _ hpath =>
      cases hchange
      exact ⟨fun _ => rfl, fun hmount => absurd (hpath.symm.trans hmount) listen_ne_mount⟩
  | mount _ hpath =>
      cases hchange
      exact ⟨fun hlisten => absurd (hlisten.symm.trans hpath) listen_ne_mount, fun _ => rfl⟩
  | unmount _ hpath =>
      refine ⟨fun hlisten => absurd (hlisten.symm.trans hpath) listen_ne_mount, fun _ => ?_⟩
      obtain ⟨current, -, hchange⟩ := bind_eq_ok.mp hchange
      split at hchange
      · cases hchange
        rfl
      · obtain ⟨_, -, hchange⟩ := bind_eq_ok.mp hchange
        cases hchange
        rfl

theorem change_unmount_ok (hvalid : Valid h d) (hchange : change h d (.unmount rule) = .ok d') :
    (∀ old, stored h d rule.location = some old → upstreamText old = upstreamText rule.proxyPass) ∧
      stored h d' = Function.update (stored h d) rule.location none := by
  rw [change_unmount hvalid] at hchange
  cases hstored : stored h d rule.location with
  | none =>
      rw [hstored] at hchange
      cases hchange
      refine ⟨by rintro old ⟨⟩, ?_⟩
      rw [← hstored, Function.update_eq_self]
  | some parts =>
      rw [hstored] at hchange
      obtain ⟨_, hsame, hchange⟩ := bind_eq_ok.mp hchange
      cases hchange
      rw [failIf_eq_ok, not_not] at hsame
      refine ⟨fun old hold => ?_, stored_unmount⟩
      cases hold
      exact hsame

/-- In a healthy environment a deletion fails for a changed target only. -/
theorem transaction_unmount (hvalid : Valid h d) (rule : ProxyLocation) :
    (∃ done, transaction h .healthy d (.unmount rule) = .ok done) ↔
      ∀ old, stored h d rule.location = some old → upstreamText old = upstreamText rule.proxyPass := by
  constructor
  · rintro ⟨⟨config, d'⟩, hdone⟩
    obtain ⟨-, -, -, hchange, -⟩ := transaction_eq_ok.mp hdone
    exact (change_unmount_ok hvalid hchange).1
  · intro hsame
    have hchange : ∃ d', change h d (.unmount rule) = .ok d' ∧ Valid h d' := by
      rw [change_unmount hvalid]
      cases hstored : stored h d rule.location with
      | none => exact ⟨d, rfl, hvalid⟩
      | some parts =>
          refine ⟨_, bind_eq_ok.mpr ⟨(), ?_, rfl⟩, valid_unmount hvalid⟩
          rw [failIf_eq_ok, not_not]
          exact hsame parts hstored
    obtain ⟨d', hchange, config, hread⟩ := hchange
    exact ⟨(config, d'), transaction_eq_ok.mpr ⟨rfl, rfl, hvalid, hchange, rfl, hread, rfl⟩⟩

theorem configDatabase_cases (hdone : configDatabase h env d r = (reply, d')) :
    (∃ e, reply = .error e ∧ d' = d) ∨
    (d' = d ∧ Asks h r .read ∧ ∃ config, readServerConfig h d = .ok config ∧
      reply = .ok (answer r config)) ∨
    ∃ action config, Asks h r action ∧ transaction h env d action = .ok (config, d') ∧
      reply = env.inheritFiles.map fun _ => answer r config := by
  unfold configDatabase at hdone
  split at hdone
  · cases hdone
    exact .inl ⟨_, rfl, rfl⟩
  · rename_i hexamine
    obtain ⟨rfl, rfl⟩ := Prod.mk.inj hdone
    cases hopen : env.openConfig with
    | error e => exact .inl ⟨e, rfl, rfl⟩
    | ok u =>
        cases hread : readServerConfig h d with
        | error e => exact .inl ⟨e, rfl, rfl⟩
        | ok config => exact .inr (.inl ⟨rfl, examine_asks hexamine, config, rfl, rfl⟩)
  · rename_i action _ hexamine
    split at hdone
    · cases hdone
      exact .inl ⟨_, rfl, rfl⟩
    · rename_i config d'' htransaction
      cases hdone
      exact .inr (.inr ⟨action, config, examine_asks hexamine, htransaction, rfl⟩)

theorem transaction_keeps (htransaction : transaction h env d action = .ok (config, d'))
    (hasks : Asks h r action) :
    Valid h d' ∧ (r.path = listenPath → d'.mounts = d.mounts) ∧
      (r.path = mountPath → d'.listen = d.listen) := by
  obtain ⟨-, -, -, hchange, -, hread, -⟩ := transaction_eq_ok.mp htransaction
  exact ⟨⟨config, hread⟩, change_keeps hchange hasks⟩

theorem valid_step (hvalid : Valid h d) : Valid h (configDatabase h env d r).2 := by
  obtain ⟨_, -, hsame⟩ | ⟨hsame, -⟩ | ⟨action, config, hasks, htransaction, -⟩ :=
    configDatabase_cases (Prod.mk.eta (p := configDatabase h env d r)).symm
  · rw [hsame]
    exact hvalid
  · rw [hsame]
    exact hvalid
  · exact (transaction_keeps htransaction hasks).1

theorem examine_get (hmethod : r.method = .get) (hpath : r.path = mountPath) (hquery : r.query = none)
    (hpayload : r.payload = none) : examine h r = .ok .read := by
  obtain ⟨method, path, query, payload⟩ := r
  cases hmethod
  cases hpath
  cases hquery
  cases hpayload
  rfl

theorem asks_get (hasks : Asks h r action) (hmethod : r.method = .get) : action = .read := by
  cases hasks with
  | read => rfl
  | listen hmethod' => cases hmethod.symm.trans hmethod'
  | unlisten hmethod' => cases hmethod.symm.trans hmethod'
  | mount hmethod' => cases hmethod.symm.trans hmethod'
  | unmount hmethod' => cases hmethod.symm.trans hmethod'

theorem mapStep (hprints : Prints h) (hvalid : Valid h d) (hinherits : Inherits d (env, r))
    (hdone : configDatabase h env d r = (reply, d')) : MapStep h env r d d' reply where
  patched hmethod hpath value hvalue := by
    obtain ⟨e, hfailed, -⟩ | ⟨-, hasks, -⟩ | ⟨action, config, hasks, htransaction, -⟩ :=
      configDatabase_cases hdone
    · cases hfailed.symm.trans hvalue
    · cases hasks with
      | read hmethod' => cases hmethod.symm.trans hmethod'
    · obtain ⟨-, -, -, hchange, -⟩ := transaction_eq_ok.mp htransaction
      cases hasks with
      | read hmethod' => cases hmethod.symm.trans hmethod'
      | listen _ hpath' => exact absurd (hpath'.symm.trans hpath) listen_ne_mount
      | unlisten hmethod' => cases hmethod.symm.trans hmethod'
      | unmount hmethod' => cases hmethod.symm.trans hmethod'
      | @mount payload row rule _ _ hpayload hread hgives =>
          obtain ⟨hlocation, hparse⟩ := hgives
          cases hchange
          refine ⟨payload, row.1, row.2, rule.proxyPass, hpayload, hread, hparse, ?_⟩
          rw [← hlocation]
          exact stored_mount (parseUpstream_stable hprints hparse)
  deleted hmethod hpath value hvalue := by
    obtain ⟨e, hfailed, -⟩ | ⟨-, hasks, -⟩ | ⟨action, config, hasks, htransaction, -⟩ :=
      configDatabase_cases hdone
    · cases hfailed.symm.trans hvalue
    · cases hasks with
      | read hmethod' => cases hmethod.symm.trans hmethod'
    · obtain ⟨-, -, -, hchange, -⟩ := transaction_eq_ok.mp htransaction
      cases hasks with
      | read hmethod' => cases hmethod.symm.trans hmethod'
      | listen hmethod' => cases hmethod.symm.trans hmethod'
      | unlisten _ hpath' => exact absurd (hpath'.symm.trans hpath) listen_ne_mount
      | mount hmethod' => cases hmethod.symm.trans hmethod'
      | @unmount params rule _ _ hquery hgives =>
          obtain ⟨hlocation, hparse⟩ := hgives
          have hdeleted := change_unmount_ok hvalid hchange
          rw [hlocation] at hdeleted
          exact ⟨params, rule.proxyPass, hquery, hparse, hdeleted⟩
  refused := by
    rintro rfl rule hexamine
    simp only [configDatabase, hexamine] at hdone
    have hiff := transaction_unmount hvalid rule
    cases htransaction : transaction h .healthy d (.unmount rule) with
    | error e =>
        rw [htransaction] at hdone hiff
        cases hdone
        refine iff_of_true ⟨e, rfl⟩ ?_
        by_contra hnone
        obtain ⟨_, hdone⟩ := hiff.mpr fun old hold => by
          by_contra hne
          exact hnone ⟨old, hold, hne⟩
        cases hdone
    | ok done =>
        rw [htransaction] at hdone hiff
        cases hdone
        refine iff_of_false (by rintro ⟨e, ⟨⟩⟩) ?_
        rintro ⟨old, hold, hne⟩
        exact hne (hiff.mp ⟨_, rfl⟩ old hold)
  listens hpath := by
    obtain ⟨_, -, rfl⟩ | ⟨rfl, -⟩ | ⟨action, config, hasks, htransaction, -⟩ :=
      configDatabase_cases hdone
    · rfl
    · rfl
    · exact (transaction_keeps htransaction hasks).2.1 hpath
  mounts hpath := by
    obtain ⟨_, -, rfl⟩ | ⟨rfl, -⟩ | ⟨action, config, hasks, htransaction, -⟩ :=
      configDatabase_cases hdone
    · rfl
    · rfl
    · exact (transaction_keeps htransaction hasks).2.2 hpath
  read hmethod := by
    obtain ⟨_, -, hsame⟩ | ⟨hsame, -⟩ | ⟨action, config, hasks, htransaction, -⟩ :=
      configDatabase_cases hdone
    · exact hsame
    · exact hsame
    · obtain rfl := asks_get hasks hmethod
      obtain ⟨-, -, -, hchange, -⟩ := transaction_eq_ok.mp htransaction
      cases hchange
      rfl
  listed hmethod hpath value hvalue := by
    have hanswer {config : ServerConfig} : answer r config = .arr (config.proxyLocations.map forward) := by
      rw [answer, hmethod, hpath, if_neg (by decide), if_neg listen_ne_mount.symm]
    have hlist {config : ServerConfig} (hread : readServerConfig h d = .ok config) :
        ∃ rules, answer r config = .arr (rules.map forward) ∧ (locations rules).Nodup ∧
          ∀ rule, rule ∈ rules ↔ stored h d rule.location = some rule.proxyPass := by
      obtain ⟨config', hread', hread⟩ := bind_eq_ok.mp hread
      obtain ⟨_, -, hread⟩ := bind_eq_ok.mp hread
      cases hread
      obtain ⟨-, -, -, hparse⟩ := readConfig_eq_ok.mp hread'
      exact ⟨_, hanswer, (parseProxies_parsed hparse).distinct, fun rule => mem_rules_stored hread'⟩
    obtain ⟨e, hfailed, -⟩ | ⟨-, -, config, hread, hok⟩ | ⟨action, config, hasks, htransaction, hok⟩ :=
      configDatabase_cases hdone
    · cases hfailed.symm.trans hvalue
    · cases hok.symm.trans hvalue
      exact hlist hread
    · obtain rfl := asks_get hasks hmethod
      obtain ⟨-, -, -, hchange, -, hread, -⟩ := transaction_eq_ok.mp htransaction
      cases hchange
      cases hinherit : env.inheritFiles with
      | error e =>
          rw [hinherit] at hok
          cases hok.symm.trans hvalue
      | ok u =>
          rw [hinherit] at hok
          cases hok.symm.trans hvalue
          exact hlist hread
  answered := by
    rintro rfl hmethod hpath hquery hpayload
    obtain ⟨config, hread⟩ := hvalid
    have hexamine : examine h r = .ok .read := examine_get hmethod hpath hquery hpayload
    rw [configDatabase, hexamine] at hdone
    refine ⟨answer r config, ?_⟩
    rw [← (Prod.mk.inj hdone).1, hread]
    rfl
  failed e hfailed := by
    obtain ⟨_, -, hsame⟩ | ⟨hsame, -⟩ | ⟨action, config, hasks, htransaction, hreply⟩ :=
      configDatabase_cases hdone
    · exact hsame
    · exact hsame
    · rcases hinherits with hget | hinherit
      · obtain rfl := asks_get hasks hget
        obtain ⟨-, -, -, hchange, -⟩ := transaction_eq_ok.mp htransaction
        cases hchange
        rfl
      · change env.inheritFiles = .ok () at hinherit
        rw [hinherit] at hreply
        cases hreply.symm.trans hfailed

end

/-- In a run of requests from a valid database each request does to the rules what it says, and what
is stored is parsed as the same target whenever it is read. -/
theorem settings_map {h : Http} {d d' : Store} {calls : List (Environment × Request)}
    (hprints : Prints h) (hvalid : Valid h d) (hrun : Trace (step h) Inherits d calls d') :
    Valid h d' ∧
    (∀ env r, Inherits d' (env, r) →
      MapStep h env r d' (configDatabase h env d' r).2 (configDatabase h env d' r).1) ∧
    ∀ upstream parts, parseUpstream h upstream = .ok parts →
      parseUpstream h (upstreamText parts) = .ok parts := by
  have hvalid' : Valid h d' := by
    refine hrun.invariant hvalid fun d call d' hvalid _ hstep => ?_
    cases hstep
    exact valid_step hvalid
  refine ⟨hvalid', fun env r hinherits => ?_, fun upstream parts => parseUpstream_stable hprints⟩
  exact mapStep hprints hvalid' hinherits (Prod.mk.eta (p := configDatabase h env d' r)).symm

theorem sampleHttp_uri {text : Text} {parts : Parts} : sampleHttp.uri text = some parts ↔
    '?' ∉ text ∧ ∃ rest, text = chars "http://" ++ rest ∧
      parts = ⟨some (chars "http"), some (segment rest),
        some ⟨if afterSegment rest = [] then ['/'] else afterSegment rest, none⟩⟩ := by
  simp only [sampleHttp, Option.ite_none_left_eq_some, Option.map_eq_some_iff, strip_eq_some,
    List.contains_iff_mem]
  exact and_congr_right fun _ => exists_congr fun rest => and_congr_right fun _ => eq_comm

theorem sampleHttp_prints : Prints sampleHttp where
  plain text address haddress := by
    simp only [sampleHttp, Option.ite_none_right_eq_some] at haddress
    rw [haddress.1]
    decide
  printed text address haddress := by
    simp only [sampleHttp, Option.ite_none_right_eq_some, Option.some.injEq] at haddress
    obtain ⟨rfl, rfl⟩ := haddress
    exact clean_iff.mpr rfl
  authority text parts authority hparts hauthority := by
    obtain ⟨-, rest, rfl, rfl⟩ := sampleHttp_uri.mp hparts
    cases hauthority
    refine ⟨slash_not_mem_segment rest, fun c hc => List.mem_append_right _ ?_⟩
    rw [← segment_append_after rest]
    exact List.mem_append_left _ hc
  path text parts p hparts hp := by
    obtain ⟨-, rest, rfl, rfl⟩ := sampleHttp_uri.mp hparts
    cases hp
    change (if afterSegment rest = [] then ['/'] else afterSegment rest).head? = some '/' ∧
      ∀ c ∈ if afterSegment rest = [] then ['/'] else afterSegment rest, _
    split
    · exact ⟨rfl, fun c hc => .inl (List.mem_singleton.mp hc)⟩
    · rename_i hne
      obtain ⟨tail, htail⟩ := (afterSegment_cases rest).resolve_left hne
      refine ⟨by rw [htail]; rfl, fun c hc => .inr (List.mem_append_right _ ?_)⟩
      rw [← segment_append_after rest]
      exact List.mem_append_right _ hc
  reparsed text parts scheme authority hparts hscheme hauthority := by
    obtain ⟨hclean, rest, rfl, rfl⟩ := sampleHttp_uri.mp hparts
    cases hscheme
    cases hauthority
    have hsegment : segment (segment rest) = segment rest :=
      segment_eq (slash_not_mem_segment rest) (.inl rfl)
    have hrest : '?' ∉ segment rest ∧ '?' ∉ afterSegment rest := by
      rw [← not_or, ← List.mem_append, segment_append_after]
      exact fun hmem => hclean (List.mem_append_right _ hmem)
    have hstart : '?' ∉ chars "http" ++ schemeMark ++ segment rest := by
      rw [List.mem_append, not_or]
      exact ⟨by decide, hrest.1⟩
    refine ⟨⟨_, sampleHttp_uri.mpr ⟨hstart, segment rest, rfl, by rw [hsegment]⟩⟩, fun p hp => ?_⟩
    have hpath : ∃ path, p = ⟨path, none⟩ ∧ '?' ∉ path ∧ ∃ tail, path = '/' :: tail := by
      obtain rfl := Option.some.inj hp
      refine ⟨_, rfl, ?_⟩
      split
      · exact ⟨by decide, [], rfl⟩
      · rename_i hne
        exact ⟨hrest.2, (afterSegment_cases rest).resolve_left hne⟩
    obtain ⟨path, rfl, hquery, tail, htail⟩ := hpath
    have hbelow : Below (segment rest) (segment rest ++ path) := .inr ⟨tail, by rw [htail]⟩
    have hstart' : '?' ∉ chars "http" ++ schemeMark ++ segment rest ++ path := by
      rw [List.mem_append, not_or]
      exact ⟨hstart, hquery⟩
    refine sampleHttp_uri.mpr ⟨hstart', segment rest ++ path, List.append_assoc _ _ _, ?_⟩
    rw [segment_eq (slash_not_mem_segment rest) hbelow,
      afterSegment_append (slash_not_mem_segment rest) hbelow, if_neg (by simp [htail])]

def emptyStore : Store := ⟨3, none, [], [], List.nodup_nil⟩

def shopRequest : Request where
  method := .patch
  path := mountPath
  query := none
  payload := some (.obj [("location", .str "/shop"), ("proxy_pass", .str "127.0.0.1:8080")])

/-- A database file has a second link. -/
def linked : Environment := { Environment.healthy with
  inheritFiles := .error (.invalidConfig "database files must be single-link regular files") }

theorem emptyStore_valid : Valid sampleHttp emptyStore := ⟨⟨"off", []⟩, rfl⟩

theorem settings_map_shop : stored sampleHttp (configDatabase sampleHttp .healthy emptyStore shopRequest).2
    (chars "/shop") = some ⟨some (chars "http"), some (chars "127.0.0.1:8080"), none⟩ := by
  obtain ⟨-, hstep, -⟩ := settings_map sampleHttp_prints emptyStore_valid .nil
  have hreply : (configDatabase sampleHttp .healthy emptyStore shopRequest).1 = .ok (.arr [.obj
      [("location", .str "/shop"), ("proxy_pass", .str "http://127.0.0.1:8080")]]) := by rfl
  obtain ⟨payload, location, upstream, parts, hpayload, hread, hparse, hstored⟩ :=
    (hstep .healthy shopRequest (.inr rfl)).patched rfl rfl _ hreply
  cases hpayload
  cases hread
  cases hparse
  rw [hstored]
  rfl

/-- The change is committed before the files are inherited. -/
theorem uninherited_change_kept : Prints sampleHttp ∧ Valid sampleHttp emptyStore ∧
    (configDatabase sampleHttp linked emptyStore shopRequest).1 =
      .error (.invalidConfig "database files must be single-link regular files") ∧
    stored sampleHttp (configDatabase sampleHttp linked emptyStore shopRequest).2 (chars "/shop") ≠
      stored sampleHttp emptyStore (chars "/shop") := by
  refine ⟨sampleHttp_prints, emptyStore_valid, by rfl, ?_⟩
  have hrow : stored sampleHttp (configDatabase sampleHttp linked emptyStore shopRequest).2
      (chars "/shop") = some ⟨some (chars "http"), some (chars "127.0.0.1:8080"), none⟩ := by rfl
  have hnone : stored sampleHttp emptyStore (chars "/shop") = none := rfl
  rw [hrow, hnone]
  exact Option.some_ne_none _

end Pishoo.Settings
