import Pishoo.AppAuthorization
import Pishoo.Component
import Pishoo.Releases

namespace Pishoo.RouteAgreement

open Result PathText Authorization Router Publication Component AppAuthorization

/-- Where the paths of a lib are mounted. -/
def placeOf (id : Id) : Text := if standard id then chars "/std" else '/' :: chars id.name

def publicPath (name : Text) (file : String) : Option Text :=
  (strip (chars "public/") (chars file)).map fun path =>
    app ++ name ++ '/' :: if path = chars "index.html" then [] else path

/-- The external paths of a package with their methods. -/
def packageRoutes (o : Parser) (files : Files) (id : Id) : Kind →
    Except Error (List (Text × List String))
  | .lib => do
      let raw ← packageOpenapi o files
      let paths ← validateOpenapi o raw
      .ok (paths.map fun path => (placeOf id ++ chars path.1, path.2.methods.map Prod.fst))
  | .app => .ok (((files.filterMap fun file => publicPath (chars id.name) file.1) ++
      [app ++ chars id.name]).map fun path => (path, ["GET", "HEAD"]))

structure Installed where
  files : Files
  metadata : Metadata

def Installed.name (p : Installed) : String := p.metadata.name

/-- Packages that have been accepted and have different short names. -/
structure Together (t : Trust) (o : Parser) (packages : List Installed) : Prop where
  accepted : ∀ p ∈ packages, Component.validateContents t o p.files = .ok p.metadata
  names : (packages.map Installed.name).Nodup

/-- The server has loaded the libs of the packages. -/
def Loads (s : Server) (packages : List Installed) : Prop :=
  ∀ id, id ∈ s.libs ↔ ∃ p ∈ packages, p.metadata.hasLib = true ∧ p.metadata.id = id

/-- The router of the access control keeps to its own names. -/
def Confined (management : Text → Bool) : Prop :=
  ∀ path, management path = true →
    Below (chars "/std/acl") path ∨ Below (chars "/std/contact") path

/-- The package whose files or operations lie at a path. -/
def ownerOf (path : Text) : Text := segment (targetOf path).tail

section

variable {t : Trust} {o : Parser} {files : Files} {metadata : Metadata} {raw : Bytes}
  {paths : List (String × PathItem)} {path : Text} {name tail : Text} {id : Id}

theorem strip_std_app : strip app (chars "/std/" ++ tail) = none := by
  rw [strip_eq_none]
  intro rest h
  cases h

theorem targetOf_standard : targetOf (standardPrefix ++ tail) = ⟨false, true, tail⟩ := by
  have happ : strip app (standardPrefix ++ tail) = none := strip_std_app
  simp [targetOf, happ]

theorem targetOf_app : targetOf (app ++ tail) = ⟨true, false, tail⟩ := by
  simp [targetOf]

theorem strip_segment_ne (start : Text) (hstart : '/' ∉ start) (hname : '/' ∉ name)
    (hne : name ≠ start) (h : Below name tail) : strip ('/' :: start ++ ['/']) ('/' :: tail) = none := by
  rw [strip_eq_none]
  intro rest hrest
  have htail : tail = start ++ '/' :: rest := by simpa using hrest
  have hsegment : segment tail = start := segment_eq hstart (htail ▸ .inr ⟨rest, rfl⟩)
  exact hne ((segment_eq hname h).symm.trans hsegment)

theorem trimStart_slash (hne : name ≠ []) (hname : '/' ∉ name) (h : Below name tail) :
    trimStart ('/' :: tail) = tail := by
  obtain ⟨c, cs, rfl⟩ := List.exists_cons_of_ne_nil hne
  have hc : c ≠ '/' := fun hc => hname (hc ▸ List.mem_cons_self)
  obtain rfl | ⟨rest, rfl⟩ := h <;> simp [trimStart, hc]

/-- A path below a name that is neither of the two namespaces is an ordinary one. -/
theorem targetOf_ordinary (hne : name ≠ []) (hname : '/' ∉ name) (happ : name ≠ chars "app")
    (hstd : name ≠ chars "std") (h : Below name tail) : targetOf ('/' :: tail) = ⟨false, false, tail⟩ := by
  have hstripApp : strip app ('/' :: tail) = none :=
    strip_segment_ne (chars "app") (by decide) hname happ h
  have hstripStd : strip standardPrefix ('/' :: tail) = none :=
    strip_segment_ne (chars "std") (by decide) hname hstd h
  simp [targetOf, hstripApp, hstripStd, trimStart_slash hne hname h]

theorem targetOf_eq_standard (h : targetOf path = ⟨false, true, tail⟩) :
    path = standardPrefix ++ tail := by
  unfold targetOf at h
  split at h
  · cases h
  · split at h
    · rename_i rest hrest
      cases h
      exact strip_eq_some.mp hrest
    · cases h

theorem targetOf_eq_ordinary (h : targetOf path = ⟨false, false, tail⟩) :
    strip app path = none ∧ strip standardPrefix path = none ∧ trimStart path = tail := by
  unfold targetOf at h
  split at h
  · cases h
  · rename_i happ
    split at h
    · cases h
    · cases h
      exact ⟨happ, ‹_›, rfl⟩

/-- How an external path of a lib is taken apart again. -/
structure Route (name : Text) (isStandard : Bool) (external guest tail : Text) : Prop where
  target : targetOf external = ⟨false, isStandard, tail⟩
  below : Below name tail
  externalEq : external = (if isStandard then standardPrefix else ['/']) ++ tail
  guestEq : guest = if isStandard then '/' :: tail else afterSegment tail
  nonempty : guest ≠ []

theorem Route.ownerOf {external guest : Text} {isStandard : Bool} (hname : '/' ∉ name)
    (h : Route name isStandard external guest tail) : ownerOf external = name := by
  rw [RouteAgreement.ownerOf, h.target]
  exact segment_eq hname h.below

theorem validName_spec (h : validName metadata.name = true) :
    chars metadata.name ≠ [] ∧ '/' ∉ chars metadata.name :=
  ⟨name_ne_nil (show validName metadata.id.name = true from h), Installation.validName_ne_slash h⟩

theorem validPath_head {path : String} (h : validPath path = true) :
    ∃ rest, chars path = '/' :: rest := by
  simp only [validPath, Bool.and_eq_true, beq_iff_eq] at h
  exact List.head?_eq_some_iff.mp h.1.1.1.1

theorem standardPath_below {path : String × PathItem} (h : checkStandardPaths metadata paths = .ok ())
    (hpath : path ∈ paths) : reservedPath path.1 = false ∧
      Below ('/' :: chars metadata.name) (chars path.1) := by
  obtain ⟨_, hreserved, h⟩ := bind_eq_ok.mp h
  have hbelow := failIf_eq_ok.mp h
  simp only [failIf_eq_ok, Bool.not_eq_true, List.any_eq_false] at hreserved hbelow
  have hb := hbelow path hpath
  exact ⟨hreserved path hpath, below_iff.mp (by simpa using hb)⟩

/-- A declared path is mounted so that it can be taken apart. -/
theorem route_of_checked {path : String × PathItem} (h : Accepted t o files metadata)
    (hlib : metadata.hasLib = true) (hchecked : Checked o t.parse metadata raw paths)
    (hpath : path ∈ paths) : ∃ tail, Route (chars metadata.name) (standard metadata.id)
      (placeOf metadata.id ++ chars path.1) (chars path.1) tail := by
  obtain ⟨hne, hslash⟩ := validName_spec (packageMetadata_spec h.metadata).1
  obtain ⟨rest, hrest⟩ := validPath_head ((validateOpenapi_spec hchecked.openApi).2 path hpath).1
  by_cases hstd : standard metadata.id = true
  · obtain ⟨-, hbelow⟩ := standardPath_below (hchecked.place hstd) hpath
    rw [hrest] at hbelow
    have htail : Below (chars metadata.name) rest := below_cons.mp hbelow
    have hplace : placeOf metadata.id ++ chars path.1 = standardPrefix ++ rest := by
      rw [placeOf, if_pos hstd, hrest]
      rfl
    refine ⟨rest, ?_, htail, ?_, ?_, ?_⟩
    · rw [hplace, targetOf_standard, hstd]
    · rw [hplace, if_pos hstd]
    · rw [if_pos hstd, hrest]
    · simp [hrest]
  · have happ : chars metadata.name ≠ chars "app" := fun heq =>
      hstd (h.notApp (String.toList_injective heq) hlib)
    have hnotStd : chars metadata.name ≠ chars "std" := fun heq =>
      h.notStd (String.toList_injective heq)
    have hbelow : Below (chars metadata.name) (chars metadata.name ++ chars path.1) :=
      .inr ⟨rest, by rw [hrest]⟩
    have hplace : placeOf metadata.id ++ chars path.1 =
        '/' :: (chars metadata.name ++ chars path.1) := by
      rw [placeOf, if_neg hstd]
      rfl
    have hfalse : standard metadata.id = false := by simpa using hstd
    refine ⟨chars metadata.name ++ chars path.1, ?_, hbelow, ?_, ?_, ?_⟩
    · rw [hplace, targetOf_ordinary hne hslash happ hnotStd hbelow, hfalse]
    · rw [hplace, hfalse]
      rfl
    · rw [hfalse]
      exact (afterSegment_append hslash hbelow).symm
    · simp [hrest]

theorem publicPath_below {file : String} (h : publicPath name file = some path) :
    ∃ rest, path = app ++ rest ∧ Below name rest := by
  obtain ⟨suffix, -, rfl⟩ := Option.map_eq_some_iff.mp h
  exact ⟨_, List.append_assoc _ _ _, .inr ⟨_, rfl⟩⟩

/-- What a package registers lies at its own name. -/
theorem ownerOf_registered {kind : Kind} {routes : List (Text × List String)}
    (h : Accepted t o files metadata) (hroutes : packageRoutes o files metadata.id kind = .ok routes)
    (hpath : path ∈ routes.map Prod.fst) : ownerOf path = chars metadata.name := by
  obtain ⟨-, hslash⟩ := validName_spec (packageMetadata_spec h.metadata).1
  obtain ⟨entry, hentry, rfl⟩ := List.mem_map.mp hpath
  cases kind with
  | lib =>
      obtain ⟨raw, hraw, hroutes⟩ := bind_eq_ok.mp hroutes
      obtain ⟨paths, hpaths, hroutes⟩ := bind_eq_ok.mp hroutes
      cases hroutes
      obtain ⟨declared, hdeclared, rfl⟩ := List.mem_map.mp hentry
      obtain ⟨hlib, hchecked⟩ := h.checked hraw hpaths
      obtain ⟨tail, hroute⟩ := route_of_checked h hlib hchecked hdeclared
      exact hroute.ownerOf hslash
  | app =>
      cases hroutes
      have happ (rest : Text) (hrest : Below (chars metadata.name) rest) :
          ownerOf (app ++ rest) = chars metadata.name := by
        rw [ownerOf, targetOf_app]
        exact segment_eq hslash hrest
      obtain ⟨external, hexternal, rfl⟩ := List.mem_map.mp hentry
      obtain hfile | hroot := List.mem_append.mp hexternal
      · obtain ⟨file, -, hfile⟩ := List.mem_filterMap.mp hfile
        obtain ⟨rest, rfl, hrest⟩ := publicPath_below hfile
        exact happ rest hrest
      · rw [List.mem_singleton.mp hroot]
        exact happ _ (.inl rfl)

theorem standard_of_below (start : Text) (h : Below (standardPrefix ++ start) path)
    (hstart : '/' ∉ start) : (targetOf path).standard = true ∧ ownerOf path = start := by
  have hpath : ∃ rest, path = standardPrefix ++ rest ∧ Below start rest := by
    obtain rfl | ⟨rest, rfl⟩ := h
    · exact ⟨start, rfl, .inl rfl⟩
    · exact ⟨_, List.append_assoc _ _ _, .inr ⟨rest, rfl⟩⟩
  obtain ⟨rest, rfl, hrest⟩ := hpath
  rw [ownerOf, targetOf_standard]
  exact ⟨rfl, segment_eq hstart hrest⟩

/-- The native services lie below the names that are kept for them. -/
theorem native_target {management : Text → Bool} (hconfined : Confined management)
    (h : isNative management path = true) :
    (targetOf path).standard = true ∧ ownerOf path ∈ nativeNames := by
  simp only [isNative, Bool.or_eq_true, List.contains_iff_mem, List.any_eq_true] at h
  obtain (hexact | hmanagement) | ⟨start, hstart, hnested⟩ := h
  · have hall : ∀ path ∈ exactNative,
        (targetOf path).standard = true ∧ ownerOf path ∈ nativeNames := by decide
    exact hall path hexact
  · obtain hbelow | hbelow := hconfined path hmanagement
    · obtain ⟨hstandard, howner⟩ := standard_of_below (chars "acl") hbelow (by decide)
      exact ⟨hstandard, howner ▸ by decide⟩
    · obtain ⟨hstandard, howner⟩ := standard_of_below (chars "contact") hbelow (by decide)
      exact ⟨hstandard, howner ▸ by decide⟩
  · simp only [Bool.and_eq_true, starts, Option.isSome_iff_exists, strip_eq_some] at hnested
    obtain ⟨⟨rest, rfl⟩, -⟩ := hnested
    have hall : ∀ start ∈ nestedNative, ∃ name ∈ nativeNames, '/' ∉ name ∧
        start = standardPrefix ++ name ++ ['/'] := by decide
    obtain ⟨name, hname, hslash, rfl⟩ := hall start hstart
    have hbelow : Below (standardPrefix ++ name) (standardPrefix ++ name ++ ['/'] ++ rest) :=
      .inr ⟨rest, by simp⟩
    obtain ⟨hstandard, howner⟩ := standard_of_below name hbelow hslash
    exact ⟨hstandard, howner.symm ▸ hname⟩

theorem reserved_of_native (hname : name ∈ nativeNames) {path : String}
    (h : Below ('/' :: name) (chars path)) : reservedPath path = true := by
  have hall : ∀ name ∈ nativeNames, '/' :: name ∈ reservedPaths := by decide
  rw [reservedPath, Bool.or_eq_true, List.any_eq_true]
  exact .inr ⟨_, hall name hname, below_iff.mpr h⟩

/-- No native service takes a path that a lib declares. -/
theorem route_not_native {management : Text → Bool} {path : String × PathItem}
    (hconfined : Confined management) (h : Accepted t o files metadata)
    (hlib : metadata.hasLib = true) (hchecked : Checked o t.parse metadata raw paths)
    (hpath : path ∈ paths) :
    isNative management (placeOf metadata.id ++ chars path.1) = false := by
  obtain ⟨-, hslash⟩ := validName_spec (packageMetadata_spec h.metadata).1
  obtain ⟨tail, hroute⟩ := route_of_checked h hlib hchecked hpath
  cases hnative : isNative management (placeOf metadata.id ++ chars path.1) with
  | false => rfl
  | true =>
      obtain ⟨hstandard, howner⟩ := native_target hconfined hnative
      rw [hroute.target] at hstandard
      rw [hroute.ownerOf hslash] at howner
      obtain ⟨hreserved, hbelow⟩ := standardPath_below (hchecked.place hstandard) hpath
      rw [reserved_of_native howner hbelow] at hreserved
      cases hreserved

theorem find_lib {s : Server} {packages : List Installed} {p : Installed}
    (htogether : Together t o packages) (hloads : Loads s packages) (hp : p ∈ packages)
    (hlib : p.metadata.hasLib = true) :
    s.libs.find? (fun id => isStandard id == standard p.metadata.id &&
      chars id.name == chars p.metadata.name) = some p.metadata.id := by
  have hmem : p.metadata.id ∈ s.libs := (hloads p.metadata.id).mpr ⟨p, hp, hlib, rfl⟩
  cases hfind : s.libs.find? (fun id => isStandard id == standard p.metadata.id &&
      chars id.name == chars p.metadata.name) with
  | none =>
      have hnot := List.find?_eq_none.mp hfind p.metadata.id hmem
      simp [Metadata.id, isStandard, firstPart, standard] at hnot
  | some id =>
      have hfound := List.find?_some hfind
      obtain ⟨q, hq, -, rfl⟩ := (hloads id).mp (List.mem_of_find?_eq_some hfind)
      simp only [Bool.and_eq_true, beq_iff_eq] at hfound
      have hname : q.name = p.name := String.toList_injective hfound.2
      rw [List.inj_on_of_nodup_map htogether.names hq hp hname]

variable {s : Server} {request : Authorization.Request} {guest external : Text} {isStandard : Bool}

theorem Route.selectLib (hname : '/' ∉ name) (h : Route name isStandard external guest tail)
    (hfind : s.libs.find? (fun id => Router.isStandard id == isStandard && chars id.name == name) =
      some id) : selectLib s external = .ok (id, guest) := by
  have htail : starts standardPrefix external = isStandard ∧
      (strip standardPrefix external).getD ((strip ['/'] external).getD external) = tail := by
    cases isStandard with
    | true =>
        have hexternal : external = standardPrefix ++ tail := h.externalEq
        simp [hexternal, starts]
    | false =>
        have hexternal : external = ['/'] ++ tail := h.externalEq
        have hnone := (targetOf_eq_ordinary h.target).2.1
        rw [starts, hnone, hexternal, strip_append]
        exact ⟨rfl, rfl⟩
  rw [Router.selectLib]
  simp only [htail.1, htail.2, segment_eq hname h.below, hfind]
  have hguest := h.guestEq
  cases isStandard with
  | true =>
      rw [hguest]
      rfl
  | false =>
      have hne : afterSegment tail ≠ [] := by
        rw [← show guest = afterSegment tail from hguest]
        exact h.nonempty
      rw [hguest]
      simp [orStatus, hne]

theorem apiTable_standard (hne : tail ≠ []) : apiTable (standardPrefix ++ tail) = some .api := by
  have hroot : standardPrefix ++ tail ≠ chars "/std" := fun h => by cases h
  simp [apiTable, hroot, starts, hne]

theorem apiTable_ordinary (hstd : path ≠ chars "/std") (h : strip standardPrefix path = none) :
    apiTable path = none := by
  simp [apiTable, hstd, starts, h]

theorem below_ne_nil (hne : name ≠ []) (h : Below name tail) : tail ≠ [] := by
  obtain rfl | ⟨rest, rfl⟩ := h
  · exact hne
  · simp

/-- A path that no native service takes and that a lib declares comes to the libs. -/
theorem Route.routes (hname : '/' ∉ name) (hne : name ≠ []) (hstd : name ≠ chars "std")
    (h : Route name isStandard external guest tail) (hnative : isNative s.management external = false)
    (hid : id ∈ s.libs) (hidStandard : Router.isStandard id = isStandard)
    (hidName : chars id.name = name) (hrequest : request.uri.pathText = external) :
    routes s request = apiRoute s request := by
  rw [Router.routes]
  simp only [hrequest, hnative, Bool.false_eq_true, if_false]
  cases isStandard with
  | true =>
      have hexternal : external = standardPrefix ++ tail := h.externalEq
      rw [hexternal, apiTable_standard (below_ne_nil hne h.below)]
      rfl
  | false =>
      obtain ⟨happ, hstrip, htrim⟩ := targetOf_eq_ordinary h.target
      have hroot : external ≠ chars "/std" := by
        intro heq
        have htail : tail = chars "std" := by
          rw [← htrim, heq]
          rfl
        have hsegment := segment_eq hname h.below
        rw [htail] at hsegment
        exact hstd hsegment.symm
      have htable := apiTable_ordinary hroot hstrip
      have hinstalled : installed s external = true := by
        rw [installed, Bool.or_eq_true, List.any_eq_true]
        refine .inr ⟨id, hid, ?_⟩
        rw [htrim, segment_eq hname h.below, hidStandard, hidName]
        simp
      rw [htable]
      simp only [hinstalled, if_true]
      rw [apiRouter, hrequest, htable]
      simp only
      rw [frontend, hrequest, happ]

/-- A lib answers only a path at which it is mounted. -/
theorem selectLib_spec {path guest : Text} (h : Router.selectLib s path = .ok (id, guest)) :
    id ∈ s.libs ∧ Router.isStandard id = starts standardPrefix path ∧ chars id.name =
      segment ((strip standardPrefix path).getD ((strip ['/'] path).getD path)) := by
  obtain ⟨found, hfind, h⟩ := bind_eq_ok.mp h
  cases h
  unfold orStatus at hfind
  split at hfind
  · rename_i found' hfound
    cases hfind
    have hprop := List.find?_some hfound
    simp only [Bool.and_eq_true, beq_iff_eq] at hprop
    exact ⟨List.mem_of_find?_eq_some hfound, hprop⟩
  · cases hfind

/-- What the parser of request targets takes it also takes without the mount. -/
theorem parse_tail {start : Text} {query : Option Text}
    (h : (s.parse (start ++ path) query).isSome = true) :
    s.parse path query = some (.target path query) := by
  unfold Server.parse at h ⊢
  split at h
  · rename_i hall
    rw [List.all_append, Bool.and_eq_true, Bool.and_eq_true] at hall
    rw [if_pos]
    rw [Bool.and_eq_true]
    exact ⟨hall.1.2, hall.2⟩
  · cases h

/-- A lib answers, an installed one or that of a local project. -/
def Reaches (response : Reply) : Prop :=
  (∃ id path, response.source = .router (.lib id path)) ∨
    ∃ name path, response.source = .router (.project name path)

/-- The path lies at the mount of a name that no loaded lib has there. -/
def Vacant (s : Server) (name path : Text) : Prop :=
  (name ≠ chars "std" ∧ Below ('/' :: name) path ∧
      ∀ id ∈ s.libs, Router.isStandard id = false → chars id.name ≠ name) ∨
    (Below (standardPrefix ++ name) path ∧
      ∀ id ∈ s.libs, Router.isStandard id = true → chars id.name ≠ name)

theorem not_selected (hname : '/' ∉ name) (h : Vacant s name path) {guest : Text} :
    Router.selectLib s path ≠ .ok (id, guest) := by
  intro hselect
  obtain ⟨hid, hstandard, hidName⟩ := selectLib_spec hselect
  obtain ⟨hstd, hbelow, hvacant⟩ | ⟨hbelow, hvacant⟩ := h
  · have hpath : ∃ tail, path = '/' :: tail ∧ Below name tail := by
      obtain rfl | ⟨rest, rfl⟩ := hbelow
      · exact ⟨name, rfl, .inl rfl⟩
      · exact ⟨_, rfl, .inr ⟨rest, rfl⟩⟩
    obtain ⟨tail, rfl, htail⟩ := hpath
    have hstrip : strip standardPrefix ('/' :: tail) = none :=
      strip_segment_ne (chars "std") (by decide) hname hstd htail
    have hroot : strip ['/'] ('/' :: tail) = some tail := strip_eq_some.mpr rfl
    rw [starts, hstrip] at hstandard
    rw [hstrip, hroot] at hidName
    exact hvacant id hid hstandard (hidName.trans (segment_eq hname htail))
  · have hpath : ∃ tail, path = standardPrefix ++ tail ∧ Below name tail := by
      obtain rfl | ⟨rest, rfl⟩ := hbelow
      · exact ⟨name, rfl, .inl rfl⟩
      · exact ⟨_, List.append_assoc _ _ _, .inr ⟨rest, rfl⟩⟩
    obtain ⟨tail, rfl, htail⟩ := hpath
    rw [starts, strip_append] at hstandard
    rw [strip_append] at hidName
    exact hvacant id hid hstandard (hidName.trans (segment_eq hname htail))

theorem not_reaches (hname : '/' ∉ name) (h : Vacant s name request.uri.pathText)
    (hproject : findProject s (ownerOf request.uri.pathText) = .ok none) :
    ¬Reaches (currentRouter s request) := by
  have hsource (handler : Handler) (h' : (currentRouter s request).source = .router handler) :
      Answers s request.uri.pathText handler := by
    obtain ⟨admitted, hvet, hadmitted⟩ := currentRouter_source h'
    obtain ⟨visitor, -, rfl, -⟩ := vet_ok hvet
    obtain ⟨found, hfound, hanswers⟩ :=
      developmentRouter_answers s { request with visitor := visitor }
    rw [hadmitted] at hfound
    cases hfound
    exact hanswers
  rintro (⟨id, guest, hlib⟩ | ⟨project, guest, hlib⟩)
  · cases hsource _ hlib with
    | lib hselect => exact not_selected hname h hselect
  · cases hsource _ hlib with
    | project hfound =>
        rw [ownerOf] at hproject
        rw [hproject] at hfound
        cases hfound

end

/-- What a lib declares is registered for it alone, left to it by the native services and routed to
it with the declared path; where no lib is mounted no lib answers. -/
theorem route_agreement {t : Trust} {o : Parser} {s : Server} {packages : List Installed}
    (htogether : Together t o packages) (hloads : Loads s packages)
    (hconfined : Confined s.management) :
    (∀ p ∈ packages, ∀ raw paths, packageOpenapi o p.files = .ok raw →
      validateOpenapi o raw = .ok paths → ∀ path ∈ paths,
        (∃ routes, packageRoutes o p.files p.metadata.id .lib = .ok routes ∧
          placeOf p.metadata.id ++ chars path.1 ∈ routes.map Prod.fst) ∧
        (∀ q ∈ packages, q ≠ p → ∀ kind routes, packageRoutes o q.files q.metadata.id kind =
          .ok routes → placeOf p.metadata.id ++ chars path.1 ∉ routes.map Prod.fst) ∧
        isNative s.management (placeOf p.metadata.id ++ chars path.1) = false ∧
        ∀ request, request.uri.pathText = placeOf p.metadata.id ++ chars path.1 →
          findProject s (chars p.name) = .ok none →
          ∀ admitted, vet (α := Handler) s.access request = .ok admitted →
            currentRouter s request = finish admitted
              (invoke s (.lib p.metadata.id (chars path.1)) (chars path.1) admitted) ∧
            ((s.parse request.uri.pathText admitted.uri.query).isSome = true →
              s.parse (chars path.1) admitted.uri.query =
                some (.target (chars path.1) admitted.uri.query))) ∧
    ∀ request name, '/' ∉ name → Vacant s name request.uri.pathText →
      findProject s (ownerOf request.uri.pathText) = .ok none →
        ¬Reaches (currentRouter s request) := by
  refine ⟨fun p hp raw paths hraw hpaths path hpath => ?_, fun request name => not_reaches⟩
  have haccepted := accepted_of_validateContents (htogether.accepted p hp)
  obtain ⟨hlib, hchecked⟩ := haccepted.checked hraw hpaths
  obtain ⟨hne, hslash⟩ := validName_spec (packageMetadata_spec haccepted.metadata).1
  obtain ⟨tail, hroute⟩ := route_of_checked haccepted hlib hchecked hpath
  have hnative := route_not_native hconfined haccepted hlib hchecked hpath
  refine ⟨?_, fun q hq hne' kind routes hroutes hmem => ?_, hnative,
    fun request hrequest hproject admitted hvet => ?_⟩
  · refine ⟨_, by rw [packageRoutes, hraw, ok_bind, hpaths, ok_bind], ?_⟩
    rw [List.map_map]
    exact List.mem_map_of_mem hpath
  · have howner := ownerOf_registered (accepted_of_validateContents (htogether.accepted q hq))
      hroutes hmem
    rw [hroute.ownerOf hslash] at howner
    have hname : p.name = q.name := String.toList_injective howner
    exact hne' (List.inj_on_of_nodup_map htogether.names hq hp hname.symm)
  · obtain ⟨visitor, -, hadmitted, -⟩ := vet_ok hvet
    have hpathText : admitted.uri.pathText = placeOf p.metadata.id ++ chars path.1 := by
      rw [hadmitted]
      exact hrequest
    have habsent : findProject s (segment (targetOf admitted.uri.pathText).tail) = .ok none := by
      rw [hpathText, hroute.target]
      simp only [segment_eq hslash hroute.below]
      exact hproject
    have hstd : chars p.metadata.name ≠ chars "std" := fun heq =>
      haccepted.notStd (String.toList_injective heq)
    have hmem : p.metadata.id ∈ s.libs := (hloads _).mpr ⟨p, hp, hlib, rfl⟩
    have hselect := hroute.selectLib hslash (find_lib htogether hloads hp hlib)
    refine ⟨?_, fun hparse => parse_tail (hrequest ▸ hparse)⟩
    rw [currentRouter, authorize, hvet]
    simp only
    rw [developmentRouter_absent habsent,
      hroute.routes hslash hne hstd hnative hmem rfl rfl hpathText, apiRoute]
    simp only [hpathText, hselect]

deriving instance DecidableEq for Metadata

def manifestOf (author name : String) : Json :=
  .obj [("format", .str "waz/1"), ("package", .obj [("author", .str author), ("name", .str name),
      ("version", .str "1.0.0"), ("title", .str name), ("description", .str "A library"),
      ("license", .str "MIT"), ("release-notes", .str "First")]),
    ("dependencies", .arr []), ("backend", .str "backend.wasm")]

def documentOf (path : String) : Json :=
  .obj [("openapi", .str "3.1.0"), ("info", .obj [("title", .str "API"), ("version", .str "1.0.0")]),
    ("paths", .obj [(path, .obj [("get", .obj [("operationId", .str "list"),
      ("summary", .str "List")])])])]

/-- A standard lib, whose paths bear its name, and an ordinary one. -/
def parseSample (data : Bytes) : Option Json :=
  [([1], manifestOf "std.dhttp.net" "notes"), ([2], manifestOf "alice.example" "shop"),
    ([3], documentOf "/notes/list"), ([4], documentOf "/items")].lookup data

def sampleTrust : Trust where
  sha256 := id
  decode _ := none
  parse := parseSample
  normalizeName := some
  parseUrl _ := none
  wazRead _ := .ok []
  root := []
  certificate _ := none
  keyIdentifier _ := none
  verifySignature _ _ _ := none
  verifyChain _ _ _ := .ok ()
  serverAuth _ _ := true
  validForName _ _ := true
  validateComponent _ := .ok ()
  capabilityRows _ := .ok []

def sampleParser : Parser where
  parts backend := [some ⟨.version true, none⟩,
    some ⟨.custom openApiName (backend.drop 8) (backend.length + 16), some (backend.length + 16)⟩]
  openApi raw := .ok ⟨"3.1.0", some [(if raw = [3] then "/notes/list" else "/items",
    ⟨false, [("GET", some "list")]⟩)]⟩
  text _ := ""
  grantee _ := true
  effect _ := true
  verifySignature _ _ _ _ := .ok ()

def installedOf (author name : String) (n : UInt8) : Installed where
  files := [("backend.wasm", magic ++ [n + 2]), ("manifest.json", [n])]
  metadata := ⟨author, name, "1.0.0", name, "A library", "MIT", "First", [], true, false, none⟩

def samplePackages : List Installed :=
  [installedOf "std.dhttp.net" "notes" 1, installedOf "alice.example" "shop" 2]

theorem noApps_valid : ∀ entry ∈ ([] : List (Id × Directory)), validName entry.1.name = true :=
  List.forall_mem_nil _

def sampleServer : Server where
  access := ⟨fun _ _ _ => .allowed, fun _ => none⟩
  owner := none
  libs := [⟨some "std.dhttp.net", "notes"⟩, ⟨some "alice.example", "shop"⟩]
  apps := []
  proxies := []
  projects _ := .ok none
  management path := below (chars "/std/acl") path || below (chars "/std/contact") path
  pathChar c := !whitespace c
  queryChar c := !whitespace c
  decode := some
  perform _ _ := .ok (200, [])
  valid := noApps_valid

def requestTo (path : String) : Authorization.Request where
  method := .get
  uri := .target (chars path) none
  fields := []
  handshake := some ⟨some ⟨"owner", []⟩, none⟩
  localAuthority := none
  visitor := none

theorem samplePackages_together : Together sampleTrust sampleParser samplePackages where
  accepted := by decide +kernel
  names := by decide

theorem sampleServer_loads : Loads sampleServer samplePackages := by
  intro id
  constructor
  · intro h
    obtain rfl | rfl : id = ⟨some "std.dhttp.net", "notes"⟩ ∨ id = ⟨some "alice.example", "shop"⟩ := by
      simpa [sampleServer] using h
    · exact ⟨_, List.mem_cons_self, rfl, rfl⟩
    · exact ⟨_, List.mem_cons_of_mem _ List.mem_cons_self, rfl, rfl⟩
  · rintro ⟨p, hp, -, rfl⟩
    obtain rfl | hp := List.mem_cons.mp hp
    · exact List.mem_cons_self
    · rw [List.mem_singleton.mp hp]
      exact List.mem_cons_of_mem _ List.mem_cons_self

theorem sampleServer_confined : Confined sampleServer.management := by
  intro path h
  change (below (chars "/std/acl") path || below (chars "/std/contact") path) = true at h
  rwa [Bool.or_eq_true, below_iff, below_iff] at h

/-- Both libs get their requests, and the ordinary one has no place below `/std`. -/
theorem route_agreement_mounted :
    (currentRouter sampleServer (requestTo "/std/notes/list")).source =
        .router (.lib ⟨some "std.dhttp.net", "notes"⟩ (chars "/notes/list")) ∧
      (currentRouter sampleServer (requestTo "/shop/items")).source =
        .router (.lib ⟨some "alice.example", "shop"⟩ (chars "/items")) ∧
      ¬Reaches (currentRouter sampleServer (requestTo "/std/shop/items")) := by
  have hagreement := route_agreement samplePackages_together sampleServer_loads sampleServer_confined
  have hnotes := hagreement.1 (installedOf "std.dhttp.net" "notes" 1) List.mem_cons_self [3]
    [("/notes/list", ⟨false, [("GET", some "list")]⟩)] (by decide +kernel) (by decide +kernel) _
    List.mem_cons_self
  have hshop := hagreement.1 (installedOf "alice.example" "shop" 2)
    (List.mem_cons_of_mem _ List.mem_cons_self) [4] [("/items", ⟨false, [("GET", some "list")]⟩)]
    (by decide +kernel) (by decide +kernel) _ List.mem_cons_self
  refine ⟨?_, ?_, ?_⟩
  · rw [(hnotes.2.2.2 (requestTo "/std/notes/list") rfl rfl _ rfl).1,
      finish_of_none rfl]
    exact respond_source
  · rw [(hshop.2.2.2 (requestTo "/shop/items") rfl rfl _ rfl).1,
      finish_of_none rfl]
    exact respond_source
  · exact hagreement.2 (requestTo "/std/shop/items") (chars "shop") (by decide)
      (.inr ⟨.inr ⟨chars "items", rfl⟩, by decide⟩) rfl

end Pishoo.RouteAgreement
