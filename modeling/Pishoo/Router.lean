import Mathlib.Data.List.DropRight
import Pishoo.Authorization
import Pishoo.PackageId

namespace Pishoo.Router

open PathText Authorization

/-- What has answered behind the authorization: a native service, an installed lib or frontend, a
local project, a proxy or the router itself. -/
inductive Handler
  | native
  | lib (id : Id) (path : Text)
  | app (name : Text)
  | project (name path : Text)
  | projectApp (name : Text)
  | proxy (location : Text)
  | none

abbrev Reply : Type := Response Handler

def reply (handler : Handler) (status : Nat) (fields : Fields) : Reply :=
  ⟨.router handler, status, fields⟩

def routeNotFound : Nat := 404

def badRequest : Nat := 400

def standardPrefix : Text := chars "/std/"

/-- A directory of files, which may be nested, with the length of each file. -/
abbrev Directory : Type := List Text → Option Nat

/-- A project below `dev`. `app` and `load` open its frontend and its library. -/
structure Project where
  author : Except Nat String
  app : Except Nat Directory
  load : Except Nat Unit

structure ProxyLocation where
  location : Text

/-- A running server. `management` are the paths of the access control's own router, `pathChar` and
`queryChar` say what a request target may hold, and `perform` is the work behind the routes. The
rows of the frontends have been checked when they were read. -/
structure Server where
  access : Access
  owner : Option Visitor
  libs : List Id
  apps : List (Id × Directory)
  proxies : List ProxyLocation
  projects : Text → Except Nat (Option Project)
  management : Text → Bool
  pathChar : Char → Bool
  queryChar : Char → Bool
  decode : Text → Option Text
  perform : Handler → Request → Except Nat (Nat × Fields)
  valid : ∀ entry ∈ apps, validName entry.1.name = true

def Server.answer (s : Server) (handler : Handler) (request : Request) : Reply :=
  match s.perform handler request with
  | .ok (status, fields) => reply handler status fields
  | .error status => reply handler status []

def orStatus {α : Type} (x : Option α) (status : Nat) : Except Nat α :=
  match x with
  | some a => .ok a
  | none => .error status

/-- `parse` of a path and a query. -/
def Server.parse (s : Server) (path : Text) (query : Option Text) : Option Uri :=
  if path.all s.pathChar && query.all (·.all s.queryChar) then some (.target path query) else none

def hidden : List Text := [[], chars ".", chars "..", chars ".transaction.json", chars ".previous"]

def appFile (directory : Directory) (path : Text) : Option Nat :=
  let parts := path.splitOn '/'
  if parts.any (fun part => hidden.contains part || part.contains '\\' || part.contains '\x00') then
    none
  else directory parts

/-- The suffix of a frontend's path, decoded, unless it is dangerous. -/
def decodeSuffix (s : Server) (suffix : Text) : Except Nat Text := do
  let suffix ← orStatus (s.decode suffix) routeNotFound
  if suffix.contains '\\' || suffix.contains '\x00' || suffix.contains '%' ||
      (suffix.splitOn '/').any (fun part => part == chars "." || part == chars "..") ||
      suffix.any control then .error routeNotFound
  else .ok suffix

/-- A resource that is not answered with the index page when it is missing. -/
def isAsset (suffix : Text) (request : Request) : Bool :=
  starts (chars "/assets/") suffix || starts (chars "/static/") suffix ||
    suffix == chars "/assets" || suffix == chars "/static" ||
    (((suffix.rdropWhile (· == '/')).splitOn '/').getLastD []).contains '.' ||
    (request.fields.lookup "sec-fetch-dest").any fun value =>
      headerValue value && !(["document", "iframe", "empty"].contains value)

def pageFields (length : Nat) : Fields :=
  [("content-length", toString length), ("cache-control", "no-store"),
    ("x-content-type-options", "nosniff"), ("referrer-policy", "no-referrer"),
    ("cross-origin-resource-policy", "same-origin"), ("x-frame-options", "DENY")]

def openPage (directory : Directory) (suffix : Text) (request : Request) : Except Nat Nat :=
  let file := if suffix = ['/'] then chars "index.html" else trimStart suffix
  match appFile directory file with
  | some length => .ok length
  | none =>
      if isAsset suffix request then .error routeNotFound
      else orStatus (appFile directory (chars "index.html")) routeNotFound

def appResponse (s : Server) (directory : Directory) (suffix : Text) (request : Request) :
    Except Nat (Nat × Fields) :=
  if !reads request.method then .ok (405, [("allow", "GET, HEAD")])
  else if suffix = [] then
    .ok (307, [("location", String.ofList (withQuery (request.uri.pathText ++ ['/'])
      request.uri.query))])
  else do
    let suffix ← decodeSuffix s suffix
    let length ← openPage directory suffix request
    .ok (200, pageFields length)

def respond (handler : Handler) : Except Nat (Nat × Fields) → Reply
  | .ok (status, fields) => reply handler status fields
  | .error status => reply handler status []

/-- The author of an id; a legacy id is its own first part. -/
def firstPart (id : Id) : String := id.author.getD id.name

def isStandard (id : Id) : Bool := isStandardAuthor (firstPart id)

/-- The lib that a path selects, and the path that the guest sees. -/
def selectLib (s : Server) (path : Text) : Except Nat (Id × Text) := do
  let standard := starts standardPrefix path
  let tail := (strip standardPrefix path).getD ((strip ['/'] path).getD path)
  let name := segment tail
  let id ← orStatus (s.libs.find? fun id => isStandard id == standard && chars id.name == name)
    routeNotFound
  .ok (id, if standard then '/' :: tail
    else if afterSegment tail = [] then ['/'] else afterSegment tail)

/-- A guest sees the request under its own path. -/
def invoke (s : Server) (handler : Handler) (path : Text) (request : Request) : Reply :=
  respond handler do
    let _ ← orStatus request.handshake missingHandshake
    let uri ← orStatus (s.parse path request.uri.query) badRequest
    s.perform handler { request with uri := uri }

def apiRoute (s : Server) (request : Request) : Reply :=
  match selectLib s request.uri.pathText with
  | .ok (id, path) => invoke s (.lib id path) path request
  | .error status => reply .none status []

def frontend (s : Server) (request : Request) : Reply :=
  match strip app request.uri.pathText with
  | none => apiRoute s request
  | some tail =>
      match s.apps.find? fun entry => chars entry.1.name == segment tail with
      | some (_, directory) =>
          respond (.app (segment tail)) (appResponse s directory (afterSegment tail) request)
      | none => reply .none routeNotFound []

/-- The routes of `api_router`, but for its fallback. -/
inductive ApiRoute
  | reject
  | api

def apiTable (path : Text) : Option ApiRoute :=
  if path = chars "/std" then some .reject
  else if starts standardPrefix path && path != standardPrefix then some .api
  else none

def serveTable (s : Server) (request : Request) : ApiRoute → Reply
  | .reject => reply .none routeNotFound []
  | .api => apiRoute s request

def apiRouter (s : Server) (request : Request) : Reply :=
  match apiTable request.uri.pathText with
  | some route => serveTable s request route
  | none => frontend s request

def exactNative : List Text :=
  ["/std/acl/permissions", "/std/sys/listen", "/std/sys/mount", "/std/sys/pkg", "/std/sys/pkg/list",
    "/std/sys/pkg/install", "/std/file"].map chars

/-- The routes `{*path}` of the native services, which take a path that goes on. -/
def nestedNative : List Text := ["/std/file/", "/std/dhttp/"].map chars

def isNative (management : Text → Bool) (path : Text) : Bool :=
  exactNative.contains path || management path ||
    nestedNative.any fun start => starts start path && path != start

def trimEnd (path : Text) : Text := path.rdropWhile (· == '/')

def proxyMatches (path : Text) (p : ProxyLocation) : Bool :=
  starts ['/'] p.location && (p.location == ['/'] || path == trimEnd p.location ||
    starts (trimEnd p.location ++ ['/']) path)

/-- The longest of the locations, and the last one among equals. -/
def longest : List ProxyLocation → Option ProxyLocation
  | [] => none
  | p :: ps => match longest ps with
    | none => some p
    | some q => if q.location.length < p.location.length then some p else some q

def proxyPass (s : Server) (request : Request) : Reply :=
  let path := request.uri.pathText
  if reserved path then reply .none routeNotFound []
  else
    let exact := s.proxies.find? fun p => strip (chars "= ") p.location == some path
    let redirect := if exact.isSome then none else s.proxies.find? fun p =>
      p.location.getLast? == some '/' && trimEnd p.location == path
    match redirect with
    | some p => reply .none 301
        [("location", String.ofList (withQuery p.location request.uri.query))]
    | none => match exact.orElse fun _ => longest (s.proxies.filter (proxyMatches path)) with
      | some p => s.answer (.proxy p.location) request
      | none => reply .none routeNotFound []

/-- Whether an installed frontend or ordinary lib takes the path. -/
def installed (s : Server) (path : Text) : Bool :=
  (strip app path).any (fun tail => s.apps.any fun entry => chars entry.1.name == segment tail) ||
    s.libs.any fun id => !isStandard id && chars id.name == segment (trimStart path)

def routes (s : Server) (request : Request) : Reply :=
  let path := request.uri.pathText
  if isNative s.management path then s.answer .native request
  else match apiTable path with
    | some route => serveTable s request route
    | none => if installed s path then apiRouter s request else proxyPass s request

def validProject (name : Text) : Bool := validName (String.ofList name)

def nativeNames : List Text := ["sys", "acl", "contact", "dhttp", "file"].map chars

/-- Only the owner may look at a local project. -/
def requireOwner (s : Server) (request : Request) : Except Nat Unit :=
  if request.visitor.isSome && request.visitor == s.owner then .ok () else .error denied

def serveProject (s : Server) (name suffix : Text) (project : Project) (isFrontend : Bool)
    (request : Request) : Reply :=
  if isFrontend then
    respond (.projectApp name) do
      requireOwner s request
      let directory ← project.app
      appResponse s directory suffix request
  else
    let path := if suffix = [] then ['/'] else suffix
    match requireOwner s request, project.load with
    | .error status, _ => reply .none status []
    | _, .error status => reply .none status []
    | .ok (), .ok () => invoke s (.project name path) path request

/-- What a path asks for: a frontend, a standard lib or an ordinary one. -/
structure Target where
  isFrontend : Bool
  standard : Bool
  tail : Text

def targetOf (path : Text) : Target :=
  match strip app path with
  | some tail => ⟨true, false, tail⟩
  | none => match strip standardPrefix path with
    | some tail => ⟨false, true, tail⟩
    | none => ⟨false, false, trimStart path⟩

/-- The names that stay with the native services and the frontends. -/
def kept (target : Target) (name : Text) : Bool :=
  !target.isFrontend && (name == chars "app" || target.standard && nativeNames.contains name)

def findProject (s : Server) (name : Text) : Except Nat (Option Project) :=
  if validProject name then s.projects name else .ok none

def developmentRouter (s : Server) (fallback : Request → Reply) (request : Request) : Reply :=
  let target := targetOf request.uri.pathText
  let name := segment target.tail
  match findProject s name with
  | .error status => reply .none status []
  | .ok none => fallback request
  | .ok (some project) =>
      if kept target name then fallback request
      else match project.author with
        | .error status => reply .none status []
        | .ok author =>
            if !target.isFrontend && isStandardAuthor author != target.standard then
              fallback request
            else
              let suffix := if target.standard then '/' :: target.tail else afterSegment target.tail
              serveProject s name suffix project target.isFrontend request

def currentRouter (s : Server) (request : Request) : Reply :=
  authorize s.access (developmentRouter s (routes s)) request

/-- Who may answer a request for a path. -/
inductive Answers (s : Server) (path : Text) : Handler → Prop
  | native : Answers s path .native
  | none : Answers s path .none
  | proxy {location : Text} : Answers s path (.proxy location)
  | lib {id : Id} {guest : Text} : selectLib s path = .ok (id, guest) → Answers s path (.lib id guest)
  | app {tail : Text} : path = app ++ tail → segment tail ≠ [] → Answers s path (.app (segment tail))
  | project {project : Project} {guest : Text} :
      findProject s (segment (targetOf path).tail) = .ok (some project) →
      Answers s path (.project (segment (targetOf path).tail) guest)
  | projectApp {project : Project} :
      findProject s (segment (targetOf path).tail) = .ok (some project) →
      path = Authorization.app ++ (targetOf path).tail →
      Answers s path (.projectApp (segment (targetOf path).tail))

/-- One of those who may answer has answered. -/
def Answered (s : Server) (path : Text) (response : Reply) : Prop :=
  ∃ handler, response.source = .router handler ∧ Answers s path handler

section

variable {s : Server} {request : Request} {handler : Handler} {name : Text} {project : Project}

theorem respond_source {x : Except Nat (Nat × Fields)} :
    (respond handler x).source = .router handler := by
  cases x <;> rfl

theorem answer_source : (s.answer handler request).source = .router handler := by
  unfold Server.answer
  split <;> rfl

theorem reply_none_answered {path : Text} {status : Nat} {fields : Fields} :
    Answered s path (reply .none status fields) :=
  ⟨.none, rfl, .none⟩

theorem apiRoute_answered : Answered s request.uri.pathText (apiRoute s request) := by
  unfold apiRoute
  split
  · exact ⟨_, respond_source, .lib ‹_›⟩
  · exact reply_none_answered

theorem serveTable_answered {route : ApiRoute} :
    Answered s request.uri.pathText (serveTable s request route) := by
  cases route with
  | reject => exact reply_none_answered
  | api => exact apiRoute_answered

theorem name_ne_nil {id : Id} (h : validName id.name = true) : chars id.name ≠ [] := by
  intro hnil
  have hempty : id.name.toList = [] := hnil
  simp [validName, hempty] at h

theorem frontend_answered : Answered s request.uri.pathText (frontend s request) := by
  unfold frontend
  split
  · exact apiRoute_answered
  · rename_i tail htail
    split
    · rename_i id directory hfind
      have hvalid := s.valid _ (List.mem_of_find?_eq_some hfind)
      have hname : chars id.name = segment tail := by simpa using List.find?_some hfind
      exact ⟨_, respond_source, .app (strip_eq_some.mp htail) (hname ▸ name_ne_nil hvalid)⟩
    · exact reply_none_answered

theorem apiRouter_answered : Answered s request.uri.pathText (apiRouter s request) := by
  unfold apiRouter
  split
  · exact serveTable_answered
  · exact frontend_answered

theorem proxyPass_answered : Answered s request.uri.pathText (proxyPass s request) := by
  unfold proxyPass
  dsimp only
  split
  · exact reply_none_answered
  · split
    · exact reply_none_answered
    · split
      · exact ⟨_, answer_source, .proxy⟩
      · exact reply_none_answered

theorem routes_answered : Answered s request.uri.pathText (routes s request) := by
  unfold routes
  dsimp only
  split
  · exact ⟨_, answer_source, .native⟩
  · split
    · exact serveTable_answered
    · split
      · exact apiRouter_answered
      · exact proxyPass_answered

theorem findProject_name (h : findProject s name = .ok (some project)) : name ≠ [] := by
  rintro rfl
  have hinvalid : validProject [] = false := by decide
  simp [findProject, hinvalid] at h

theorem targetOf_isFrontend {path : Text} (h : (targetOf path).isFrontend = true) :
    path = app ++ (targetOf path).tail := by
  unfold targetOf at h ⊢
  split
  · rename_i tail htail
    exact strip_eq_some.mp htail
  · rename_i hnone
    rw [hnone] at h
    dsimp only at h
    split at h <;> cases h

theorem serveProject_answered {path suffix : Text} {isFrontend : Bool}
    (hproject : findProject s (segment (targetOf path).tail) = .ok (some project))
    (hfrontend : isFrontend = true → path = app ++ (targetOf path).tail) :
    Answered s path (serveProject s (segment (targetOf path).tail) suffix project isFrontend request) := by
  unfold serveProject
  dsimp only
  split
  · rename_i h
    exact ⟨_, respond_source, .projectApp hproject (hfrontend h)⟩
  · split
    · exact reply_none_answered
    · exact reply_none_answered
    · exact ⟨_, respond_source, .project hproject⟩

theorem developmentRouter_answers (s : Server) (request : Request) :
    Answered s request.uri.pathText (developmentRouter s (routes s) request) := by
  unfold developmentRouter
  dsimp only
  split
  · exact reply_none_answered
  · exact routes_answered
  · rename_i project hproject
    split
    · exact routes_answered
    · split
      · exact reply_none_answered
      · split
        · exact routes_answered
        · exact serveProject_answered hproject targetOf_isFrontend

/-- Without a project of the name the request goes on to the installed packages. -/
theorem developmentRouter_absent {fallback : Request → Reply}
    (h : findProject s (segment (targetOf request.uri.pathText).tail) = .ok none) :
    developmentRouter s fallback request = fallback request := by
  rw [developmentRouter]
  simp only [h]

end

end Pishoo.Router
