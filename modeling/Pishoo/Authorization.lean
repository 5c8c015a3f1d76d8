import Pishoo.PathText

namespace Pishoo.Authorization

open PathText

inductive Method
  | get
  | head
  | post
  | put
  | patch
  | delete
  | options
  | trace
  | connect
  | extension (name : String)
  deriving DecidableEq

/-- A request target. Only one in authority form has no path. -/
inductive Uri
  | authority
  | target (path : Text) (query : Option Text)
  deriving DecidableEq

def Uri.pathText : Uri → Text
  | .authority => []
  | .target path _ => path

def Uri.query : Uri → Option Text
  | .authority => none
  | .target _ query => query

def withQuery (path : Text) : Option Text → Text
  | none => path
  | some query => path ++ '?' :: query

def Uri.pathAndQuery : Uri → Option Text
  | .authority => none
  | .target path query => some (withQuery path query)

/-- The header fields, with their names in lower case. -/
abbrev Fields := List (String × String)

/-- A named peer with its certificate chain. -/
structure Authority where
  name : String
  certificates : List (List UInt8)

structure Handshake where
  «local» : Option Authority
  remote : Option Authority

structure Visitor where
  name : String
  subject : String
  deriving DecidableEq

structure Request where
  method : Method
  uri : Uri
  fields : Fields
  handshake : Option Handshake
  localAuthority : Option Authority
  visitor : Option Visitor

/-- What `auth` is asked. -/
structure Headers where
  method : Method
  path : Text
  fields : Fields
  deriving DecidableEq

/-- How a review that is waited for ends. -/
inductive Answer
  | allow
  | deny
  | unavailable
  | timeout

inductive AuthResult
  | allowed
  | denied
  | reviewing (id : Int)
  | waiting (answer : Answer)
  | badRequest (message : String)
  | failed

/-- `AccessService::auth`, and `subject` for the subject id of a certificate chain. -/
structure Access where
  auth : Headers → Option String → Option String → AuthResult
  subject : List (List UInt8) → Option String

def missingHandshake : Nat := 500

def denied : Nat := 403

def visitorOf (access : Access) (peer : Authority) : Except Nat Visitor :=
  match access.subject peer.certificates with
  | some subject => .ok ⟨peer.name, subject⟩
  | none => .error denied

/-- The visitor is derived from the connection, never taken from the request. -/
def identify (access : Access) (request : Request) : Except Nat (Option Visitor) :=
  match request.handshake, request.localAuthority with
  | some handshake, _ =>
      if handshake.local.isNone then .error missingHandshake
      else match handshake.remote with
        | some remote => (visitorOf access remote).map some
        | none => .ok none
  | none, some peer => (visitorOf access peer).map some
  | none, none => .error missingHandshake

def reads : Method → Bool
  | .get | .head => true
  | _ => false

def app : Text := "/app/".toList

/-- The root of the frontend that is read, if there is one. -/
def appOf (request : Request) : Option Text :=
  (if reads request.method then strip app request.uri.pathText else none).bind fun tail =>
    if segment tail = [] then none else some (app ++ segment tail)

def headersOf (request : Request) : Headers where
  method := if (appOf request).isSome then .get else request.method
  path := (appOf request).getD (request.uri.pathAndQuery.getD ['/'])
  fields := request.fields

/-- The part of the server that has answered. -/
inductive Source (α : Type)
  | gate
  | router (source : α)

structure Response (α : Type) where
  source : Source α
  status : Nat
  fields : Fields

def refuse {α : Type} (status : Nat) : Response α := ⟨.gate, status, []⟩

def insert (fields : Fields) (name value : String) : Fields :=
  fields.filter (·.1 != name) ++ [(name, value)]

/-- `HeaderValue::from_str` takes visible ASCII characters, blanks and tabs. -/
def headerValue (s : String) : Bool :=
  s.toList.all fun c => c == '\t' || decide (' ' ≤ c ∧ c ≤ '~')

/-- The answer of the check, unless the request may pass. -/
def judge {α : Type} : AuthResult → Except (Response α) Unit
  | .allowed => .ok ()
  | .denied => .error (refuse denied)
  | .reviewing id => .error ⟨.gate, 202, [("cache-control", "no-store"),
      ("location", s!"/std/acl/status?id={id}"), ("retry-after", "3")]⟩
  | .waiting .allow => .ok ()
  | .waiting .deny => .error ⟨.gate, 403, [("cache-control", "no-store")]⟩
  | .waiting .unavailable => .error ⟨.gate, 503, [("cache-control", "no-store")]⟩
  | .waiting .timeout => .error ⟨.gate, 504, [("cache-control", "no-store")]⟩
  | .badRequest _ => .error (refuse 400)
  | .failed => .error (refuse 500)

/-- The part of `authorize` before the request is passed on. -/
def vet {α : Type} (access : Access) (request : Request) : Except (Response α) Request := do
  let request := { request with visitor := none }
  let visitor ← (identify access request).mapError refuse
  let request := { request with visitor := visitor }
  judge (access.auth (headersOf request) (visitor.map Visitor.name) (visitor.map Visitor.subject))
  .ok request

/-- A page of a frontend tells who is looking at it. -/
def finish {α : Type} (request : Request) (response : Response α) : Response α :=
  if (appOf request).isSome && request.method == .head then
    let name := (request.visitor.map Visitor.name).getD ""
    if headerValue name then
      { response with
        fields := insert (insert response.fields "pishoo-viewer-name" name) "cache-control" "no-store" }
    else refuse denied
  else response

def authorize {α : Type} (access : Access) (next : Request → Response α) (request : Request) :
    Response α :=
  match vet access request with
  | .error response => response
  | .ok request => finish request (next request)

end Pishoo.Authorization
