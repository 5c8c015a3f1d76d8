import Pishoo.AppAuthorization
import Pishoo.Forwarding

namespace Pishoo.GuestCalls

open Result PathText Authorization Router Forwarding

/-- The authority of a URI as `http` takes it apart. -/
structure Target where
  text : Text
  host : Text
  port : Option Text

/-- A request that a guest makes. -/
structure Call where
  method : Method
  scheme : Option Text
  target : Option Target
  uri : Uri
  fields : Fields

inductive HttpError
  | requestDenied
  | uriInvalid
  | protocolError
  | internalError

/-- What a call relies on besides names: the suffix that `~` stands for, the number of a certificate
chain among those of its name, the owner hashes, and the contacts with the owner stored for each. -/
structure Host extends Home where
  suffix : Text
  sequence : List (List UInt8) → Option Nat
  validOwner : String → Bool
  findContact : String → Except Unit (Option String)

/-- A call stays with the identity, or leaves for another one. -/
inductive Destination
  | own (request : Request)
  | remote (authority : Text) (owner : Option String) (request : Request)

def orError {α : Type} (x : Option α) (e : HttpError) : Except HttpError α :=
  match x with
  | some a => .ok a
  | none => .error e

def expand (host : Host) (endpoint : Endpoint) (name : Text) : Text :=
  if name = ['~'] then chars endpoint.name
  else name.flatMap fun c => if c = '~' then host.suffix else [c]

/-- The name with the number of its certificate. A number for the identity itself has to be its own. -/
def canonical (host : Host) (endpoint : Endpoint) (name : String) :
    Option Text → Except HttpError Text
  | none => .ok (chars name)
  | some port => do
      let number ← orError (parseU64 port) .uriInvalid
      failIf (host.validSequence number = false) .uriInvalid
      doIf (name = endpoint.name) do
        let own ← orError endpoint.authority .internalError
        let actual ← orError (host.sequence own.certificates) .requestDenied
        failIf (actual ≠ number) .requestDenied
      .ok (chars name ++ ':' :: chars (toString number))

/-- A request for another identity expects the owner that is stored for the contact, if it is one. -/
def sendRemote (host : Host) (name : String) (authority : Text) (request : Request) :
    Except HttpError Destination := do
  let contact ← (host.findContact name).mapError fun _ => .internalError
  let request := { request with
    fields := insert request.fields "host" (String.ofList authority) }
  match contact with
  | none => .ok (.remote authority none request)
  | some owner => do
      failIf (host.validOwner owner = false) .requestDenied
      .ok (.remote authority (some owner) request)

/-- `send_request`, up to the point where the request is handed on. -/
def sendRequest (host : Host) (endpoint : Endpoint) (call : Call) : Except HttpError Destination := do
  failIf (call.scheme ≠ some (chars "https")) .requestDenied
  let target ← orError call.target .uriInvalid
  failIf (target.text.contains '@' = true) .uriInvalid
  let name ← orError (host.normalizeName (String.ofList (expand host endpoint target.host))) .uriInvalid
  let authority ← canonical host endpoint name target.port
  failIf (host.validAuthority authority = false) .uriInvalid
  failIf (call.fields.any (·.1 == "trailer") = true) .protocolError
  let request : Request := ⟨call.method, call.uri, cleanHopHeaders call.fields, none, none, none⟩
  if name = endpoint.name then .ok (.own request) else sendRemote host name authority request

/-- Whom a guest acts for: the peer of the request that it serves, or the identity itself. -/
inductive Facts
  | caller (handshake : Handshake)
  | own (authority : Authority)

/-- A running guest with what it is told of the connection, and the facts that the host puts into its
calls. -/
structure Guest where
  «local» : Authority
  remote : Option Authority
  facts : Facts

def checkEndpoint (host : Host) (actual granted : Endpoint) : Except Nat Unit := do
  failIf (actual.name ≠ granted.name) misdirected
  let own ← orStatus actual.authority badGateway
  let other ← orStatus granted.authority badGateway
  let hash ← orStatus (host.ownerHash own.certificates) denied
  let hash' ← orStatus (host.ownerHash other.certificates) denied
  failIf (hash ≠ hash') misdirected

/-- `Invocation::new`, for a guest that may call out. -/
def invocation (host : Host) (endpoint granted : Endpoint) (handshake : Handshake) :
    Except Nat Guest := do
  let invoked ← orStatus handshake.local missingHandshake
  failIf (invoked.name ≠ endpoint.name) misdirected
  checkEndpoint host endpoint granted
  let actual ← orStatus endpoint.authority badGateway
  let hash ← orStatus (host.ownerHash actual.certificates) denied
  let hash' ← orStatus (host.ownerHash invoked.certificates) denied
  failIf (hash ≠ hash') misdirected
  .ok ⟨invoked, handshake.remote, .caller handshake⟩

/-- `Invocation::run`, which runs a guest in the background. -/
def background (host : Host) (endpoint granted : Endpoint) : Except Nat Guest := do
  let own ← orStatus endpoint.authority badGateway
  checkEndpoint host endpoint granted
  .ok ⟨own, none, .own own⟩

/-- The layer before the router that a guest calls. -/
def Guest.sends (g : Guest) (request : Request) : Request :=
  match g.facts with
  | .caller handshake =>
      { request with visitor := none, localAuthority := none, handshake := some handshake }
  | .own authority =>
      { request with visitor := none, handshake := none, localAuthority := some authority }

/-- What becomes of a request that the native services do not take. -/
inductive Passed
  | missing
  | forward (x : Except Nat Sent)
  | again (request : Request)

/-- Whether the path is below the mount of an ordinary lib. -/
def mounted (s : Server) (path : Text) : Bool :=
  s.libs.any fun id => !isStandard id && below ('/' :: chars id.name) path

/-- Whether there is something of that name below `dev`. -/
def localProject (s : Server) (name : Text) : Bool :=
  validProject name && match s.projects name with
    | .ok (some _) => true
    | _ => false

/-- The fallback of the native router. A request that the identity makes itself starts anew as one
of its owner. -/
def nativeFallback (host : Host) (endpoint : Endpoint) (s : Server) (request : Request) : Passed :=
  let path := request.uri.pathText
  let name := segment ((strip app path).getD (trimStart path))
  if !localProject s name && !starts standardPrefix path && !mounted s path then .missing
  else if request.handshake.isNone && request.localAuthority.isSome then
    .forward (forwardDhttp host.toHome endpoint { request with
      uri := .target (dhttpPrefix ++ chars endpoint.name ++ path) request.uri.query })
  else .again request

end Pishoo.GuestCalls
