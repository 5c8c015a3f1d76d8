import Pishoo.Forwarding
import Pishoo.ProxyRules

namespace Pishoo.Upstream

open Result PathText Publication Authorization Forwarding ProxyRules

/-- A request over a connection to a local address. -/
structure Sent where
  address : SocketAddr
  method : Method
  target : Text
  fields : Fields

structure Response where
  status : Nat
  fields : Fields

/-- What the source of random numbers and the upstream answer. -/
structure Network where
  key : Except Error String
  send : Sent → Except Error Response
  upgrade : Except Error Unit

/-- An ordinary response with its own body, or one whose body is relayed. -/
inductive Answer
  | plain (response : Response)
  | relayed (response : Response)

def isWebsocket (request : Authorization.Request) (protocol : Option String) : Bool :=
  decide (request.method = .connect) && protocol == some "websocket"

def values (fields : Fields) (name : String) : List String :=
  (fields.filter (·.1 == name)).map Prod.snd

/-- The parts of values that are lists. -/
def listParts (values : List String) : List Text :=
  (values.filter headerValue).flatMap fun value => (value.toList.splitOn ',').map trim

def headerToken (fields : Fields) (name token : String) : Bool :=
  (listParts (values fields name)).any fun part => part.map Char.toLower == chars token

def checkWebsocket (fields : Fields) : Except Error Unit :=
  failIf ((values fields "sec-websocket-version").head? ≠ some "13" ∨ values fields "trailer" ≠ [])
    (.badRequest "WebSocket requires version 13 and no trailers")

/-- The request up to what is made of it for a WebSocket. -/
def outgoing (h : Http) (route : ProxyLocation) (request : Authorization.Request) : Except Error Sent := do
  let uri ← proxyUri h route ⟨request.uri.pathText, request.uri.query⟩
  let authority ← orElse uri.authority (.badRequest "invalid proxy authority")
  let address ← orElse (h.address authority) (.badRequest "invalid proxy address")
  failIf (uri.scheme ≠ some (chars "http") ∨ address.loopback = false)
    (.badRequest "proxy target must be local HTTP/TCP")
  .ok { address
        method := request.method
        target := (uri.pathAndQuery.map PathAndQuery.text).getD ['/']
        fields := insert (cleanHopHeaders request.fields) "host" (String.ofList authority) }

def upgraded (key : String) : List (String × String) :=
  [("connection", "Upgrade"), ("upgrade", "websocket"), ("sec-websocket-version", "13"),
    ("sec-websocket-key", key)]

def upgrading (key : String) (sent : Sent) : Sent :=
  { sent with
    method := .get
    fields := (upgraded key).foldl (fun fields field => insert fields field.1 field.2)
      (remove (remove sent.fields "content-length") "sec-websocket-accept") }

def cleaned (response : Response) : Response :=
  { response with fields := cleanHopHeaders response.fields }

def opened (response : Response) : Response :=
  ⟨200, remove (remove (cleanHopHeaders response.fields) "sec-websocket-accept") "content-length"⟩

def offers (fields : Fields) (protocol : String) : Bool :=
  (listParts (values fields "sec-websocket-protocol")).contains protocol.toList

/-- The protocols that an upstream has chosen. -/
def checkProtocol (offered : Fields) : List String → Except Error Unit
  | [] => .ok ()
  | protocol :: more => do
      failIf (headerValue protocol = false) (.io "failed to convert header to a str")
      failIf (protocol.toList = [] ∨ ',' ∈ protocol.toList ∨ (protocol :: more).length ≠ 1 ∨
          offers offered protocol = false)
        (.io "unoffered upstream WebSocket protocol")

/-- The checks of an upstream that has switched protocols. -/
def negotiate (accept : String → String) (key : String) (offered : Fields) (response : Response) :
    Except Error Unit := do
  failIf (headerToken response.fields "connection" "upgrade" = false ∨
      headerToken response.fields "upgrade" "websocket" = false ∨
      (values response.fields "sec-websocket-accept").length ≠ 1 ∨
      (values response.fields "sec-websocket-accept").head? ≠ some (accept key))
    (.io "invalid upstream WebSocket handshake")
  checkProtocol offered (values response.fields "sec-websocket-protocol")

def answer (n : Network) (accept : String → String) (key : String) (offered : Fields)
    (response : Response) : Except Error Answer :=
  if response.status ≠ 101 then
    if 200 ≤ response.status ∧ response.status < 300 then
      .error (.io "upstream did not upgrade WebSocket")
    else .ok (.plain (cleaned response))
  else do
    negotiate accept key offered response
    n.upgrade
    .ok (.relayed (opened response))

/-- `accept` is what a key is answered with: the digest of the key and of the protocol's own text. -/
def proxy (n : Network) (accept : String → String) (h : Http) (route : ProxyLocation)
    (request : Authorization.Request) (protocol : Option String) : Except Error Answer := do
  doIf (isWebsocket request protocol = true) (checkWebsocket request.fields)
  let sent ← outgoing h route request
  if isWebsocket request protocol then do
    let key ← n.key
    let response ← n.send (upgrading key sent)
    answer n accept key request.fields response
  else do
    let response ← n.send sent
    .ok (.plain (cleaned response))

/-- The upstream has accepted the key, and at most one protocol, which has been offered to it. -/
structure Switched (accept : String → String) (key : String) (offered : Fields)
    (response : Response) : Prop where
  status : response.status = 101
  connection : headerToken response.fields "connection" "upgrade" = true
  upgrade : headerToken response.fields "upgrade" "websocket" = true
  accepted : values response.fields "sec-websocket-accept" = [accept key]
  protocol : values response.fields "sec-websocket-protocol" = [] ∨ ∃ protocol,
    values response.fields "sec-websocket-protocol" = [protocol] ∧ headerValue protocol = true ∧
      protocol.toList ≠ [] ∧ ',' ∉ protocol.toList ∧ offers offered protocol = true

/-- What leaves for the upstream in place of the request, unless it is for a WebSocket. -/
structure Rewritten (h : Http) (request : Authorization.Request) (sent : Sent) : Prop where
  loopback : sent.address.loopback = true
  method : sent.method = request.method
  fields : ∃ authority, h.address authority = some sent.address ∧ ∀ field, field ∈ sent.fields ↔
    field ∈ request.fields ∧ ¬Hop request.fields field.1 ∧ field.1 ≠ "host" ∨
      field = ("host", String.ofList authority)

/-- The fields that a request for a WebSocket sets or must not have. -/
def upgradeNames : List String :=
  ["content-length", "sec-websocket-accept", "connection", "upgrade", "sec-websocket-version",
    "sec-websocket-key"]

/-- Its version is the one that is spoken, and no trailers are announced. -/
def Wanted (fields : Fields) : Prop :=
  (values fields "sec-websocket-version").head? = some "13" ∧ values fields "trailer" = []

section

variable {n : Network} {accept : String → String} {h : Http} {route : ProxyLocation}
  {request : Authorization.Request} {protocol : Option String} {sent : Sent} {key : String}
  {offered fields : Fields} {response r : Response} {field : String × String} {name : String}

theorem mem_remove : field ∈ remove fields name ↔ field ∈ fields ∧ field.1 ≠ name := by
  rw [remove, List.mem_filter, bne_iff_ne]

theorem outgoing_rewritten (hsent : outgoing h route request = .ok sent) :
    Rewritten h request sent := by
  obtain ⟨uri, -, hsent⟩ := bind_eq_ok.mp hsent
  obtain ⟨authority, -, hsent⟩ := bind_eq_ok.mp hsent
  obtain ⟨address, haddress, hsent⟩ := bind_eq_ok.mp hsent
  obtain ⟨_, hlocal, hsent⟩ := bind_eq_ok.mp hsent
  cases hsent
  rw [failIf_eq_ok, not_or, Bool.not_eq_false] at hlocal
  refine ⟨hlocal.2, rfl, authority, orElse_eq_ok.mp haddress, fun field => ?_⟩
  rw [mem_insert, mem_cleanHopHeaders, and_assoc]

/-- Fields that are set one after the other, each under its own name. -/
theorem mem_foldl_insert {added : List (String × String)} (h : (added.map Prod.fst).Nodup) :
    field ∈ added.foldl (fun fields f => insert fields f.1 f.2) fields ↔
      field ∈ fields ∧ field.1 ∉ added.map Prod.fst ∨ field ∈ added := by
  induction added generalizing fields with
  | nil => simp
  | cons first added ih =>
      rw [List.map_cons, List.nodup_cons] at h
      have hfirst : field = first → field.1 ∉ added.map Prod.fst := fun heq => heq ▸ h.1
      rw [List.foldl_cons, ih h.2, mem_insert, List.map_cons, List.mem_cons, List.mem_cons, not_or]
      tauto

theorem upgraded_names : ((upgraded key).map Prod.fst).Nodup := by
  simp [upgraded]

theorem mem_upgrading : field ∈ (upgrading key sent).fields ↔
    field ∈ sent.fields ∧ field.1 ∉ upgradeNames ∨ field ∈ upgraded key := by
  rw [upgrading, mem_foldl_insert upgraded_names, mem_remove, mem_remove]
  apply or_congr_left
  rw [and_assoc, and_assoc]
  apply and_congr_right
  intro _
  simp only [upgraded, upgradeNames, List.map_cons, List.map_nil, List.mem_cons, List.not_mem_nil,
    or_false, not_or]

theorem checkProtocol_eq_ok {chosen : List String} {u : Unit} :
    checkProtocol offered chosen = .ok u ↔ chosen = [] ∨ ∃ protocol, chosen = [protocol] ∧
      headerValue protocol = true ∧ protocol.toList ≠ [] ∧ ',' ∉ protocol.toList ∧
        offers offered protocol = true := by
  cases chosen with
  | nil => simp [checkProtocol]
  | cons first more =>
      simp only [checkProtocol, bind_eq_ok, failIf_eq_ok, not_or, not_not, Bool.not_eq_false,
        List.length_eq_one_iff, List.cons.injEq, reduceCtorEq, false_or]
      constructor
      · rintro ⟨-, hvalue, hne, hcomma, ⟨_, rfl, rfl⟩, hoffered⟩
        exact ⟨first, ⟨rfl, rfl⟩, hvalue, hne, hcomma, hoffered⟩
      · rintro ⟨protocol, ⟨rfl, rfl⟩, hvalue, hne, hcomma, hoffered⟩
        exact ⟨(), hvalue, hne, hcomma, ⟨first, rfl, rfl⟩, hoffered⟩

theorem negotiate_iff {u : Unit} :
    response.status = 101 ∧ negotiate accept key offered response = .ok u ↔
      Switched accept key offered response := by
  have hone {l : List String} {v : String} : l.length = 1 ∧ l.head? = some v ↔ l = [v] := by
    cases l with
    | nil => simp
    | cons w l => simp [and_comm]
  simp only [negotiate, bind_eq_ok, failIf_eq_ok, not_or, not_not, Bool.not_eq_false,
    checkProtocol_eq_ok, hone]
  constructor
  · rintro ⟨hstatus, -, ⟨hconnection, hupgrade, haccepted⟩, hprotocol⟩
    exact ⟨hstatus, hconnection, hupgrade, haccepted, hprotocol⟩
  · rintro ⟨hstatus, hconnection, hupgrade, haccepted, hprotocol⟩
    exact ⟨hstatus, (), ⟨hconnection, hupgrade, haccepted⟩, hprotocol⟩

theorem answer_relayed : answer n accept key offered response = .ok (.relayed r) ↔
    Switched accept key offered response ∧ n.upgrade = .ok () ∧ r = opened response := by
  rw [answer]
  by_cases hstatus : response.status = 101
  · rw [if_neg (not_not.mpr hstatus), ← negotiate_iff (u := ())]
    simp only [bind_eq_ok, Except.ok.injEq, Answer.relayed.injEq]
    constructor
    · rintro ⟨_, hnegotiated, _, hupgrade, rfl⟩
      exact ⟨⟨hstatus, hnegotiated⟩, hupgrade, rfl⟩
    · rintro ⟨⟨-, hnegotiated⟩, hupgrade, rfl⟩
      exact ⟨(), hnegotiated, (), hupgrade, rfl⟩
  · rw [if_pos hstatus]
    apply iff_of_false
    · split
      · rintro ⟨⟩
      · rintro ⟨⟩
    · rintro ⟨hswitched, -⟩
      exact hstatus hswitched.status

theorem answer_plain : answer n accept key offered response = .ok (.plain r) ↔
    response.status ≠ 101 ∧ ¬(200 ≤ response.status ∧ response.status < 300) ∧
      r = cleaned response := by
  rw [answer]
  by_cases hstatus : response.status = 101
  · rw [if_neg (not_not.mpr hstatus)]
    apply iff_of_false
    · intro h
      obtain ⟨_, -, h⟩ := bind_eq_ok.mp h
      obtain ⟨_, -, h⟩ := bind_eq_ok.mp h
      cases h
    · rintro ⟨hother, -⟩
      exact hother hstatus
  · rw [if_pos hstatus]
    by_cases hsuccess : 200 ≤ response.status ∧ response.status < 300
    · rw [if_pos hsuccess]
      apply iff_of_false
      · rintro ⟨⟩
      · rintro ⟨-, hother, -⟩
        exact hother hsuccess
    · rw [if_neg hsuccess, Except.ok.injEq, Answer.plain.injEq, eq_comm]
      exact ⟨fun h => ⟨hstatus, hsuccess, h⟩, fun h => h.2.2⟩

theorem checkWebsocket_eq_ok {u : Unit} : checkWebsocket fields = .ok u ↔ Wanted fields := by
  rw [checkWebsocket, failIf_eq_ok, not_or, not_not, not_not, Wanted]

theorem proxy_relayed : proxy n accept h route request protocol = .ok (.relayed r) ↔
    isWebsocket request protocol = true ∧ Wanted request.fields ∧ ∃ sent key response,
      outgoing h route request = .ok sent ∧ n.key = .ok key ∧
        n.send (upgrading key sent) = .ok response ∧
        Switched accept key request.fields response ∧ n.upgrade = .ok () ∧ r = opened response := by
  rw [proxy]
  by_cases hwebsocket : isWebsocket request protocol = true
  · simp only [hwebsocket, if_true, bind_eq_ok, doIf_eq_ok, checkWebsocket_eq_ok, answer_relayed,
      true_and, forall_const]
    constructor
    · rintro ⟨-, hwanted, sent, hsent, key, hkey, response, hresponse, hanswer⟩
      exact ⟨hwanted, sent, key, response, hsent, hkey, hresponse, hanswer⟩
    · rintro ⟨hwanted, sent, key, response, hsent, hkey, hresponse, hanswer⟩
      exact ⟨(), hwanted, sent, hsent, key, hkey, response, hresponse, hanswer⟩
  · apply iff_of_false
    · intro h
      obtain ⟨_, -, h⟩ := bind_eq_ok.mp h
      obtain ⟨_, -, h⟩ := bind_eq_ok.mp h
      rw [if_neg hwebsocket] at h
      obtain ⟨_, -, h⟩ := bind_eq_ok.mp h
      cases h
    · exact fun h => hwebsocket h.1

theorem proxy_plain : proxy n accept h route request protocol = .ok (.plain r) ↔
    ∃ sent response, outgoing h route request = .ok sent ∧ r = cleaned response ∧
      (isWebsocket request protocol = false ∧ n.send sent = .ok response ∨
        isWebsocket request protocol = true ∧ Wanted request.fields ∧
          (∃ key, n.key = .ok key ∧ n.send (upgrading key sent) = .ok response) ∧
          response.status ≠ 101 ∧ ¬(200 ≤ response.status ∧ response.status < 300)) := by
  rw [proxy]
  cases hwebsocket : isWebsocket request protocol with
  | true =>
      simp only [if_true, bind_eq_ok, doIf_eq_ok, checkWebsocket_eq_ok, answer_plain, true_and,
        forall_const, Bool.true_eq_false, false_and, false_or]
      constructor
      · rintro ⟨-, hwanted, sent, hsent, key, hkey, response, hresponse, hother, hfailed, hr⟩
        exact ⟨sent, response, hsent, hr, hwanted, ⟨key, hkey, hresponse⟩, hother, hfailed⟩
      · rintro ⟨sent, response, hsent, hr, hwanted, ⟨key, hkey, hresponse⟩, hother, hfailed⟩
        exact ⟨(), hwanted, sent, hsent, key, hkey, response, hresponse, hother, hfailed, hr⟩
  | false =>
      simp only [Bool.false_eq_true, if_false, bind_eq_ok, doIf_eq_ok, false_implies, true_and,
        false_and, or_false, Except.ok.injEq, Answer.plain.injEq]
      constructor
      · rintro ⟨-, sent, hsent, response, hresponse, rfl⟩
        exact ⟨sent, response, hsent, rfl, hresponse⟩
      · rintro ⟨sent, response, hsent, rfl, hresponse⟩
        exact ⟨(), sent, hsent, response, hresponse, rfl⟩

theorem mem_opened : field ∈ (opened response).fields ↔
    field ∈ response.fields ∧ ¬Hop response.fields field.1 ∧
      field.1 ≠ "sec-websocket-accept" ∧ field.1 ≠ "content-length" := by
  rw [opened, mem_remove, mem_remove, mem_cleanHopHeaders, and_assoc, and_assoc]

end

end Pishoo.Upstream
