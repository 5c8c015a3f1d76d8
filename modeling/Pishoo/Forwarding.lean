import Pishoo.Result
import Pishoo.Router

namespace Pishoo.Forwarding

open Result PathText Authorization Router

/-- What is relied on of `dhttp_home`: the canonical form of a name, the owner that a certificate
chain names, and which numbers count the certificates of a name. `validAuthority` says what `http`
takes as the authority of a URI. -/
structure Home where
  normalizeName : String → Option String
  ownerHash : List (List UInt8) → Option String
  validSequence : Nat → Bool
  validAuthority : Text → Bool

/-- An identity that the process runs, with the authority that it has loaded. -/
structure Endpoint where
  name : String
  authority : Option Authority

def misdirected : Nat := 421

def badGateway : Nat := 502

def hopNames : List String :=
  ["connection", "keep-alive", "proxy-connection", "proxy-authenticate", "proxy-authorization", "te",
    "transfer-encoding", "upgrade"]

def tokenChar (c : Char) : Bool :=
  c.isAlphanum || "!#$%&'*+-.^_`|~".toList.contains c

/-- `parse` of a header name. -/
def headerName (text : Text) : Option String :=
  if text ≠ [] ∧ text.all tokenChar = true then some (String.ofList (text.map Char.toLower)) else none

def blank (c : Char) : Bool := c == ' ' || c == '\t'

def trim (text : Text) : Text := (text.dropWhile blank).rdropWhile blank

/-- The names that a list of names in a header holds. -/
def listed (value : String) : List String :=
  if headerValue value then (value.toList.splitOn ',').filterMap fun part => headerName (trim part)
  else []

def named (fields : Fields) : List String :=
  (fields.filter (·.1 == "connection")).flatMap fun field => listed field.2

def remove (fields : Fields) (name : String) : Fields := fields.filter (·.1 != name)

def cleanHopHeaders (fields : Fields) : Fields :=
  hopNames.foldl remove ((named fields).foldl remove fields)

def digitValue (c : Char) : Nat := c.toNat - '0'.toNat

/-- `parse::<u64>`. -/
def parseU64 (text : Text) : Option Nat :=
  let digits := (strip ['+'] text).getD text
  if digits ≠ [] ∧ digits.all Char.isDigit = true then
    let value := digits.foldl (fun n c => 10 * n + digitValue c) 0
    if value < 18446744073709551616 then some value else none
  else none

/-- `split_once`. -/
def splitOnce (separator : Char) (text : Text) : Option (Text × Text) :=
  match text.dropWhile (· != separator) with
  | [] => none
  | _ :: rest => some (text.takeWhile (· != separator), rest)

def dhttpPrefix : Text := chars "/std/dhttp/"

def authorityOf (home : Home) (target : Text) : Except Nat Text := do
  let (name, sequence) := match splitOnce ':' target with
    | some (name, sequence) => (name, some sequence)
    | none => (target, none)
  let name ← orStatus (home.normalizeName (String.ofList name)) badRequest
  match sequence with
  | none => .ok (chars name)
  | some sequence => do
      let number ← orStatus (parseU64 sequence) badRequest
      failIf (home.validSequence number = false) badRequest
      .ok (chars name ++ ':' :: sequence)

/-- The URI that a request for a path below `/std/dhttp/` is sent to, with its authority. -/
def outboundUri (home : Home) (uri : Uri) : Except Nat (Uri × Text) := do
  let path ← orStatus (strip dhttpPrefix uri.pathText) routeNotFound
  let (target, suffix) := (splitOnce '/' path).getD (path, [])
  let authority ← authorityOf home target
  failIf (home.validAuthority authority = false) badRequest
  .ok (.target ('/' :: suffix) uri.query, authority)

/-- Only a request of the identity's owner is sent on in its name. -/
def checkOwner (home : Home) (endpoint : Endpoint) (request : Request) : Except Nat Unit :=
  match request.handshake, request.localAuthority with
  | some handshake, _ => do
      let own ← orStatus handshake.local missingHandshake
      let remote ← orStatus handshake.remote denied
      failIf (home.normalizeName own.name ≠ some endpoint.name ∨
        home.normalizeName remote.name ≠ some endpoint.name) denied
      let ownHash ← orStatus (home.ownerHash own.certificates) denied
      let remoteHash ← orStatus (home.ownerHash remote.certificates) denied
      failIf (ownHash ≠ remoteHash) denied
  | none, some own => do
      let actual ← orStatus endpoint.authority badGateway
      let ownHash ← orStatus (home.ownerHash own.certificates) denied
      let actualHash ← orStatus (home.ownerHash actual.certificates) denied
      failIf (own.name ≠ endpoint.name ∨ ownHash ≠ actualHash) denied
  | none, none => .error missingHandshake

/-- A request that leaves for another identity. -/
structure Sent where
  authority : Text
  request : Request

def forwardDhttp (home : Home) (endpoint : Endpoint) (request : Request) : Except Nat Sent := do
  checkOwner home endpoint request
  failIf (request.fields.any (·.1 == "trailer") = true) badRequest
  let (uri, authority) ← outboundUri home request.uri
  .ok ⟨authority, { request with
    uri := uri
    fields := insert (cleanHopHeaders request.fields) "host" (String.ofList authority)
    handshake := none
    localAuthority := none
    visitor := none }⟩

/-- What a body delivers next. -/
inductive Frame
  | data (bytes : List UInt8)
  | trailers
  | failed

/-- The bytes that are written for a body, and whether the writer is shut down after them. A writer
that is dropped before that resets the request. -/
def uploadBody : List Frame → List UInt8 × Bool
  | [] => ([], true)
  | .data bytes :: frames => (bytes ++ (uploadBody frames).1, (uploadBody frames).2)
  | .trailers :: _ => ([], false)
  | .failed :: _ => ([], false)

/-- The field says something about the connection, or a field that does so lists it. -/
def Hop (fields : Fields) (name : String) : Prop :=
  name ∈ hopNames ∨ ∃ value, ("connection", value) ∈ fields ∧ name ∈ listed value

/-- The peer of the connection is the owner of the identity, or a guest that acts for it. -/
def Owned (home : Home) (endpoint : Endpoint) (request : Request) : Prop :=
  (∃ handshake own remote hash, request.handshake = some handshake ∧ handshake.local = some own ∧
    handshake.remote = some remote ∧ home.normalizeName own.name = some endpoint.name ∧
      home.normalizeName remote.name = some endpoint.name ∧
      home.ownerHash own.certificates = some hash ∧ home.ownerHash remote.certificates = some hash) ∨
  ∃ own actual hash, request.handshake = none ∧ request.localAuthority = some own ∧
    endpoint.authority = some actual ∧ own.name = endpoint.name ∧
      home.ownerHash own.certificates = some hash ∧ home.ownerHash actual.certificates = some hash

/-- The path names `target` below `/std/dhttp/`, and goes on with `suffix`. -/
def Names (path target suffix : Text) : Prop :=
  '/' ∉ target ∧ (path = dhttpPrefix ++ target ∧ suffix = [] ∨
    path = dhttpPrefix ++ target ++ '/' :: suffix)

section

variable {home : Home} {endpoint : Endpoint} {request : Request} {fields : Fields} {name : String}
  {path target suffix authority : Text} {uri : Uri}

theorem orStatus_eq_ok {α : Type} {x : Option α} {status : Nat} {a : α} :
    orStatus x status = .ok a ↔ x = some a := by
  cases x with
  | none => exact iff_of_false (by rintro ⟨⟩) (by rintro ⟨⟩)
  | some b =>
      rw [orStatus, Except.ok.injEq, Option.some.injEq]

theorem mem_foldl_remove {names : List String} {field : String × String} :
    field ∈ names.foldl remove fields ↔ field ∈ fields ∧ field.1 ∉ names := by
  induction names generalizing fields with
  | nil => simp
  | cons name names ih =>
      rw [List.foldl_cons, ih, remove, List.mem_filter, bne_iff_ne, and_assoc, List.mem_cons, not_or]

theorem mem_named : name ∈ named fields ↔
    ∃ value, ("connection", value) ∈ fields ∧ name ∈ listed value := by
  simp only [named, List.mem_flatMap, List.mem_filter, beq_iff_eq]
  constructor
  · rintro ⟨⟨_, value⟩, ⟨hfield, rfl⟩, hname⟩
    exact ⟨value, hfield, hname⟩
  · rintro ⟨value, hfield, hname⟩
    exact ⟨("connection", value), ⟨hfield, rfl⟩, hname⟩

/-- What is left of the fields are those that do not concern the connection. -/
theorem mem_cleanHopHeaders {field : String × String} :
    field ∈ cleanHopHeaders fields ↔ field ∈ fields ∧ ¬Hop fields field.1 := by
  rw [cleanHopHeaders, mem_foldl_remove, mem_foldl_remove, mem_named, Hop, not_or, and_assoc,
    and_comm (a := ¬∃ _, _)]

theorem mem_insert {name value : String} {field : String × String} :
    field ∈ insert fields name value ↔ field ∈ fields ∧ field.1 ≠ name ∨ field = (name, value) := by
  rw [Authorization.insert, List.mem_append, List.mem_filter, bne_iff_ne, List.mem_singleton]

theorem checkOwner_eq_ok {u : Unit} :
    checkOwner home endpoint request = .ok u ↔ Owned home endpoint request := by
  unfold checkOwner
  cases hhandshake : request.handshake with
  | some handshake =>
      simp only [bind_eq_ok, orStatus_eq_ok, failIf_eq_ok, not_or, not_not, Owned, hhandshake]
      constructor
      · rintro ⟨own, hown, remote, hremote, _, ⟨hname, hname'⟩, hash, hhash, _, hhash', rfl⟩
        exact .inl ⟨handshake, own, remote, hash, rfl, hown, hremote, hname, hname', hhash, hhash'⟩
      · rintro (⟨_, own, remote, hash, hsame, hown, hremote, hname, hname', hhash, hhash'⟩ |
          ⟨_, _, _, hnone, -⟩)
        · cases hsame
          exact ⟨own, hown, remote, hremote, (), ⟨hname, hname'⟩, hash, hhash, hash, hhash', rfl⟩
        · cases hnone
  | none =>
      cases hlocal : request.localAuthority with
      | none =>
          refine iff_of_false (by rintro ⟨⟩) ?_
          rintro (⟨_, _, _, _, hsome, -⟩ | ⟨_, _, _, -, hsome, -⟩)
          · rw [hhandshake] at hsome
            cases hsome
          · rw [hlocal] at hsome
            cases hsome
      | some own =>
          simp only [bind_eq_ok, orStatus_eq_ok, failIf_eq_ok, not_or, not_not, Owned, hhandshake,
            hlocal]
          constructor
          · rintro ⟨actual, hactual, hash, hhash, _, hhash', hname, rfl⟩
            exact .inr ⟨own, actual, hash, trivial, rfl, hactual, hname, hhash, hhash'⟩
          · rintro (⟨_, _, _, _, hsome, -⟩ |
              ⟨_, actual, hash, -, hsame, hactual, hname, hhash, hhash'⟩)
            · cases hsome
            · cases hsame
              exact ⟨actual, hactual, hash, hhash, hash, hhash', hname, rfl⟩

theorem splitOnce_eq_some {separator : Char} {text before after : Text} :
    splitOnce separator text = some (before, after) ↔
      separator ∉ before ∧ text = before ++ separator :: after := by
  have hsplit := List.takeWhile_append_dropWhile (p := (· != separator)) (l := text)
  rw [splitOnce]
  constructor
  · intro h
    split at h
    · cases h
    · rename_i c rest hdrop
      cases h
      have hc := List.head?_dropWhile_not (· != separator) text
      rw [hdrop] at hc
      obtain rfl : c = separator := by simpa using hc
      rw [hdrop] at hsplit
      exact ⟨fun hmem => by simpa using List.mem_takeWhile_imp hmem, hsplit.symm⟩
  · rintro ⟨hbefore, rfl⟩
    have hall : ∀ c ∈ before, (c != separator) = true := fun c hc => by
      rw [bne_iff_ne]
      rintro rfl
      exact hbefore hc
    rw [List.dropWhile_append_of_pos hall, List.takeWhile_append_of_pos hall]
    simp

theorem splitOnce_eq_none {separator : Char} {text : Text} :
    splitOnce separator text = none ↔ separator ∉ text := by
  constructor
  · intro h hmem
    obtain ⟨before, after, rfl, hbefore⟩ := List.eq_append_cons_of_mem hmem
    rw [splitOnce_eq_some.mpr ⟨hbefore, rfl⟩] at h
    cases h
  · intro h
    cases hsplit : splitOnce separator text with
    | none => rfl
    | some parts =>
        obtain ⟨-, htext⟩ := splitOnce_eq_some.mp hsplit
        rw [htext] at h
        exact absurd (List.mem_append_right _ List.mem_cons_self) h

theorem outboundUri_eq_ok {sent : Uri} : outboundUri home uri = .ok (sent, authority) ↔
    ∃ target suffix, Names uri.pathText target suffix ∧ authorityOf home target = .ok authority ∧
      home.validAuthority authority = true ∧ sent = .target ('/' :: suffix) uri.query := by
  simp only [outboundUri, bind_eq_ok, orStatus_eq_ok, failIf_eq_ok, Bool.not_eq_false]
  constructor
  · rintro ⟨path, hpath, authority', hauthority, _, hvalid, hsent⟩
    cases hsent
    refine ⟨_, _, ?_, hauthority, hvalid, rfl⟩
    rw [strip_eq_some] at hpath
    cases hsplit : splitOnce '/' path with
    | none => exact ⟨splitOnce_eq_none.mp hsplit, .inl ⟨hpath, rfl⟩⟩
    | some parts =>
        obtain ⟨hslash, hparts⟩ := splitOnce_eq_some.mp hsplit
        rw [hparts, ← List.append_assoc] at hpath
        exact ⟨hslash, .inr hpath⟩
  · rintro ⟨target, suffix, ⟨hslash, hpath⟩, hauthority, hvalid, rfl⟩
    obtain ⟨hpath, rfl⟩ | hpath := hpath
    · refine ⟨target, strip_eq_some.mpr hpath, authority, ?_, (), hvalid, ?_⟩
      · rw [splitOnce_eq_none.mpr hslash]
        exact hauthority
      · rw [splitOnce_eq_none.mpr hslash]
        rfl
    · rw [List.append_assoc] at hpath
      refine ⟨target ++ '/' :: suffix, strip_eq_some.mpr hpath, authority, ?_, (), hvalid, ?_⟩
      · rw [splitOnce_eq_some.mpr ⟨hslash, rfl⟩]
        exact hauthority
      · rw [splitOnce_eq_some.mpr ⟨hslash, rfl⟩]
        rfl

theorem forwardDhttp_eq_ok {sent : Sent} : forwardDhttp home endpoint request = .ok sent ↔
    Owned home endpoint request ∧ (∀ field ∈ request.fields, field.1 ≠ "trailer") ∧
      ∃ uri, outboundUri home request.uri = .ok (uri, sent.authority) ∧
        sent.request = ⟨request.method, uri,
          insert (cleanHopHeaders request.fields) "host" (String.ofList sent.authority),
          none, none, none⟩ := by
  simp only [forwardDhttp, bind_eq_ok, checkOwner_eq_ok, failIf_eq_ok, List.any_eq_true, beq_iff_eq,
    not_exists, not_and]
  constructor
  · rintro ⟨_, howned, _, htrailer, ⟨uri, authority⟩, huri, hsent⟩
    cases hsent
    exact ⟨howned, htrailer, uri, huri, rfl⟩
  · rintro ⟨howned, htrailer, uri, huri, hrequest⟩
    obtain ⟨authority, request'⟩ := sent
    dsimp only at hrequest
    subst hrequest
    exact ⟨(), howned, (), htrailer, (uri, authority), huri, rfl⟩

/-- A body is written up to the first thing that is not data, and ends well only if there is none. -/
theorem uploadBody_spec (frames : List Frame) : ∃ (chunks : List (List UInt8)) (rest : List Frame),
    frames = chunks.map Frame.data ++ rest ∧ (∀ bytes, rest.head? ≠ some (.data bytes)) ∧
      (uploadBody frames).1 = chunks.flatten ∧ ((uploadBody frames).2 = true ↔ rest = []) := by
  induction frames with
  | nil => exact ⟨[], [], rfl, by rintro _ ⟨⟩, rfl, iff_of_true rfl rfl⟩
  | cons frame frames ih =>
      cases frame with
      | data bytes =>
          obtain ⟨chunks, rest, hframes, hrest, hbytes, hclosed⟩ := ih
          refine ⟨bytes :: chunks, rest, ?_, hrest, ?_, hclosed⟩
          · rw [List.map_cons, List.cons_append, ← hframes]
          · rw [uploadBody, List.flatten_cons, hbytes]
      | trailers =>
          exact ⟨[], .trailers :: frames, rfl, by rintro _ ⟨⟩, rfl,
            iff_of_false (by rintro ⟨⟩) (by rintro ⟨⟩)⟩
      | failed =>
          exact ⟨[], .failed :: frames, rfl, by rintro _ ⟨⟩, rfl,
            iff_of_false (by rintro ⟨⟩) (by rintro ⟨⟩)⟩

end

/-- A request below `/std/dhttp/` is sent on exactly if its peer is the owner, it announces no
trailers and its path names a target. It leaves without the facts of its connection and without the
fields of that connection, for the rest of its path, and its body ends well only when it is complete. -/
theorem dhttp_forwarded (home : Home) (endpoint : Endpoint) (request : Request) :
    (∀ sent, forwardDhttp home endpoint request = .ok sent ↔ Owned home endpoint request ∧
      (∀ field ∈ request.fields, field.1 ≠ "trailer") ∧
      ∃ target suffix, Names request.uri.pathText target suffix ∧
        authorityOf home target = .ok sent.authority ∧ home.validAuthority sent.authority = true ∧
        sent.request = ⟨request.method, .target ('/' :: suffix) request.uri.query,
          insert (cleanHopHeaders request.fields) "host" (String.ofList sent.authority),
          none, none, none⟩) ∧
    (∀ sent, forwardDhttp home endpoint request = .ok sent → ∀ field, field ∈ sent.request.fields ↔
      field ∈ request.fields ∧ ¬Hop request.fields field.1 ∧ field.1 ≠ "host" ∨
        field = ("host", String.ofList sent.authority)) ∧
    ∀ frames, ∃ (chunks : List (List UInt8)) (rest : List Frame),
      frames = chunks.map Frame.data ++ rest ∧
      (∀ bytes, rest.head? ≠ some (.data bytes)) ∧ (uploadBody frames).1 = chunks.flatten ∧
        ((uploadBody frames).2 = true ↔ rest = []) := by
  refine ⟨fun sent => ?_, fun sent h field => ?_, uploadBody_spec⟩
  · rw [forwardDhttp_eq_ok]
    refine and_congr_right fun _ => and_congr_right fun _ => ?_
    constructor
    · rintro ⟨uri, huri, hrequest⟩
      obtain ⟨target, suffix, hnames, hauthority, hvalid, rfl⟩ := outboundUri_eq_ok.mp huri
      exact ⟨target, suffix, hnames, hauthority, hvalid, hrequest⟩
    · rintro ⟨target, suffix, hnames, hauthority, hvalid, hrequest⟩
      exact ⟨_, outboundUri_eq_ok.mpr ⟨target, suffix, hnames, hauthority, hvalid, rfl⟩, hrequest⟩
  · obtain ⟨-, -, uri, -, hrequest⟩ := forwardDhttp_eq_ok.mp h
    rw [hrequest, mem_insert, mem_cleanHopHeaders, and_assoc]

end Pishoo.Forwarding
