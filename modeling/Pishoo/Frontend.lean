import Pishoo.InstalledRoutes

namespace Pishoo.Frontend

open Result PathText Authorization Router Publication FileTree WazAccounting Expanded InstalledRoutes

/-- A part that `app_file` refuses. -/
def refused (part : Text) : Bool :=
  Router.hidden.contains part || part.contains '\\' || part.contains '\x00'

def orNotFound {α : Type} (x : Except Error α) : Except Nat α := x.mapError fun _ => routeNotFound

def openParts (t : Tree) (parent : List Text) : List Text → Except Nat Bytes
  | [] => .error routeNotFound
  | [part] => do
      failIf (refused part = true) routeNotFound
      orNotFound (expandedFile t parent part)
  | part :: next :: rest => do
      failIf (refused part = true) routeNotFound
      let child ← orNotFound (childDir t parent part)
      openParts t child (next :: rest)

def appFile (t : Tree) (path : Text) : Except Nat Bytes := openParts t [] (path.splitOn '/')

/-- A file of the frontend that has been opened. -/
structure Opened where
  file : Text
  content : Bytes
  deriving DecidableEq

def openPage (t : Tree) (suffix : Text) (request : Authorization.Request) : Except Nat Opened :=
  let file := if suffix = ['/'] then chars "index.html" else trimStart suffix
  match appFile t file with
  | .ok content => .ok ⟨file, content⟩
  | .error _ =>
      if isAsset suffix request then .error routeNotFound
      else do
        let content ← appFile t (chars "index.html")
        .ok ⟨chars "index.html", content⟩

/-- An answer with the file that it comes from. -/
structure Page where
  status : Nat
  fields : Fields
  file : Option Text
  body : Bytes
  deriving DecidableEq

def pageOf (method : Method) (opened : Opened) : Page :=
  ⟨200, pageFields opened.content.length, some opened.file,
    if method = .head then [] else opened.content⟩

def appResponse (s : Server) (t : Tree) (suffix : Text) (request : Authorization.Request) : Except Nat Page :=
  if !reads request.method then .ok ⟨405, [("allow", "GET, HEAD")], none, []⟩
  else if suffix = [] then
    .ok ⟨307, [("location", String.ofList (withQuery (request.uri.pathText ++ ['/'])
      request.uri.query))], none, []⟩
  else do
    let suffix ← decodeSuffix s suffix
    let opened ← openPage t suffix request
    .ok (pageOf request.method opened)

/-- The lengths of the files, which is all that the router looks at. -/
def directoryOf (t : Tree) : Directory := fun parts =>
  match t.find parts with
  | some (.file content) => some content.length
  | _ => none

/-- The bytes of a text in UTF-8. -/
def utf8 (text : Text) : Bytes := text.flatMap String.utf8EncodeChar

def hexValue (c : Char) : Option Nat :=
  if '0' ≤ c ∧ c ≤ '9' then some (c.toNat - 48)
  else if 'A' ≤ c ∧ c ≤ 'F' then some (c.toNat - 55)
  else if 'a' ≤ c ∧ c ≤ 'f' then some (c.toNat - 87)
  else none

/-- A percent-encoding writes each byte as a percent sign and two digits, or leaves a character as
it is. -/
inductive PercentEncoded : Text → Bytes → Prop
  | nil : PercentEncoded [] []
  | raw {c : Char} {text : Text} {bytes : Bytes} : c ≠ '%' → PercentEncoded text bytes →
      PercentEncoded (c :: text) (String.utf8EncodeChar c ++ bytes)
  | escaped {first second : Char} {b : UInt8} {text : Text} {bytes : Bytes} :
      hexValue first = some (b.toNat / 16) → hexValue second = some (b.toNat % 16) →
      PercentEncoded text bytes → PercentEncoded ('%' :: first :: second :: text) (b :: bytes)

/-- Decoding undoes every percent-encoding. -/
def Decodes (decode : Text → Option Text) : Prop :=
  ∀ encoded text, PercentEncoded encoded (utf8 text) → decode encoded = some text

/-- Every packaged file is served at each encoding of its path. -/
def Served (s : Server) (t : Tree) (files : Files) : Prop :=
  ∀ relative content, Public files relative content → ∀ encoded, PercentEncoded encoded (utf8 relative) →
    ∀ request : Authorization.Request, request.method = .get →
      appResponse s t ('/' :: encoded) request = .ok (pageOf .get ⟨relative, content⟩)

/-- Nothing but the file at the decoded path, or the index page, is served. -/
def Confined (s : Server) (t : Tree) (files : Files) : Prop :=
  ∀ suffix request page, appResponse s t suffix request = .ok page → page.status = 200 →
    ∃ decoded opened, s.decode suffix = some decoded ∧ page = pageOf request.method opened ∧
      (opened.file = trimStart decoded ∨ opened.file = chars "index.html") ∧
      Public files opened.file opened.content

section

variable {s : Server} {t : Tree} {files : Files} {parent parts : List Text} {part path relative : Text}
  {content : Bytes} {request : Authorization.Request} {opened : Opened}

theorem orNotFound_eq_ok {α : Type} {x : Except Error α} {a : α} : orNotFound x = .ok a ↔ x = .ok a :=
  mapError_eq_ok

theorem refused_eq_false : refused part = false ↔
    part ∉ Router.hidden ∧ '\\' ∉ part ∧ '\x00' ∉ part := by
  simp [refused, and_assoc]

theorem badPart_of_refused (h : refused part = false) : badPart part = false := by
  obtain ⟨hhidden, hslash, -⟩ := refused_eq_false.mp h
  simp only [Router.hidden, List.mem_cons, not_or] at hhidden
  simp [badPart, hhidden.1, hhidden.2.1, hhidden.2.2.1, hslash]

theorem expandedFile_eq_ok (hslash : '/' ∉ part) (hpart : badPart part = false) :
    expandedFile t parent part = .ok content ↔ t.find (parent ++ [part]) = some (.file content) := by
  have hpass : failIf (badPart part = true) expandedError = .ok () := by simp [hpart]
  rw [expandedFile, List.splitOn_eq_singleton hslash, openFile, hpass, ok_bind]
  cases t.find (parent ++ [part]) with
  | none => constructor <;> rintro ⟨⟩
  | some entry =>
      cases entry with
      | dir => constructor <;> rintro ⟨⟩
      | file content' => simp

theorem openParts_eq_ok (hslash : ∀ part ∈ parts, '/' ∉ part) (hne : parts ≠ []) :
    openParts t parent parts = .ok content ↔
      (∀ part ∈ parts, refused part = false) ∧ t.find (parent ++ parts) = some (.file content) := by
  induction parts generalizing parent with
  | nil => exact absurd rfl hne
  | cons part rest ih =>
      obtain ⟨hpart, hrest⟩ := List.forall_mem_cons.mp hslash
      cases rest with
      | nil =>
          rw [openParts, bind_eq_ok]
          simp only [failIf_eq_ok, Bool.not_eq_true, List.forall_mem_singleton, orNotFound_eq_ok]
          constructor
          · rintro ⟨_, hrefused, hfile⟩
            exact ⟨hrefused, (expandedFile_eq_ok hpart (badPart_of_refused hrefused)).mp hfile⟩
          · rintro ⟨hrefused, hfind⟩
            exact ⟨(), hrefused, (expandedFile_eq_ok hpart (badPart_of_refused hrefused)).mpr hfind⟩
      | cons next rest =>
          have happend : parent ++ [part] ++ next :: rest = parent ++ part :: next :: rest := by simp
          rw [openParts, bind_eq_ok, List.forall_mem_cons]
          constructor
          · rintro ⟨_, hrefused, h⟩
            obtain ⟨child, hchild, h⟩ := bind_eq_ok.mp h
            obtain ⟨-, rfl⟩ := childDir_eq_ok (orNotFound_eq_ok.mp hchild)
            obtain ⟨hparts, hfind⟩ := (ih hrest (by simp)).mp h
            exact ⟨⟨by simpa using hrefused, hparts⟩, happend ▸ hfind⟩
          · rintro ⟨⟨hrefused, hparts⟩, hfind⟩
            have hdir : t.find (parent ++ [part]) = some .dir := by
              rw [← happend] at hfind
              exact Tree.find_prefix (by simp) hfind
            have hchild : orNotFound (childDir t parent part) = .ok (parent ++ [part]) :=
              orNotFound_eq_ok.mpr (mapError_eq_ok.mpr (Tree.openDir_eq_ok.mpr ⟨hdir, rfl⟩))
            refine ⟨(), by simpa using hrefused, bind_eq_ok.mpr ⟨_, hchild, ?_⟩⟩
            exact (ih hrest (by simp)).mpr ⟨hparts, happend ▸ hfind⟩

/-- What can be opened is a packaged file none of whose parts is refused. -/
theorem appFile_eq_ok (h : AllWritten .empty files t) : appFile t path = .ok content ↔
    (∀ part ∈ path.splitOn '/', refused part = false) ∧ Public files path content := by
  rw [appFile, openParts_eq_ok (fun part => slash_not_mem_part) (List.splitOn_ne_nil _ _),
    List.nil_append, find_file_iff h]
  refine and_congr_right fun _ => ⟨?_, fun hpublic => ⟨path, hpublic, rfl⟩⟩
  rintro ⟨relative, hpublic, hparts⟩
  have hjoined := congrArg (['/'].intercalate ·) hparts
  rw [List.intercalate_splitOn, List.intercalate_splitOn] at hjoined
  exact hjoined ▸ hpublic

/-- What `waz_path` says of a path and of each of its parts. -/
structure Named (path : Text) : Prop where
  char : ∀ c ∈ path, c ≠ '\\' ∧ c ≠ '%' ∧ control c = false
  part : ∀ part ∈ path.splitOn '/', part ≠ [] ∧ part ≠ chars "." ∧ part ≠ chars ".."

theorem named_of_public (htidy : Tidy files) (h : Public files relative content) : Named relative := by
  obtain ⟨file, hfile, hpublic, -⟩ := h
  have hpath := htidy.paths file hfile
  simp only [Waz.wazPath, Bool.and_eq_true, Bool.not_eq_true', List.any_eq_false] at hpath
  obtain ⟨⟨⟨⟨⟨-, hbad⟩, hcontrol⟩, -⟩, hparts⟩, -⟩ := hpath
  rw [public_splitOn hpublic] at hparts
  refine ⟨fun c hc => ?_, fun part hpart => ?_⟩
  · have hmem : c ∈ chars file.1 := strip_eq_some.mp hpublic ▸ List.mem_append_right _ hc
    have hchar := hbad c hmem
    have hplain := hcontrol c hmem
    simp only [List.contains_iff_mem, List.mem_cons, not_or, Bool.or_eq_true, Bool.not_eq_true] at hchar hplain
    exact ⟨hchar.1, hchar.2.2.2.2.1, hplain.1⟩
  · have hpart := hparts part (List.mem_cons_of_mem _ hpart)
    simp only [List.contains_iff_mem, List.mem_cons, not_or] at hpart
    exact ⟨hpart.1, hpart.2.1, hpart.2.2.1⟩

theorem Named.slash_ne (h : Named path) : path ≠ [] ∧ path.head? ≠ some '/' := by
  constructor
  · rintro rfl
    exact (h.part [] (by simp)).1 rfl
  · intro hhead
    obtain ⟨rest, rfl⟩ := List.head?_eq_some_iff.mp hhead
    have hmem : [] ∈ ('/' :: rest).splitOn '/' := by
      rw [List.splitOn_cons_eq_if_modifyHead]
      simp
    exact (h.part [] hmem).1 rfl

theorem nul_control {c : Char} (h : control c = false) : c ≠ '\x00' := by
  rintro rfl
  exact absurd h (by decide)

theorem refused_of_named (h : Named path) (hpart : part ∈ path.splitOn '/') :
    refused part = isRecovery part := by
  obtain ⟨hnil, hdot, hdots⟩ := h.part part hpart
  have hchars : '\\' ∉ part ∧ '\x00' ∉ part :=
    ⟨fun hc => (h.char _ (mem_of_mem_part hpart hc)).1 rfl,
      fun hc => nul_control (h.char _ (mem_of_mem_part hpart hc)).2.2 rfl⟩
  simp [refused, Router.hidden, isRecovery, recoveryNames, hnil, hdot, hdots, hchars]

/-- A packaged file can be opened unless a part of its path is kept for recovery. -/
theorem appFile_public (htidy : Tidy files) (h : AllWritten .empty files t)
    (hpublic : Public files relative content) :
    (∃ content', appFile t relative = .ok content') ↔ Plain (relative.splitOn '/') := by
  have hnamed := named_of_public htidy hpublic
  constructor
  · rintro ⟨content', hopen⟩ part hpart
    rw [← refused_of_named hnamed hpart]
    exact ((appFile_eq_ok h).mp hopen).1 part hpart
  · intro hplain
    refine ⟨content, (appFile_eq_ok h).mpr ⟨fun part hpart => ?_, hpublic⟩⟩
    rw [refused_of_named hnamed hpart]
    exact hplain part hpart

theorem decodeSuffix_named {suffix : Text} (hdecode : s.decode suffix = some ('/' :: path))
    (h : Named path) : decodeSuffix s suffix = .ok ('/' :: path) := by
  have hchars : ∀ c ∈ '/' :: path, c ≠ '\\' ∧ c ≠ '\x00' ∧ c ≠ '%' ∧ control c = false := by
    intro c hc
    obtain rfl | hc := List.mem_cons.mp hc
    · decide
    · obtain ⟨hslash, hpercent, hcontrol⟩ := h.char c hc
      exact ⟨hslash, nul_control hcontrol, hpercent, hcontrol⟩
  have hsplit : ('/' :: path).splitOn '/' = [] :: path.splitOn '/' := by
    rw [List.splitOn_cons_eq_if_modifyHead]
    simp
  have hcontains (c : Char) (hc : c ∈ ['\\', '\x00', '%']) : ('/' :: path).contains c = false := by
    cases hmem : ('/' :: path).contains c with
    | false => rfl
    | true =>
        obtain ⟨h₁, h₂, h₃, -⟩ := hchars c (List.contains_iff_mem.mp hmem)
        simp [h₁, h₂, h₃] at hc
  have hdots : (('/' :: path).splitOn '/').any (fun part => part == chars "." || part == chars "..") =
      false := by
    rw [hsplit, List.any_eq_false]
    intro part hpart
    obtain rfl | hpart := List.mem_cons.mp hpart
    · decide
    · obtain ⟨-, hdot, hdots⟩ := h.part part hpart
      simp [hdot, hdots]
  have hcontrol : ('/' :: path).any control = false := by
    rw [List.any_eq_false]
    intro c hc
    simp [(hchars c hc).2.2.2]
  rw [decodeSuffix, hdecode, orStatus, ok_bind, hcontains _ (by simp), hcontains _ (by simp),
    hcontains _ (by simp), hdots, hcontrol]
  rfl

theorem trimStart_named (h : Named path) : trimStart ('/' :: path) = path := by
  obtain ⟨hne, hhead⟩ := h.slash_ne
  obtain ⟨c, rest, rfl⟩ := List.exists_cons_of_ne_nil hne
  have hc : c ≠ '/' := fun hc => hhead (by rw [hc]; rfl)
  simp [trimStart, hc]

/-- What the request asks for. -/
def askedFile (suffix : Text) : Text :=
  if suffix = ['/'] then chars "index.html" else trimStart suffix

theorem openPage_spec {suffix : Text} (h : openPage t suffix request = .ok opened) :
    appFile t opened.file = .ok opened.content ∧
      (opened.file = askedFile suffix ∨ opened.file = chars "index.html") := by
  unfold openPage at h
  dsimp only at h
  split at h
  · rename_i content hcontent
    cases h
    exact ⟨hcontent, .inl rfl⟩
  · split at h
    · cases h
    · obtain ⟨content, hcontent, h⟩ := bind_eq_ok.mp h
      cases h
      exact ⟨hcontent, .inr rfl⟩

theorem openPage_of_appFile {suffix : Text} (h : appFile t (askedFile suffix) = .ok content) :
    openPage t suffix request = .ok ⟨askedFile suffix, content⟩ := by
  rw [askedFile] at h
  unfold openPage
  dsimp only
  rw [h]
  rfl

theorem decodeSuffix_spec {suffix decoded : Text} (h : decodeSuffix s suffix = .ok decoded) :
    s.decode suffix = some decoded := by
  obtain ⟨decoded', hdecode, h⟩ := bind_eq_ok.mp h
  have hsome : s.decode suffix = some decoded' := by
    cases hvalue : s.decode suffix with
    | none =>
        rw [hvalue] at hdecode
        cases hdecode
    | some text =>
        rw [hvalue] at hdecode
        cases hdecode
        rfl
  split at h
  · cases h
  · cases h
    exact hsome

theorem appResponse_ok {suffix : Text} {page : Page} (h : appResponse s t suffix request = .ok page)
    (hstatus : page.status = 200) : ∃ decoded opened, decodeSuffix s suffix = .ok decoded ∧
      openPage t decoded request = .ok opened ∧ page = pageOf request.method opened := by
  unfold appResponse at h
  split at h
  · cases h
    cases hstatus
  · split at h
    · cases h
      cases hstatus
    · obtain ⟨decoded, hdecoded, h⟩ := bind_eq_ok.mp h
      obtain ⟨opened, hopened, h⟩ := bind_eq_ok.mp h
      cases h
      exact ⟨decoded, opened, hdecoded, hopened, rfl⟩

theorem confined (h : AllWritten .empty files t) : Confined s t files := by
  intro suffix request page hpage hstatus
  obtain ⟨decoded, opened, hdecoded, hopened, rfl⟩ := appResponse_ok hpage hstatus
  obtain ⟨hcontent, hfile⟩ := openPage_spec hopened
  refine ⟨decoded, opened, decodeSuffix_spec hdecoded, rfl, ?_, ((appFile_eq_ok h).mp hcontent).2⟩
  obtain hasked | hindex := hfile
  · unfold askedFile at hasked
    split at hasked
    · exact .inr hasked
    · exact .inl hasked
  · exact .inr hindex

theorem encoded_slash {encoded : Text} (hdecode : Decodes s.decode)
    (h : PercentEncoded encoded (utf8 path)) : s.decode ('/' :: encoded) = some ('/' :: path) :=
  hdecode _ _ (.raw (by decide) h)

theorem encoded_self (h : '%' ∉ path) : PercentEncoded path (utf8 path) := by
  induction path with
  | nil => exact .nil
  | cons c path ih =>
      rw [List.mem_cons, not_or] at h
      exact .raw (Ne.symm h.1) (ih h.2)

theorem askedFile_named (h : Named path) : askedFile ('/' :: path) = path := by
  rw [askedFile, if_neg (by simpa using h.slash_ne.1), trimStart_named h]

/-- Up to the opening of the file, the request for a packaged path goes through. -/
theorem appResponse_named {encoded : Text} (hdecode : Decodes s.decode) (h : Named path)
    (hencoded : PercentEncoded encoded (utf8 path)) (hget : request.method = .get) :
    appResponse s t ('/' :: encoded) request =
      (openPage t ('/' :: path) request >>= fun opened => .ok (pageOf .get opened)) := by
  have hreads : (!reads request.method) = false := by
    rw [hget]
    rfl
  rw [appResponse, hreads, if_neg (by simp), if_neg (by simp),
    decodeSuffix_named (encoded_slash hdecode hencoded) h, ok_bind, hget]

theorem served_iff (htidy : Tidy files) (h : AllWritten .empty files t) (hdecode : Decodes s.decode) :
    Served s t files ↔ Unreserved files := by
  constructor
  · intro hserved relative content hpublic
    have hnamed := named_of_public htidy hpublic
    have hencoded := encoded_self fun hmem => (hnamed.char _ hmem).2.1 rfl
    let request : Authorization.Request := ⟨.get, .authority, [], none, none, none⟩
    have hanswer := hserved relative content hpublic relative hencoded request rfl
    rw [appResponse_named hdecode hnamed hencoded rfl] at hanswer
    obtain ⟨opened, hopened, hpage⟩ := bind_eq_ok.mp hanswer
    have hfile : opened.file = relative := by
      have hsome := congrArg Page.file (Except.ok.inj hpage)
      exact Option.some.inj hsome
    obtain ⟨hcontent, -⟩ := openPage_spec hopened
    rw [hfile] at hcontent
    exact (appFile_public htidy h hpublic).mp ⟨_, hcontent⟩
  · intro hunreserved relative content hpublic encoded hencoded request hget
    have hnamed := named_of_public htidy hpublic
    have hasked := askedFile_named hnamed
    have hopen : appFile t relative = .ok content := by
      refine (appFile_eq_ok h).mpr ⟨fun part hpart => ?_, hpublic⟩
      rw [refused_of_named hnamed hpart]
      exact hunreserved relative content hpublic part hpart
    rw [← hasked] at hopen
    rw [appResponse_named hdecode hnamed hencoded hget, openPage_of_appFile hopen, ok_bind, hasked]

theorem orNotFound_error {α : Type} {x : Except Error α} {status : Nat}
    (h : orNotFound x = .error status) : status = routeNotFound := by
  cases x with
  | error e => exact (Except.error.inj h).symm
  | ok a => cases h

theorem openParts_error {status : Nat} (h : openParts t parent parts = .error status) :
    status = routeNotFound := by
  induction parts generalizing parent with
  | nil => exact (Except.error.inj h).symm
  | cons part rest ih =>
      have hfail (h : failIf (refused part = true) routeNotFound = .error status) :
          status = routeNotFound := by
        unfold failIf at h
        split at h
        · exact (Except.error.inj h).symm
        · cases h
      cases rest with
      | nil =>
          obtain h | ⟨_, -, h⟩ := bind_eq_error.mp h
          · exact hfail h
          · exact orNotFound_error h
      | cons next rest =>
          obtain h | ⟨_, -, h⟩ := bind_eq_error.mp h
          · exact hfail h
          · obtain h | ⟨child, -, h⟩ := bind_eq_error.mp h
            · exact orNotFound_error h
            · exact ih h

theorem router_appFile (t : Tree) (path : Text) :
    Router.appFile (directoryOf t) path = (appFile t path).toOption.map List.length := by
  have hrouter : Router.appFile (directoryOf t) path = if (path.splitOn '/').any refused then none
      else directoryOf t (path.splitOn '/') := rfl
  have hspec (content : Bytes) : appFile t path = .ok content ↔
      (∀ part ∈ path.splitOn '/', refused part = false) ∧
        t.find (path.splitOn '/') = some (.file content) :=
    openParts_eq_ok (fun part => slash_not_mem_part) (List.splitOn_ne_nil '/' path)
  rw [hrouter]
  cases hfile : appFile t path with
  | ok content =>
      obtain ⟨hrefused, hfind⟩ := (hspec content).mp hfile
      have hany : (path.splitOn '/').any refused = false := by simpa using hrefused
      rw [hany, directoryOf, hfind]
      rfl
  | error status =>
      split
      · rfl
      · rename_i hany
        have hrefused : ∀ part ∈ path.splitOn '/', refused part = false := by simpa using hany
        unfold directoryOf
        split
        · rename_i content hfind
          rw [(hspec content).mpr ⟨hrefused, hfind⟩] at hfile
          cases hfile
        · rfl

theorem openPage_router (t : Tree) (suffix : Text) (request : Authorization.Request) :
    Router.openPage (directoryOf t) suffix request =
      (openPage t suffix request).map fun opened => opened.content.length := by
  unfold Router.openPage openPage
  dsimp only
  rw [router_appFile, router_appFile, ← askedFile]
  cases appFile t (askedFile suffix) with
  | ok content => rfl
  | error status =>
      dsimp only [Except.toOption, Option.map_none]
      split
      · rfl
      · cases hindex : appFile t (chars "index.html") with
        | ok content => rfl
        | error status =>
            rw [openParts_error hindex]
            rfl

/-- The router's frontend answers as the frontend of the files does, without their contents. -/
theorem appResponse_router (s : Server) (t : Tree) (suffix : Text) (request : Authorization.Request) :
    Router.appResponse s (directoryOf t) suffix request =
      (appResponse s t suffix request).map fun page => (page.status, page.fields) := by
  unfold Router.appResponse appResponse
  split
  · rfl
  · split
    · rfl
    · cases decodeSuffix s suffix with
      | error status => rfl
      | ok decoded =>
          rw [ok_bind, ok_bind, openPage_router]
          cases openPage t decoded request <;> rfl

/-- Every packaged file is served and nothing else, unless a file lies at or below a name that is
kept for recovery. -/
theorem frontend_served_iff {trust : Trust} {o : Component.Parser} {zip : Waz.Zip} {bytes : Bytes}
    {at' : Int} {id : Id} (haccepted : readPackageAt (reading trust o zip) bytes at' = .ok files)
    (hwritten : writeExpanded files id .app = .ok t) (hdecode : Decodes s.decode) :
    (Served s t files ∧ Confined s t files) ↔ Unreserved files := by
  have hall := writeApp_spec hwritten
  rw [served_iff (readPackageAt_spec haccepted).1 hall hdecode, and_iff_left (confined hall)]

end

/-- Writes the bytes that a percent sign and two digits stand for, and the others as they are. -/
def percentDecode : Text → Bytes
  | [] => []
  | [c] => String.utf8EncodeChar c
  | [c, d] => String.utf8EncodeChar c ++ String.utf8EncodeChar d
  | c :: first :: second :: rest =>
      match hexValue first, hexValue second with
      | some high, some low =>
          if c = '%' then UInt8.ofNat (16 * high + low) :: percentDecode rest
          else String.utf8EncodeChar c ++ percentDecode (first :: second :: rest)
      | _, _ => String.utf8EncodeChar c ++ percentDecode (first :: second :: rest)

def decodeText (text : Text) : Option Text := (Waz.fromUtf8 (percentDecode text)).map chars

theorem percentDecode_raw {c : Char} {text : Text} (hc : c ≠ '%') :
    percentDecode (c :: text) = String.utf8EncodeChar c ++ percentDecode text := by
  match text with
  | [] => simp [percentDecode]
  | [d] => simp [percentDecode]
  | first :: second :: rest =>
      rw [percentDecode]
      split
      · rw [if_neg hc]
      · rfl

theorem percentDecode_encoded {text : Text} {bytes : Bytes} (h : PercentEncoded text bytes) :
    percentDecode text = bytes := by
  induction h with
  | nil => rfl
  | raw hc _ ih => rw [percentDecode_raw hc, ih]
  | @escaped first second b text bytes hfirst hsecond _ ih =>
      have hvalue : UInt8.ofNat (16 * (b.toNat / 16) + b.toNat % 16) = b := by
        rw [Nat.div_add_mod]
        exact UInt8.ofNat_toNat
      rw [percentDecode, hfirst, hsecond, ih]
      simp [hvalue]

theorem fromUtf8_utf8 (text : Text) : Waz.fromUtf8 (utf8 text) = some (String.ofList text) := by
  have hbytes : (⟨(utf8 text).toArray⟩ : ByteArray) = (String.ofList text).toByteArray := by
    rw [String.toByteArray_ofList, List.utf8Encode, ByteArray.ext_iff, List.data_toByteArray, utf8]
  rw [Waz.fromUtf8, hbytes, String.fromUTF8?, dif_pos (String.ofList text).isValidUTF8]
  rfl

theorem decodeText_decodes : Decodes decodeText := by
  intro encoded text h
  rw [decodeText, percentDecode_encoded h, fromUtf8_utf8]
  simp [chars]

def pageServer : Server := { RouteAgreement.sampleServer with decode := decodeText }

theorem frontend_served_page : ∃ tree,
    writeExpanded (pageFiles plainPage) pageMetadata.id .app = .ok tree ∧
      ((Served pageServer tree (pageFiles plainPage) ∧ Confined pageServer tree (pageFiles plainPage)) ↔
        Unreserved (pageFiles plainPage)) := by
  obtain ⟨tree, hwritten⟩ := plainPage_written
  exact ⟨tree, hwritten, frontend_served_iff plainPage_read hwritten decodeText_decodes⟩

/-- A packaged file at a recovery name below a directory is not served. -/
theorem kept_name_unserved : ∃ tree, readPage keptPage = .ok (pageFiles keptPage) ∧
    writeExpanded (pageFiles keptPage) pageMetadata.id .app = .ok tree ∧ Decodes pageServer.decode ∧
    ¬(Served pageServer tree (pageFiles keptPage) ∧ Confined pageServer tree (pageFiles keptPage)) := by
  obtain ⟨tree, hwritten⟩ := keptPage_written
  refine ⟨tree, keptPage_read, hwritten, decodeText_decodes, fun ⟨hserved, _⟩ => ?_⟩
  have hdecode : Decodes pageServer.decode := decodeText_decodes
  have htidy := (readPackageAt_spec keptPage_read).1
  exact keptPage_reserved ((served_iff htidy (writeApp_spec hwritten) hdecode).mp hserved)

end Pishoo.Frontend
