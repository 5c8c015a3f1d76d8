import Pishoo.InstalledRoutes

namespace Pishoo.ComponentScans

open Result PathText Publication Component RouteAgreement

/-- The loop of `Lib::load`. -/
def loadPart (scan : Scan) : Option Part → Except Error Scan
  | none => .error (invalid "malformed component")
  | some part => scanPart scan (some part)

/-- The document of a lib that is loaded. -/
def loadOpenapi (t : Trust) (o : Parser) (id : Id) (bytes : Bytes) : Except Error OpenApi := do
  (validId t.normalizeName id).mapError fun _ => invalid "invalid Lib id"
  failIf (64 * 1024 * 1024 < bytes.length) (invalid "component exceeds 64 MiB")
  let scan ← (o.parts bytes).foldlM loadPart ⟨0, none⟩
  let document ← orElse scan.document (invalid "missing pishoo:openapi section")
  (o.openApi document).mapError invalid

def sooner (a b : String × String) : Prop := a.2 < b.2 ∨ a.2 = b.2 ∧ a.1 ≤ b.1

instance : DecidableRel sooner := fun a b =>
  inferInstanceAs (Decidable (a.2 < b.2 ∨ a.2 = b.2 ∧ a.1 ≤ b.1))

/-- The operations that are shown for a lib, with their external paths. -/
def endpoints (id : Id) (api : OpenApi) : List (String × String) :=
  ((api.paths.getD []).flatMap fun path => path.2.methods.map fun operation =>
    (operation.1, String.ofList (placeOf id ++ chars path.1))).insertionSort sooner

def openApiOf (part : Part) : Option Bytes :=
  match part.payload with
  | .custom name data _ => if name = openApiName then some data else none
  | _ => none

/-- How deep the parser is after these parts. -/
def depthAfter (depth : Nat) (parts : List Part) : Nat :=
  parts.foldl (fun depth part => deeper depth part.payload) depth

/-- Among all parts, however deep they are, one is an OpenAPI section, and it is not nested. -/
structure Unique (depth : Nat) (parts : List Part) (document : Bytes) : Prop where
  split : ∃ before part after, parts = before ++ part :: after ∧ openApiOf part = some document ∧
    depthAfter depth before = 0 ∧ ∀ other ∈ before ++ after, openApiOf other = none
  bounded : document.length ≤ 1024 * 1024

/-- What the scan of some parts adds to the scan of those before. -/
def Found (scan : Scan) (parts : List Part) (scan' : Scan) : Prop :=
  scan'.document = scan.document ∧ (∀ part ∈ parts, openApiOf part = none) ∨
    scan.document = none ∧ ∃ document, scan'.document = some document ∧
      Unique scan.depth parts document

section

variable {t : Trust} {o : Parser} {files : Files} {m : Metadata} {backend document : Bytes}
  {scan scan' : Scan} {lib : LibScan} {part : Part} {parts : List Part} {size : Nat}

theorem scanPart_spec (h : scanPart scan (some part) = .ok scan') :
    scan'.depth = deeper scan.depth part.payload ∧
      ((openApiOf part = none ∧ scan'.document = scan.document) ∨
        ∃ data, openApiOf part = some data ∧ scan.depth = 0 ∧ scan.document = none ∧
          data.length ≤ 1024 * 1024 ∧ scan'.document = some data) := by
  obtain ⟨payload, sectionEnd⟩ := part
  cases payload with
  | custom name data finish =>
      simp only [scanPart] at h
      split at h
      · rename_i hname
        split at h
        · cases h
        · rename_i hnot
          simp only [not_or, not_not, Bool.not_eq_true, Option.isSome_eq_false_iff,
            Option.isNone_iff_eq_none, Nat.not_lt] at hnot
          cases h
          exact ⟨rfl, .inr ⟨data, if_pos hname, hnot.1, hnot.2.1, hnot.2.2, rfl⟩⟩
      · rename_i hname
        cases h
        exact ⟨rfl, .inl ⟨if_neg hname, rfl⟩⟩
  | _ =>
      cases h
      exact ⟨rfl, .inl ⟨rfl, rfl⟩⟩

/-- One part more in front. -/
theorem Unique.cons {data : Bytes} {depth : Nat} (hpart : openApiOf part = none)
    (h : Unique (deeper depth part.payload) parts data) : Unique depth (part :: parts) data := by
  obtain ⟨before, found, after, rfl, hfound, hdepth, hothers⟩ := h.split
  refine ⟨⟨part :: before, found, after, rfl, hfound, hdepth, ?_⟩, h.bounded⟩
  rw [List.cons_append, List.forall_mem_cons]
  exact ⟨hpart, hothers⟩

theorem scan_spec {items : List (Option Part)} (h : items.foldlM scanPart scan = .ok scan') :
    ∃ parts, items = parts.map some ∧ scan'.depth = depthAfter scan.depth parts ∧
      Found scan parts scan' := by
  induction items generalizing scan with
  | nil =>
      cases h
      exact ⟨[], rfl, rfl, .inl ⟨rfl, List.forall_mem_nil _⟩⟩
  | cons item items ih =>
      rw [List.foldlM_cons] at h
      obtain ⟨next, hnext, h⟩ := bind_eq_ok.mp h
      obtain ⟨parts, rfl, hdepth, hfound⟩ := ih h
      cases item with
      | none => cases hnext
      | some part =>
          obtain ⟨hdeeper, hpart⟩ := scanPart_spec hnext
          refine ⟨part :: parts, rfl, by rw [hdepth, hdeeper]; rfl, ?_⟩
          rcases hpart with ⟨hnone, hsame⟩ | ⟨data, hdata, htop, hfresh, hsmall, hnow⟩
          · rcases hfound with ⟨hkept, hothers⟩ | ⟨hfresh, document, hnow, hunique⟩
            · exact .inl ⟨hkept.trans hsame, List.forall_mem_cons.mpr ⟨hnone, hothers⟩⟩
            · rw [hdeeper] at hunique
              exact .inr ⟨hsame ▸ hfresh, document, hnow, hunique.cons hnone⟩
          · rcases hfound with ⟨hkept, hothers⟩ | ⟨hagain, -⟩
            · exact .inr ⟨hfresh, data, hkept.trans hnow,
                ⟨[], part, parts, rfl, hdata, htop, hothers⟩, hsmall⟩
            · rw [hnow] at hagain
              cases hagain

theorem load_scan (h : (parts.map some).foldlM scanPart scan = .ok scan') :
    (parts.map some).foldlM loadPart scan = .ok scan' := by
  rw [← h, List.foldlM_map, List.foldlM_map]
  rfl

/-- A part that is neither malformed nor a signature is the same to both loops. -/
theorem scanLibPart_of_scanPart (size : Nat) (hsame : lib.toScan = scan) (hunsigned : lib.signature = none)
    (h : scanPart scan (some part) = .ok scan') (hcheck : checkPart (some part) = .ok ()) :
    ∃ lib', scanLibPart size lib (some part) = .ok lib' ∧ lib'.toScan = scan' ∧
      lib'.signature = none ∧ (lib.component = true → lib'.component = true) := by
  subst hsame
  obtain ⟨payload, sectionEnd⟩ := part
  cases payload with
  | custom name data finish =>
      have hname : name ≠ signatureName := failIf_eq_ok.mp hcheck
      simp only [scanPart] at h
      simp only [scanLibPart]
      split at h
      · rename_i hopenapi
        split at h
        · cases h
        · rename_i hnot
          simp only [not_or, not_not] at hnot
          cases h
          rw [if_pos hopenapi, if_neg (by simp [hnot.1]), if_neg hnot.2.1, if_neg hnot.2.2]
          exact ⟨_, rfl, rfl, hunsigned, id⟩
      · rename_i hopenapi
        cases h
        rw [if_neg hopenapi, if_neg hname]
        exact ⟨_, rfl, rfl, hunsigned, id⟩
  | version component =>
      cases h
      exact ⟨_, rfl, rfl, hunsigned, fun hcomponent => by simp [hcomponent]⟩
  | _ =>
      cases h
      exact ⟨_, rfl, rfl, hunsigned, id⟩

theorem lib_scan (size : Nat) {items : List (Option Part)} (hsame : lib.toScan = scan)
    (hunsigned : lib.signature = none) (h : items.foldlM scanPart scan = .ok scan')
    (hcheck : items.forM checkPart = .ok ()) :
    ∃ lib', items.foldlM (scanLibPart size) lib = .ok lib' ∧ lib'.toScan = scan' ∧
      lib'.signature = none ∧ (lib.component = true → lib'.component = true) := by
  induction items generalizing scan lib with
  | nil =>
      cases h
      exact ⟨lib, rfl, hsame, hunsigned, id⟩
  | cons item items ih =>
      rw [List.foldlM_cons] at h
      obtain ⟨next, hnext, hitems⟩ := bind_eq_ok.mp h
      obtain ⟨_, hitem, hchecked⟩ := bind_eq_ok.mp hcheck
      cases item with
      | none => cases hnext
      | some part =>
          obtain ⟨middle, hmiddle, hagrees, hstill, hcomponent⟩ :=
            scanLibPart_of_scanPart size hsame hunsigned hnext hitem
          obtain ⟨lib', hrest, hscan, hunsigned', hcomponent'⟩ := ih hagrees hstill hitems hchecked
          refine ⟨lib', ?_, hscan, hunsigned', hcomponent' ∘ hcomponent⟩
          rw [List.foldlM_cons, hmiddle, ok_bind, hrest]

/-- What the checks of a package say about its component. -/
structure Examined (o : Parser) (backend document : Bytes) (paths : List (String × PathItem)) :
    Prop where
  scan : ∃ scan, (o.parts backend).foldlM scanPart ⟨0, none⟩ = .ok scan ∧
    scan.document = some document
  unsigned : (o.parts backend).forM checkPart = .ok ()
  openApi : validateOpenapi o document = .ok paths

theorem examined_of_accepted (hbackend : files.lookup "backend.wasm" = some backend)
    (hvalid : Component.validateContents t o files = .ok m)
    (hdocument : packageOpenapi o files = .ok document) :
    ∃ paths, Examined o backend document paths := by
  obtain ⟨metadata, -, hvalid⟩ := bind_eq_ok.mp hvalid
  obtain ⟨_, -, hvalid⟩ := bind_eq_ok.mp hvalid
  obtain ⟨_, -, hvalid⟩ := bind_eq_ok.mp hvalid
  obtain ⟨_, hcomponent, -⟩ := bind_eq_ok.mp hvalid
  rw [validateComponent, hbackend] at hcomponent
  obtain ⟨_, -, hcomponent⟩ := bind_eq_ok.mp hcomponent
  obtain ⟨_, hunsigned, hcomponent⟩ := bind_eq_ok.mp hcomponent
  obtain ⟨raw, hraw, hcomponent⟩ := bind_eq_ok.mp hcomponent
  obtain ⟨paths, hpaths, -⟩ := bind_eq_ok.mp hcomponent
  rw [hdocument] at hraw
  cases hraw
  obtain ⟨found, hfound, hdocument⟩ := bind_eq_ok.mp hdocument
  obtain rfl : backend = found := Option.some.inj (hbackend.symm.trans (orElse_eq_ok.mp hfound))
  obtain ⟨scan, hscan, hdocument⟩ := bind_eq_ok.mp hdocument
  exact ⟨paths, ⟨scan, hscan, orElse_eq_ok.mp hdocument⟩, hunsigned, hpaths⟩

theorem Examined.unique {paths : List (String × PathItem)} (h : Examined o backend document paths) :
    ∃ parts, o.parts backend = parts.map some ∧ Unique 0 parts document := by
  obtain ⟨scan, hscan, hdocument⟩ := h.scan
  obtain ⟨parts, hparts, -, ⟨hkept, -⟩ | ⟨-, found, hfound, hunique⟩⟩ := scan_spec hscan
  · rw [hdocument] at hkept
    cases hkept
  · rw [hdocument] at hfound
    cases hfound
    exact ⟨parts, hparts, hunique⟩

theorem Examined.load {paths : List (String × PathItem)} (h : Examined o backend document paths) :
    ∃ scan, (o.parts backend).foldlM loadPart ⟨0, none⟩ = .ok scan ∧ scan.document = some document := by
  obtain ⟨scan, hscan, hdocument⟩ := h.scan
  obtain ⟨parts, hparts, -⟩ := h.unique
  rw [hparts] at hscan ⊢
  exact ⟨scan, load_scan hscan, hdocument⟩

theorem Examined.unsignedScan {paths : List (String × PathItem)} (h : Examined o backend document paths) :
    ∃ scan, (o.parts backend).foldlM (scanLibPart backend.length) ⟨⟨0, none⟩, false, 8, none⟩ =
      .ok scan ∧ scan.document = some document ∧ scan.signature = none := by
  obtain ⟨scan, hscan, hdocument⟩ := h.scan
  have hstart : (⟨⟨0, none⟩, false, 8, none⟩ : LibScan).toScan = ⟨0, none⟩ := rfl
  obtain ⟨lib, hlib, rfl, hunsigned, -⟩ := lib_scan backend.length hstart rfl hscan h.unsigned
  exact ⟨lib, hlib, hdocument, hunsigned⟩

/-- A component that starts as one is accepted on its own. -/
theorem Examined.validateLib {paths : List (String × PathItem)}
    (h : Examined o backend document paths) (hsize : backend.length ≤ 64 * 1024 * 1024)
    (hfirst : ∃ part, (o.parts backend).head? = some (some part) ∧ part.payload = .version true) :
    validateLib o backend = .ok paths := by
  obtain ⟨part, hpart, hversion⟩ := hfirst
  obtain ⟨scan, hscan, hdocument⟩ := h.scan
  obtain ⟨items, hitems⟩ : ∃ items, o.parts backend = some part :: items :=
    List.head?_eq_some_iff.mp hpart
  have hunsigned := h.unsigned
  rw [hitems] at hscan hunsigned
  rw [List.foldlM_cons] at hscan
  obtain ⟨next, hnext, hscan⟩ := bind_eq_ok.mp hscan
  obtain ⟨_, -, hrest⟩ := bind_eq_ok.mp hunsigned
  obtain ⟨middle, hmiddle, hagrees, hstill, hcomponent⟩ : ∃ lib : LibScan,
      scanLibPart backend.length ⟨⟨0, none⟩, false, 8, none⟩ (some part) = .ok lib ∧
        lib.toScan = next ∧ lib.signature = none ∧ lib.component = true := by
    obtain ⟨payload, sectionEnd⟩ := part
    cases hversion
    cases hnext
    exact ⟨_, rfl, rfl, rfl, rfl⟩
  obtain ⟨lib, hlib, rfl, hunsigned', hcomponent'⟩ :=
    lib_scan backend.length hagrees hstill hscan hrest
  have hloop : (o.parts backend).foldlM (scanLibPart backend.length) ⟨⟨0, none⟩, false, 8, none⟩ =
      .ok lib := by
    rw [hitems, List.foldlM_cons, hmiddle, ok_bind, hlib]
  have hbound : failIf (64 * 1024 * 1024 < backend.length) (invalid "component exceeds 64 MiB") =
      .ok () :=
    failIf_eq_ok.mpr (Nat.not_lt.mpr hsize)
  have hkind : failIf (lib.component = false) (invalid "lib.wasm must be a component") = .ok () := by
    rw [failIf_eq_ok, hcomponent' hcomponent]
    simp
  rw [Component.validateLib, hbound, ok_bind, hloop, ok_bind, hkind, ok_bind, hdocument, orElse,
    ok_bind, hunsigned']
  exact h.openApi

theorem endpoints_spec (id : Id) (version : String) (paths : List (String × PathItem))
    (method path : String) : (method, path) ∈ endpoints id ⟨version, some paths⟩ ↔
      ∃ route ∈ paths.map fun path => (placeOf id ++ chars path.1, path.2.methods.map Prod.fst),
        String.ofList route.1 = path ∧ method ∈ route.2 := by
  rw [endpoints, (List.perm_insertionSort _ _).mem_iff]
  simp only [Option.getD_some, List.mem_flatMap, List.mem_map, Prod.mk.injEq, exists_exists_and_eq_and]
  constructor
  · rintro ⟨item, hitem, operation, hoperation, hmethod, hpath⟩
    exact ⟨item, hitem, hpath, operation, hoperation, hmethod⟩
  · rintro ⟨item, hitem, hpath, operation, hoperation, hmethod⟩
    exact ⟨item, hitem, operation, hoperation, hmethod, hpath⟩

end

/-- Whatever sections a component has, the checks of a package, the loop of `validate_lib` and the
loop of `Lib::load` see one document, and the routes come from it. -/
theorem scans_agree {t : Trust} {o : Parser} {files : Files} {m : Metadata}
    {backend document : Bytes} (hbackend : files.lookup "backend.wasm" = some backend)
    (hvalid : Component.validateContents t o files = .ok m)
    (hdocument : packageOpenapi o files = .ok document) :
    (∃ parts, o.parts backend = parts.map some ∧ Unique 0 parts document) ∧
    (∃ scan, (o.parts backend).foldlM loadPart ⟨0, none⟩ = .ok scan ∧
      scan.document = some document) ∧
    (∃ scan, (o.parts backend).foldlM (scanLibPart backend.length) ⟨⟨0, none⟩, false, 8, none⟩ =
      .ok scan ∧ scan.document = some document ∧ scan.signature = none) ∧
    ∃ version paths, o.openApi document = .ok ⟨version, some paths⟩ ∧
      (∀ id, packageRoutes o [("backend.wasm", backend)] id .lib = .ok (paths.map fun path =>
        (placeOf id ++ chars path.1, path.2.methods.map Prod.fst))) ∧
      (backend.length ≤ 64 * 1024 * 1024 →
        (∀ id, validId t.normalizeName id = .ok () →
          loadOpenapi t o id backend = .ok ⟨version, some paths⟩) ∧
        ((∃ part, (o.parts backend).head? = some (some part) ∧ part.payload = .version true) →
          validateLib o backend = .ok paths)) ∧
      ∀ id routes, packageRoutes o [("backend.wasm", backend)] id .lib = .ok routes →
        ∀ method path, (method, path) ∈ endpoints id ⟨version, some paths⟩ ↔
          ∃ route ∈ routes, String.ofList route.1 = path ∧ method ∈ route.2 := by
  obtain ⟨paths, hexamined⟩ := examined_of_accepted hbackend hvalid hdocument
  obtain ⟨⟨version, hopen⟩, -⟩ := validateOpenapi_spec hexamined.openApi
  have hroutes (id : Id) : packageRoutes o [("backend.wasm", backend)] id .lib =
      .ok (paths.map fun path => (placeOf id ++ chars path.1, path.2.methods.map Prod.fst)) := by
    obtain ⟨scan, hscan, hfound⟩ := hexamined.scan
    have hone : List.lookup "backend.wasm" [("backend.wasm", backend)] = some backend := rfl
    have hraw : packageOpenapi o [("backend.wasm", backend)] = .ok document := by
      rw [packageOpenapi, hone, orElse, ok_bind, hscan, ok_bind, hfound, orElse]
    rw [packageRoutes, hraw, ok_bind, hexamined.openApi, ok_bind]
  refine ⟨hexamined.unique, hexamined.load, hexamined.unsignedScan, version, paths, hopen, hroutes,
    fun hsize => ⟨fun id hid => ?_, hexamined.validateLib hsize⟩, fun id routes h method path => ?_⟩
  · obtain ⟨scan, hscan, hfound⟩ := hexamined.load
    have hbound : failIf (64 * 1024 * 1024 < backend.length) (invalid "component exceeds 64 MiB") =
        .ok () :=
      failIf_eq_ok.mpr (Nat.not_lt.mpr hsize)
    rw [loadOpenapi, mapError_eq_ok.mpr hid, ok_bind, hbound, ok_bind, hscan, ok_bind, hfound, orElse,
      ok_bind, mapError_eq_ok.mpr hopen]
  · rw [hroutes id] at h
    cases h
    exact endpoints_spec id version paths method path

/-- The document of the shop is found by all three. -/
theorem scans_agree_shop :
    ∃ scan, (sampleParser.parts (magic ++ [4])).foldlM (scanLibPart 9) ⟨⟨0, none⟩, false, 8, none⟩ =
      .ok scan ∧ scan.document = some [4] ∧ scan.signature = none := by
  have hbackend : (installedOf "alice.example" "shop" 2).files.lookup "backend.wasm" =
      some (magic ++ [4]) := rfl
  have hvalid : Component.validateContents sampleTrust sampleParser
      (installedOf "alice.example" "shop" 2).files =
        .ok (installedOf "alice.example" "shop" 2).metadata := by
    decide +kernel
  have hdocument : packageOpenapi sampleParser (installedOf "alice.example" "shop" 2).files = .ok [4] := by
    decide +kernel
  exact (scans_agree hbackend hvalid hdocument).2.2.1

end Pishoo.ComponentScans
