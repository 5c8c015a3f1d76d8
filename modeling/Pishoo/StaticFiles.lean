import Pishoo.ContactQuery
import Pishoo.Forwarding
import Pishoo.Frontend

namespace Pishoo.StaticFiles

open Result PathText Authorization Router FileTree Expanded Forwarding Frontend

/-- Something that is not a directory. -/
structure Leaf where
  regular : Bool
  content : List UInt8
  deriving DecidableEq

abbrev Disk := FileTree.Tree Text Leaf

def methodNotAllowed : Nat := 405

def filePrefix : Text := chars "/std/file/"

def index : Text := chars "index.html"

structure Opened where
  path : List Text
  content : List UInt8

structure Response where
  fields : Fields
  body : List UInt8

def openFile (t : Disk) (path : List Text) : Except Nat Opened :=
  match t.find path with
  | some (.file leaf) =>
      if leaf.regular = true then .ok ⟨path, leaf.content⟩ else .error routeNotFound
  | _ => .error routeNotFound

/-- The components of a path. -/
def partsOf (decoded : Text) : List Text := (decoded.splitOn '/').filter fun part => part != []

/-- A path that ends with a slash is only good for a directory. -/
def openPath (t : Disk) (decoded : Text) : Except Nat Opened :=
  let path := partsOf decoded
  if path = [] ∨ t.find path = some .dir then openFile t (path ++ [index])
  else if (decoded.splitOn '/').getLast? = some [] then .error routeNotFound
  else openFile t path

def decodePath (suffix : Text) : Except Nat Text := do
  let decoded ← orStatus (decodeText suffix) badRequest
  failIf ((decoded.contains '\\' || decoded.contains '\x00' ||
    (decoded.splitOn '/').contains (chars "..") ||
      (decoded.splitOn '/').contains (chars ".")) = true) routeNotFound
  .ok decoded

def responseOf (mime : List Text → String) (method : Method) (opened : Opened) : Response where
  fields := [("content-length", toString opened.content.length), ("content-type", mime opened.path)]
  body := if method = .head then [] else opened.content

/-- `static_file`, where the root may be missing. -/
def staticFile (mime : List Text → String) (root : Option Disk) (request : Authorization.Request) :
    Except Nat Response := do
  failIf (reads request.method = false) methodNotAllowed
  let suffix ← orStatus (strip filePrefix request.uri.pathText) routeNotFound
  failIf (suffix = []) routeNotFound
  let decoded ← decodePath suffix
  let disk ← orStatus root routeNotFound
  let opened ← openPath disk decoded
  .ok (responseOf mime request.method opened)

/-- A component that a path may have. -/
structure Clean (part : Text) : Prop where
  dot : part ≠ chars "."
  dots : part ≠ chars ".."
  slash : '/' ∉ part
  backslash : '\\' ∉ part
  nul : '\x00' ∉ part

def Ordinary (path : List Text) : Prop := ∀ part ∈ path, part ≠ [] ∧ Clean part

/-- What the decoded path stands for. -/
def StandsFor (t : Disk) (decoded : Text) (path : List Text) : Prop :=
  path = partsOf decoded ∨ path = partsOf decoded ++ [index] ∧ t.find (partsOf decoded) = some .dir

section

variable {t : Disk} {path parts : List Text} {decoded encoded suffix : Text} {opened : Opened}
  {content : List UInt8} {mime : List Text → String} {root : Option Disk}
  {request : Authorization.Request} {response : Response}

theorem openFile_eq_ok : openFile t path = .ok opened ↔
    opened.path = path ∧ t.find path = some (.file ⟨true, opened.content⟩) := by
  unfold openFile
  split
  · rename_i leaf hfind
    rcases leaf with ⟨regular, content⟩
    rw [hfind]
    cases regular with
    | false =>
        refine ⟨by rintro ⟨⟩, ?_⟩
        rintro ⟨-, ⟨⟩⟩
    | true =>
        constructor
        · rintro ⟨⟩
          exact ⟨rfl, rfl⟩
        · rintro ⟨rfl, hcontent⟩
          cases hcontent
          rfl
  · rename_i hother
    refine ⟨by rintro ⟨⟩, fun h => ?_⟩
    exact absurd h.2 (hother _)

theorem openPath_spec (h : openPath t decoded = .ok opened) :
    StandsFor t decoded opened.path ∧ t.find opened.path = some (.file ⟨true, opened.content⟩) := by
  unfold openPath at h
  dsimp only at h
  split at h
  · rename_i hdirectory
    obtain ⟨hpath, hfind⟩ := openFile_eq_ok.mp h
    rw [hpath]
    refine ⟨.inr ⟨rfl, ?_⟩, hfind⟩
    rcases hdirectory with hempty | hdirectory
    · rw [hempty]
      rfl
    · exact hdirectory
  · split at h
    · cases h
    · obtain ⟨hpath, hfind⟩ := openFile_eq_ok.mp h
      rw [hpath]
      exact ⟨.inl rfl, hfind⟩

theorem decodePath_eq_ok : decodePath suffix = .ok decoded ↔ decodeText suffix = some decoded ∧
    '\\' ∉ decoded ∧ '\x00' ∉ decoded ∧ ∀ part ∈ decoded.splitOn '/',
      part ≠ chars "." ∧ part ≠ chars ".." := by
  simp only [decodePath, bind_eq_ok, orStatus_eq_ok, failIf_eq_ok, Bool.or_eq_true,
    List.contains_iff_mem, not_or, and_assoc, Except.ok.injEq]
  constructor
  · rintro ⟨_, hdecode, _, hbackslash, hnul, hdots, hdot, rfl⟩
    refine ⟨hdecode, hbackslash, hnul, fun part hpart => ⟨?_, ?_⟩⟩
    · rintro rfl
      exact hdot hpart
    · rintro rfl
      exact hdots hpart
  · rintro ⟨hdecode, hbackslash, hnul, hparts⟩
    refine ⟨decoded, hdecode, (), hbackslash, hnul, fun hdots => ?_, fun hdot => ?_, rfl⟩
    · exact (hparts _ hdots).2 rfl
    · exact (hparts _ hdot).1 rfl

theorem partsOf_ordinary (h : decodePath suffix = .ok decoded) : Ordinary (partsOf decoded) := by
  obtain ⟨-, hbackslash, hnul, hparts⟩ := decodePath_eq_ok.mp h
  intro part hpart
  obtain ⟨hmem, hne⟩ := List.mem_filter.mp hpart
  obtain ⟨hdot, hdots⟩ := hparts part hmem
  refine ⟨bne_iff_ne.mp hne, hdot, hdots, slash_not_mem_part hmem, ?_, ?_⟩
  · exact fun hc => hbackslash (mem_of_mem_part hmem hc)
  · exact fun hc => hnul (mem_of_mem_part hmem hc)

theorem index_clean : index ≠ [] ∧ Clean index :=
  ⟨by decide, by decide, by decide, by decide, by decide, by decide⟩

theorem standsFor_ordinary (hdecode : decodePath suffix = .ok decoded)
    (h : StandsFor t decoded path) : Ordinary path := by
  have hparts := partsOf_ordinary hdecode
  rcases h with rfl | ⟨rfl, -⟩
  · exact hparts
  · exact List.forall_mem_append.mpr ⟨hparts, List.forall_mem_singleton.mpr index_clean⟩

theorem splitOn_joined (hne : parts ≠ []) (h : ∀ part ∈ parts, Clean part) :
    (['/'].intercalate parts).splitOn '/' = parts :=
  List.splitOn_intercalate '/' (fun part hpart => (h part hpart).slash) hne

theorem decodePath_joined (hne : parts ≠ []) (h : ∀ part ∈ parts, Clean part)
    (hencoded : PercentEncoded encoded (utf8 (['/'].intercalate parts))) :
    decodePath encoded = .ok (['/'].intercalate parts) := by
  have hchar {c : Char} (hc : c ≠ '/') (hparts : ∀ part ∈ parts, c ∉ part) :
      c ∉ ['/'].intercalate parts := by
    intro hmem
    rcases ContactQuery.mem_intercalate hmem with heq | ⟨part, hpart, hmem⟩
    · exact hc heq
    · exact hparts part hpart hmem
  refine decodePath_eq_ok.mpr ⟨decodeText_decodes _ _ hencoded, ?_, ?_, ?_⟩
  · exact hchar (by decide) fun part hpart => (h part hpart).backslash
  · exact hchar (by decide) fun part hpart => (h part hpart).nul
  · rw [splitOn_joined hne h]
    exact fun part hpart => ⟨(h part hpart).dot, (h part hpart).dots⟩

theorem staticFile_eq_ok : staticFile mime root request = .ok response ↔
    reads request.method = true ∧ ∃ suffix decoded disk opened,
      request.uri.pathText = filePrefix ++ suffix ∧ suffix ≠ [] ∧
      decodePath suffix = .ok decoded ∧ root = some disk ∧ openPath disk decoded = .ok opened ∧
      response = responseOf mime request.method opened := by
  simp only [staticFile, bind_eq_ok, failIf_eq_ok, orStatus_eq_ok, strip_eq_some,
    Bool.not_eq_false, Except.ok.injEq]
  constructor
  · rintro ⟨_, hreads, suffix, hpath, _, hne, decoded, hdecode, disk, hroot, opened, hopen, rfl⟩
    exact ⟨hreads, suffix, decoded, disk, opened, hpath, hne, hdecode, hroot, hopen, rfl⟩
  · rintro ⟨hreads, suffix, decoded, disk, opened, hpath, hne, hdecode, hroot, hopen, rfl⟩
    exact ⟨(), hreads, suffix, hpath, (), hne, decoded, hdecode, disk, hroot, opened, hopen, rfl⟩

/-- Whatever encoding of the path is asked for, it is the file that is found. -/
theorem staticFile_joined (hne : parts ≠ []) (h : ∀ part ∈ parts, Clean part)
    (hpart : ∃ part ∈ parts, part ≠ [])
    (hencoded : PercentEncoded encoded (utf8 (['/'].intercalate parts)))
    (hpath : request.uri.pathText = filePrefix ++ encoded) (hreads : reads request.method = true)
    (hopen : openPath t (['/'].intercalate parts) = .ok opened) :
    staticFile mime (some t) request = .ok (responseOf mime request.method opened) := by
  have hdecode := decodePath_joined hne h hencoded
  refine staticFile_eq_ok.mpr ⟨hreads, encoded, _, t, opened, hpath, ?_, hdecode, rfl, hopen, rfl⟩
  rintro rfl
  have hempty : decodeText [] = some [] := by decide
  have hsplit := splitOn_joined hne h
  rw [Option.some.inj ((decodePath_eq_ok.mp hdecode).1.symm.trans hempty)] at hsplit
  obtain ⟨part, hmem, hnonempty⟩ := hpart
  rw [← hsplit] at hmem
  exact hnonempty (List.mem_singleton.mp hmem)

theorem partsOf_joined (hne : parts ≠ []) (h : ∀ part ∈ parts, Clean part) :
    partsOf (['/'].intercalate parts) = parts.filter fun part => part != [] := by
  rw [partsOf, splitOn_joined hne h]

theorem filter_ordinary (h : Ordinary path) : path.filter (fun part => part != []) = path :=
  List.filter_eq_self.mpr fun part hpart => bne_iff_ne.mpr (h part hpart).1

theorem openPath_file (h : Ordinary path) (hfind : t.find path = some (.file ⟨true, content⟩)) :
    path ≠ [] ∧ openPath t (['/'].intercalate path) = .ok ⟨path, content⟩ := by
  have hne : path ≠ [] := by
    rintro rfl
    cases hfind
  have hclean : ∀ part ∈ path, Clean part := fun part hpart => (h part hpart).2
  have hparts : partsOf (['/'].intercalate path) = path := by
    rw [partsOf_joined hne hclean, filter_ordinary h]
  refine ⟨hne, ?_⟩
  rw [openPath, hparts, if_neg, if_neg]
  · exact openFile_eq_ok.mpr ⟨rfl, hfind⟩
  · rw [splitOn_joined hne hclean]
    intro hlast
    exact (h [] (List.mem_of_getLast? hlast)).1 rfl
  · rintro (hempty | hdirectory)
    · exact hne hempty
    · rw [hfind] at hdirectory
      cases hdirectory

theorem openPath_directory (hpath : partsOf decoded = path)
    (hfind : t.find (path ++ [index]) = some (.file ⟨true, content⟩)) :
    openPath t decoded = .ok ⟨path ++ [index], content⟩ := by
  rw [openPath, hpath, if_pos (.inr (FileTree.Tree.find_parent hfind))]
  exact openFile_eq_ok.mpr ⟨rfl, hfind⟩

theorem clean_nil : Clean [] := ⟨by decide, by decide, by decide, by decide, by decide⟩

theorem directory_parts (h : Ordinary path) (hparts : parts = path ∨ parts = path ++ [[]]) :
    (∀ part ∈ parts, Clean part) ∧ parts.filter (fun part => part != []) = path := by
  have hclean : ∀ part ∈ path, Clean part := fun part hpart => (h part hpart).2
  rcases hparts with rfl | rfl
  · exact ⟨hclean, filter_ordinary h⟩
  · refine ⟨List.forall_mem_append.mpr ⟨hclean, List.forall_mem_singleton.mpr clean_nil⟩, ?_⟩
    rw [List.filter_append, filter_ordinary h]
    exact List.append_nil path

theorem staticFile_head : staticFile mime root { request with method := .head } = .ok response ↔
    ∃ whole, staticFile mime root { request with method := .get } = .ok whole ∧
      response = { whole with body := [] } := by
  constructor
  · intro h
    obtain ⟨-, suffix, decoded, disk, opened, hpath, hne, hdecode, hroot, hopen, rfl⟩ :=
      staticFile_eq_ok.mp h
    exact ⟨_, staticFile_eq_ok.mpr ⟨rfl, suffix, decoded, disk, opened, hpath, hne, hdecode, hroot,
      hopen, rfl⟩, rfl⟩
  · rintro ⟨_, h, rfl⟩
    obtain ⟨-, suffix, decoded, disk, opened, hpath, hne, hdecode, hroot, hopen, rfl⟩ :=
      staticFile_eq_ok.mp h
    exact staticFile_eq_ok.mpr ⟨rfl, suffix, decoded, disk, opened, hpath, hne, hdecode, hroot,
      hopen, rfl⟩

end

/-- What is served below `/std/file/`. -/
theorem static_files (mime : List Text → String) (t : Disk) :
    (∀ request response, staticFile mime (some t) request = .ok response →
      reads request.method = true ∧ ∃ suffix decoded opened,
        request.uri.pathText = filePrefix ++ suffix ∧ decodeText suffix = some decoded ∧
        StandsFor t decoded opened.path ∧ Ordinary opened.path ∧
        t.find opened.path = some (.file ⟨true, opened.content⟩) ∧
        response = responseOf mime request.method opened) ∧
    (∀ path content, Ordinary path → t.find path = some (.file ⟨true, content⟩) →
      ∀ encoded, PercentEncoded encoded (utf8 (['/'].intercalate path)) →
      ∀ request : Authorization.Request, request.uri.pathText = filePrefix ++ encoded →
        reads request.method = true → staticFile mime (some t) request =
          .ok (responseOf mime request.method ⟨path, content⟩)) ∧
    (∀ path content, path ≠ [] → Ordinary path →
      t.find (path ++ [index]) = some (.file ⟨true, content⟩) →
      ∀ parts encoded, parts = path ∨ parts = path ++ [[]] →
      PercentEncoded encoded (utf8 (['/'].intercalate parts)) →
      ∀ request : Authorization.Request, request.uri.pathText = filePrefix ++ encoded →
        reads request.method = true → staticFile mime (some t) request =
          .ok (responseOf mime request.method ⟨path ++ [index], content⟩)) ∧
    ∀ root (request : Authorization.Request) response,
      staticFile mime root { request with method := .head } = .ok response ↔
        ∃ whole, staticFile mime root { request with method := .get } = .ok whole ∧
          response = { whole with body := [] } := by
  refine ⟨?_, ?_, ?_, fun _ _ _ => staticFile_head⟩
  · intro request response h
    obtain ⟨hreads, suffix, decoded, disk, opened, hpath, -, hdecode, hroot, hopen, rfl⟩ :=
      staticFile_eq_ok.mp h
    cases hroot
    obtain ⟨hstands, hfind⟩ := openPath_spec hopen
    exact ⟨hreads, suffix, decoded, opened, hpath, (decodePath_eq_ok.mp hdecode).1, hstands,
      standsFor_ordinary hdecode hstands, hfind, rfl⟩
  · intro path content hordinary hfind encoded hencoded request hpath hreads
    obtain ⟨hne, hopen⟩ := openPath_file hordinary hfind
    obtain ⟨part, hpart⟩ := List.exists_mem_of_ne_nil path hne
    exact staticFile_joined hne (fun part hpart => (hordinary part hpart).2)
      ⟨part, hpart, (hordinary part hpart).1⟩ hencoded hpath hreads hopen
  · intro path content hne hordinary hfind parts encoded hparts hencoded request hpath hreads
    obtain ⟨hclean, hfilter⟩ := directory_parts hordinary hparts
    obtain ⟨part, hpart⟩ := List.exists_mem_of_ne_nil path hne
    have hmem : part ∈ parts := (List.mem_filter.mp (hfilter.symm ▸ hpart)).1
    have hne' : parts ≠ [] := List.ne_nil_of_mem hmem
    have hjoined : partsOf (['/'].intercalate parts) = path :=
      (partsOf_joined hne' hclean).trans hfilter
    exact staticFile_joined hne' hclean ⟨part, hmem, (hordinary part hpart).1⟩ hencoded hpath hreads
      (openPath_directory hjoined hfind)

end Pishoo.StaticFiles
