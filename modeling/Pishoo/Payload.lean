import Mathlib.Data.List.Sort
import Pishoo.Framing
import Pishoo.Revocation
import Pishoo.WazAccounting

namespace Pishoo.Payload

open Framing PathText Publication Result Waz WazAccounting

/-- A `BTreeMap` from the names of files to what they hold. -/
structure FileMap where
  files : Files
  sorted : files.Pairwise fun a b => a.1 < b.1

def signatureFile : String := "signature.json"

/-- Both maps have the same files, except possibly for the signature. -/
def Same (a b : FileMap) : Prop :=
  ∀ name, name ≠ signatureFile → a.files.lookup name = b.files.lookup name

def payloadRecord (t : Trust) (file : String × Bytes) : Bytes :=
  littleEndian 4 file.1.utf8ByteSize ++ file.1.toUTF8.toList ++ littleEndian 8 file.2.length ++
    t.sha256 file.2

def covered (files : Files) : Files := files.filter fun file => file.1 != signatureFile

/-- The bytes that `waz_payload` feeds to the digest. -/
def payloadInput (t : Trust) (files : Files) : Bytes :=
  "pishoo-waz-payload-v1".toUTF8.toList ++ [0] ++ (covered files).flatMap (payloadRecord t)

theorem wazPayload_eq (t : Trust) (files : Files) : wazPayload t files = t.sha256 (payloadInput t files) :=
  rfl

theorem littleEndian_length (width n : Nat) : (littleEndian width n).length = width := by
  simp [littleEndian]

theorem littleEndian_succ (width n : Nat) :
    littleEndian (width + 1) n = UInt8.ofNat n :: littleEndian width (n / 256) := by
  simp only [littleEndian, List.range_succ_eq_map, List.map_cons, List.map_map, pow_zero,
    Nat.div_one]
  congr 1
  apply List.map_congr_left
  intro i _
  rw [Function.comp_apply, Nat.succ_eq_add_one, pow_succ', Nat.div_div_eq_div_mul]

/-- `from_le_bytes` undoes `to_le_bytes`. -/
theorem number_littleEndian {width n : Nat} (h : n < 256 ^ width) : number (littleEndian width n) = n := by
  induction width generalizing n with
  | zero =>
      rw [pow_zero, Nat.lt_one_iff] at h
      rw [h]
      rfl
  | succ width ih =>
      have hdiv : n / 256 < 256 ^ width := by
        rw [pow_succ] at h
        exact Nat.div_lt_of_lt_mul (by omega)
      have hstep : number (littleEndian (width + 1) n) =
          (UInt8.ofNat n).toNat + 256 * number (littleEndian width (n / 256)) := by
        rw [littleEndian_succ]
        rfl
      rw [hstep, ih hdiv, UInt8.toNat_ofNat']
      omega

theorem littleEndian_inj {width n m : Nat} (hn : n < 256 ^ width) (hm : m < 256 ^ width)
    (h : littleEndian width n = littleEndian width m) : n = m := by
  rw [← number_littleEndian hn, h, number_littleEndian hm]

theorem toList_loop (bytes : ByteArray) (i : Nat) (done : Bytes) :
    ByteArray.toList.loop bytes i done = done.reverse ++ bytes.data.toList.drop i := by
  fun_induction ByteArray.toList.loop bytes i done with
  | case1 i done h ih =>
      have hi : i < bytes.data.toList.length := h
      have hget : bytes.get! i = bytes.data.toList[i] := by
        change bytes.data[i]! = _
        rw [getElem!_pos bytes.data i h, Array.getElem_toList]
      rw [ih, List.reverse_cons, List.append_assoc, List.drop_eq_getElem_cons hi, hget]
      rfl
  | case2 i done h =>
      have hi : bytes.data.toList.length ≤ i := Nat.le_of_not_lt h
      rw [List.drop_eq_nil_of_le hi, List.append_nil]

theorem toList_eq (bytes : ByteArray) : bytes.toList = bytes.data.toList :=
  toList_loop bytes 0 []

theorem length_name (name : String) : name.toUTF8.toList.length = name.utf8ByteSize := by
  rw [toList_eq]
  rfl

theorem name_inj {name name' : String} (h : name.toUTF8.toList = name'.toUTF8.toList) :
    name = name' := by
  rw [toList_eq, toList_eq] at h
  exact String.toByteArray_inj.mp (ByteArray.ext (Array.toList_inj.mp h))

theorem length_utf8Encode (text : Text) : text.utf8Encode.size = (text.map Char.utf8Size).sum := by
  induction text with
  | nil => rfl
  | cons c text ih =>
      rw [List.utf8Encode_cons, ByteArray.size_append, ih, List.map_cons, List.sum_cons,
        List.utf8Encode_singleton, List.size_toByteArray, String.length_utf8EncodeChar]

theorem size_of_wazPath {name : String} (h : wazPath name = true) : name.utf8ByteSize ≤ 1024 := by
  have hsize : name.utf8ByteSize = ((chars name).map Char.utf8Size).sum := by
    rw [← length_utf8Encode, ← String.size_toByteArray]
    conv_lhs => rw [← String.ofList_toList (s := name), String.toByteArray_ofList]
    rfl
  simp only [wazPath, Bool.and_eq_true, decide_eq_true_eq] at h
  omega

section

variable {t : Trust} {files : Files} {a b : FileMap} {name : String} {content : Bytes}
  {zip : Zip} {bytes : Bytes}

/-- A record shows where it ends and tells the name of the file and the digest of its content. -/
theorem payloadRecord_splits (hdigest : ∀ data, (t.sha256 data).length = 32) :
    Splits (fun file : String × Bytes => wazPath file.1 = true) (payloadRecord t)
      fun file => (file.1, t.sha256 file.2) := by
  have hlength : Splits (fun file : String × Bytes => wazPath file.1 = true)
      (fun file => littleEndian 4 file.1.utf8ByteSize) fun file => file.1.toUTF8.toList.length := by
    refine Splits.fixed (fun file => littleEndian_length 4 _) fun file file' hfile hfile' h => ?_
    have hsize := size_of_wazPath hfile
    have hsize' := size_of_wazPath hfile'
    rw [length_name, length_name]
    exact littleEndian_inj (by omega) (by omega) h
  have hcontent : Splits (fun file : String × Bytes => wazPath file.1 = true)
      (fun file => littleEndian 8 file.2.length) fun _ => () :=
    Splits.fixed (fun file => littleEndian_length 8 _) fun _ _ _ _ _ => rfl
  have hsha : Splits (fun file : String × Bytes => wazPath file.1 = true)
      (fun file => t.sha256 file.2) fun file => t.sha256 file.2 :=
    Splits.fixed (fun file => hdigest file.2) fun _ _ _ _ h => h
  refine ((hlength.prefixed.append hcontent).append hsha).rekey fun file file' _ _ h => ?_
  simp only [Prod.mk.injEq] at h
  exact Prod.ext (name_inj h.1.1) h.2

theorem payloadRecord_ne_nil (file : String × Bytes) : payloadRecord t file ≠ [] := by
  intro h
  have hlength := congrArg List.length h
  simp only [payloadRecord, List.length_append, littleEndian_length, List.length_nil] at hlength
  omega

theorem covered_inj {files' : Files} (hdigest : ∀ data, (t.sha256 data).length = 32)
    (hnames : ∀ file ∈ files, wazPath file.1 = true) (hnames' : ∀ file ∈ files', wazPath file.1 = true)
    (h : payloadInput t files = payloadInput t files') :
    (covered files).map (fun file => (file.1, t.sha256 file.2)) =
      (covered files').map fun file => (file.1, t.sha256 file.2) :=
  (payloadRecord_splits hdigest).flatMap (fun file _ => payloadRecord_ne_nil file)
    (fun file hfile => hnames file (List.mem_filter.mp hfile).1)
    (fun file hfile => hnames' file (List.mem_filter.mp hfile).1) (List.append_cancel_left h)

theorem FileMap.nodup (a : FileMap) : (a.files.map Prod.fst).Nodup :=
  List.pairwise_map.mpr (a.sorted.imp fun h => String.ne_of_lt h)

theorem FileMap.lookup_eq_some (a : FileMap) :
    a.files.lookup name = some content ↔ (name, content) ∈ a.files := by
  constructor
  · intro h
    obtain ⟨before, after, heq, -⟩ := List.lookup_eq_some_iff.mp h
    rw [heq]
    simp
  · exact Json.lookup_of_mem a.nodup

theorem mem_covered {file : String × Bytes} :
    file ∈ covered files ↔ file ∈ files ∧ file.1 ≠ signatureFile := by
  rw [covered, List.mem_filter, bne_iff_ne]

theorem same_iff : Same a b ↔ covered a.files = covered b.files := by
  constructor
  · intro h
    refine (a.sorted.filter _).eq_of_mem_iff (b.sorted.filter _) fun file => ?_
    change file ∈ covered a.files ↔ file ∈ covered b.files
    rw [mem_covered, mem_covered]
    refine and_congr_left fun hname => ?_
    rw [← a.lookup_eq_some, ← b.lookup_eq_some, h file.1 hname]
  · intro h name hname
    apply Option.ext
    intro content
    have hcovered (m : FileMap) : m.files.lookup name = some content ↔ (name, content) ∈ covered m.files := by
      rw [m.lookup_eq_some, mem_covered]
      exact (and_iff_left hname).symm
    rw [hcovered a, hcovered b, h]

/-- The digests of two maps are equal only for equal contents. -/
def Injective (t : Trust) (a b : FileMap) : Prop :=
  ∀ file ∈ a.files, ∀ file' ∈ b.files, t.sha256 file.2 = t.sha256 file'.2 → file.2 = file'.2

theorem eq_of_map {α β : Type} {f : α → β} {as bs : List α}
    (hinj : ∀ a ∈ as, ∀ b ∈ bs, f a = f b → a = b) (h : as.map f = bs.map f) : as = bs := by
  induction as generalizing bs with
  | nil => exact (List.map_eq_nil_iff.mp h.symm).symm
  | cons a as ih =>
      cases bs with
      | nil => cases h
      | cons b bs =>
          obtain ⟨hab, hrest⟩ := List.cons.inj h
          rw [hinj a List.mem_cons_self b List.mem_cons_self hab, ih (fun x hx y hy =>
            hinj x (List.mem_cons_of_mem _ hx) y (List.mem_cons_of_mem _ hy)) hrest]

theorem payloadInput_iff (hdigest : ∀ data, (t.sha256 data).length = 32)
    (ha : ∀ file ∈ a.files, wazPath file.1 = true) (hb : ∀ file ∈ b.files, wazPath file.1 = true)
    (hinj : Injective t a b) : payloadInput t a.files = payloadInput t b.files ↔ Same a b := by
  rw [same_iff]
  constructor
  · intro h
    refine eq_of_map (fun file hfile file' hfile' heq => ?_) (covered_inj hdigest ha hb h)
    obtain ⟨hname, hcontent⟩ := Prod.mk.inj heq
    exact Prod.ext hname (hinj file (mem_covered.mp hfile).1 file' (mem_covered.mp hfile').1 hcontent)
  · intro h
    rw [payloadInput, payloadInput, h]

instance : Std.Total named := ⟨fun a b => String.le_total a.1 b.1⟩

instance : IsTrans (String × Bytes) named := ⟨fun _ _ _ h h' => String.le_trans h h'⟩

theorem lt_of_named {a b : String × Bytes} (h : named a b) (hne : a.1 ≠ b.1) : a.1 < b.1 :=
  String.not_le.mp fun hge => hne (String.le_antisymm h hge)

/-- The files of an archive are a map. -/
theorem wazRead_map (h : wazRead zip bytes = .ok files) :
    ∃ m : FileMap, m.files = files ∧ ∀ file ∈ m.files, wazPath file.1 = true := by
  have htidy := wazRead_tidy h
  obtain ⟨record, reading, haccepted, rfl⟩ := wazRead_spec h
  obtain ⟨archive, -, -, hreading⟩ := haccepted.entries
  have hordered : reading.files.Pairwise named := by
    refine foldlM_invariant (P := fun reading => reading.files.Pairwise named) hreading .nil ?_
    rintro item - reading reading' hordered hstep
    obtain ⟨entry, p, -, htaken⟩ := readEntry_spec hstep
    rw [htaken.reading_eq]
    exact hordered.orderedInsert p.file reading.files
  have hnames : reading.files.Pairwise fun a b => a.1 ≠ b.1 := List.pairwise_map.mp htidy.names
  exact ⟨⟨reading.files, hordered.imp₂ (fun _ _ => lt_of_named) hnames⟩, rfl, htidy.paths⟩

end

/-- Two packages are signed alike only if they have the same files, whatever their signatures. -/
theorem payload_determines {t : Trust} {a b : FileMap}
    (hdigest : ∀ data, (t.sha256 data).length = 32)
    (ha : ∀ file ∈ a.files, wazPath file.1 = true) (hb : ∀ file ∈ b.files, wazPath file.1 = true)
    (hinj : Injective t a b) :
    (payloadInput t a.files = payloadInput t b.files ↔ Same a b) ∧
    ((t.sha256 (payloadInput t a.files) = t.sha256 (payloadInput t b.files) →
        payloadInput t a.files = payloadInput t b.files) →
      (signaturePrefix ++ wazPayload t a.files = signaturePrefix ++ wazPayload t b.files ↔
        Same a b)) := by
  have hiff := payloadInput_iff hdigest ha hb hinj
  refine ⟨hiff, fun hcollision => ?_⟩
  rw [List.append_cancel_left_eq, wazPayload_eq, wazPayload_eq, ← hiff]
  constructor
  · exact hcollision
  · exact congrArg t.sha256

/-- The bytes up to the width of a digest, with zeros after them. -/
def padded (bytes : Bytes) : Bytes := (bytes ++ List.replicate 32 0).take 32

theorem padded_length (bytes : Bytes) : (padded bytes).length = 32 := by
  rw [padded, List.length_take, List.length_append, List.length_replicate]
  omega

def paddedTrust : Trust := { Revocation.trust with sha256 := padded }

def mapOf (content signature : Bytes) : FileMap where
  files := [("manifest.json", content), ("signature.json", signature)]
  sorted := by
    rw [List.pairwise_pair]
    change "manifest.json" < "signature.json"
    decide

theorem mapOf_paths (content signature : Bytes) :
    ∀ file ∈ (mapOf content signature).files, wazPath file.1 = true := by
  intro file hfile
  have hname : file.1 = "manifest.json" ∨ file.1 = "signature.json" := by
    obtain rfl | rfl : file = ("manifest.json", content) ∨ file = ("signature.json", signature) := by
      simpa [mapOf] using hfile
    · exact .inl rfl
    · exact .inr rfl
  obtain h | h := hname
  · rw [h]
    decide
  · rw [h]
    decide

/-- With another manifest, the digest covers other bytes. -/
theorem payload_determines_manifest :
    payloadInput paddedTrust (mapOf [1] [3]).files ≠ payloadInput paddedTrust (mapOf [2] [3]).files := by
  intro h
  have hinj : Injective paddedTrust (mapOf [1] [3]) (mapOf [2] [3]) := by
    intro file hfile file' hfile' heq
    have hcontent : file.2 ∈ [[1], [3]] := List.mem_map.mpr ⟨file, hfile, rfl⟩
    have hcontent' : file'.2 ∈ [[2], [3]] := List.mem_map.mpr ⟨file', hfile', rfl⟩
    have hall : ∀ x ∈ [[1], [3]], ∀ y ∈ [[2], [3]], padded x = padded y → x = y := by decide
    exact hall _ hcontent _ hcontent' heq
  have hsame := (payload_determines (t := paddedTrust) padded_length (mapOf_paths [1] [3])
    (mapOf_paths [2] [3]) hinj).1.mp h "manifest.json" (by decide)
  exact absurd hsame (by decide)

end Pishoo.Payload
