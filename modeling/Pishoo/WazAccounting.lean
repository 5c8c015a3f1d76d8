import Pishoo.Waz

namespace Pishoo.WazAccounting

open PathText Publication Result Checked Tiling Waz

structure LocalRecord where
  header : Bytes
  name : Bytes
  extra : Bytes
  data : Bytes

structure CentralRecord where
  header : Bytes
  name : Bytes
  extra : Bytes
  comment : Bytes

def LocalRecord.bytes (r : LocalRecord) : Bytes := r.header ++ r.name ++ r.extra ++ r.data

def CentralRecord.bytes (r : CentralRecord) : Bytes := r.header ++ r.name ++ r.extra ++ r.comment

/-- The header says how long the other parts are. -/
structure LocalRecord.WellFormed (r : LocalRecord) : Prop where
  header : r.header.length = 30
  signature : part r.header 0 4 = localSignature
  name : r.name.length = fieldAt r.header 26 2
  extra : r.extra.length = fieldAt r.header 28 2
  data : r.data.length = fieldAt r.header 18 4

structure CentralRecord.WellFormed (r : CentralRecord) : Prop where
  header : r.header.length = 46
  signature : part r.header 0 4 = centralSignature
  name : r.name.length = fieldAt r.header 28 2
  extra : r.extra.length = fieldAt r.header 30 2
  comment : r.comment.length = fieldAt r.header 32 2

/-- A file with the two records that are about it. -/
structure Member where
  file : String × Bytes
  localRecord : LocalRecord
  centralRecord : CentralRecord

/-- What the two records say of a file. The name in the central record is not compared with
anything: an extra field may stand for it. -/
structure Member.Agrees (m : Member) : Prop where
  localForm : m.localRecord.WellFormed
  centralForm : m.centralRecord.WellFormed
  name : m.localRecord.name = asBytes m.file.1
  flags : fieldAt m.localRecord.header 6 2 = fieldAt m.centralRecord.header 8 2
  method : fieldAt m.localRecord.header 8 2 = fieldAt m.centralRecord.header 10 2
  crc : fieldAt m.localRecord.header 14 4 = fieldAt m.centralRecord.header 16 4
  compressedSize : fieldAt m.localRecord.header 18 4 = fieldAt m.centralRecord.header 20 4
  size : fieldAt m.localRecord.header 22 4 = fieldAt m.centralRecord.header 24 4
  content : m.file.2.length = fieldAt m.centralRecord.header 24 4

/-- All bytes of an archive belong to the records of its files or to the end record. -/
structure Partition (bytes : Bytes) (files : Files) where
  members : List Member
  locals : List LocalRecord
  centrals : List CentralRecord
  ending : Bytes
  agrees : ∀ m ∈ members, m.Agrees
  files_perm : files.Perm (members.map Member.file)
  locals_perm : locals.Perm (members.map Member.localRecord)
  centrals_perm : centrals.Perm (members.map Member.centralRecord)
  ending_length : ending.length = 22
  directoryStart : (locals.flatMap LocalRecord.bytes).length = fieldAt ending 16 4
  bytes_eq : bytes = locals.flatMap LocalRecord.bytes ++ centrals.flatMap CentralRecord.bytes ++ ending

/-- A directory above a file. -/
def Ancestor (directory name : Text) : Prop := ∃ rest, name = directory ++ '/' :: rest

/-- The files of a package have names of their own and keep to the limits. -/
structure Tidy (files : Files) : Prop where
  names : (files.map Prod.fst).Nodup
  total : (files.map fun file => file.2.length).sum ≤ limit
  limits : ∀ file ∈ files, file.2.length ≤ entryLimit file.1
  paths : ∀ file ∈ files, wazPath file.1 = true
  ancestors : ∀ file ∈ files, ∀ directory ∈ files, ¬Ancestor (chars directory.1) (chars file.1)
  directories : ∀ directories : List Text, directories.Nodup →
    (∀ directory ∈ directories, ∃ file ∈ files, Ancestor directory (chars file.1)) →
    files.length + directories.length ≤ 10000

structure Accounted (bytes : Bytes) (files : Files) : Prop extends Tidy files where
  partition : Nonempty (Partition bytes files)

def compressionOf (method : Nat) : Compression :=
  if method = 0 then .stored else if method = 8 then .deflated else .other

/-- The fixed part of the central record that an entry comes from. -/
def centralHeader (bytes : Bytes) (entry : ZipEntry) : Bytes :=
  part bytes entry.centralHeaderStart.toNat (entry.centralHeaderStart.toNat + 46)

/-- The crate reports what the central directory says of an entry. -/
structure Reports (bytes : Bytes) (entry : ZipEntry) : Prop where
  compression : entry.compression = compressionOf (fieldAt (centralHeader bytes entry) 10 2)
  crc32 : entry.crc32.toNat = fieldAt (centralHeader bytes entry) 16 4
  compressedSize : entry.compressedSize.toNat = fieldAt (centralHeader bytes entry) 20 4
  size : entry.size.toNat = fieldAt (centralHeader bytes entry) 24 4

def Faithful (zip : Zip) (bytes : Bytes) : Prop :=
  ∀ archive, zip bytes = .ok archive → ∀ entry, .ok entry ∈ archive.entries → Reports bytes entry

def localAt (bytes : Bytes) (span : Span) : LocalRecord :=
  let header := part bytes span.start (span.start + 30)
  let nameEnd := span.start + 30 + fieldAt header 26 2
  let data := nameEnd + fieldAt header 28 2
  ⟨header, part bytes (span.start + 30) nameEnd, part bytes nameEnd data, part bytes data span.stop⟩

def centralAt (bytes : Bytes) (span : Span) : CentralRecord :=
  let header := part bytes span.start (span.start + 46)
  let nameEnd := span.start + 46 + fieldAt header 28 2
  let extraEnd := nameEnd + fieldAt header 30 2
  ⟨header, part bytes (span.start + 46) nameEnd, part bytes nameEnd extraEnd,
    part bytes extraEnd span.stop⟩

/-- A file that has been read, and where its records lie. -/
structure Placed where
  file : String × Bytes
  place : Span
  central : Span

def Placed.member (bytes : Bytes) (p : Placed) : Member :=
  ⟨p.file, localAt bytes p.place, centralAt bytes p.central⟩

structure Placed.Sound (trusted : Prop) (bytes : Bytes) (p : Placed) : Prop where
  agrees : trusted → (p.member bytes).Agrees
  path : wazPath p.file.1 = true
  size : p.file.2.length ≤ entryLimit p.file.1
  place : p.place.start ≤ p.place.stop
  central : p.central.start ≤ p.central.stop
  localBytes : (localAt bytes p.place).bytes = part bytes p.place.start p.place.stop
  centralBytes : (centralAt bytes p.central).bytes = part bytes p.central.start p.central.stop

/-- What has been read, and where. The crate may be trusted to report the central directory. -/
structure Holds (trusted : Prop) (bytes : Bytes) (placed : List Placed) (reading : Reading) : Prop where
  sound : ∀ p ∈ placed, p.Sound trusted bytes
  files : reading.files.Perm (placed.map Placed.file)
  spans : reading.spans.Perm (placed.map Placed.place)
  centralSpans : reading.centralSpans.Perm (placed.map Placed.central)
  names : (placed.map fun p => p.file.1).Nodup
  total : (placed.map fun p => p.file.2.length).sum + reading.remaining = limit

section

variable {bytes : Bytes} {entry : ZipEntry} {header : Header} {directoryStart stop flags : Nat}
  {spans : List Span} {span : Span} {name : String} {content : Bytes} {reading reading' : Reading}
  {offset width n : Nat}

theorem number_lt (bytes : Bytes) : number bytes < 256 ^ bytes.length := by
  induction bytes with
  | nil => exact Nat.one_pos
  | cons b bytes ih =>
      have hb := b.toNat_lt
      simp only [number, List.foldr_cons, List.length_cons] at ih ⊢
      omega

theorem readField_eq_ok (h : readField bytes offset width = .ok n) : n = fieldAt bytes offset width := by
  obtain ⟨field, hfield, h⟩ := bind_eq_ok.mp h
  cases h
  rw [index_eq_ok hfield, fieldAt]

theorem readField_safe (h : offset + width ≤ bytes.length) : Safe (readField bytes offset width) :=
  Safe.bind (Safe.index (Nat.le_add_right _ _) h) fun _ _ => Safe.ok

theorem fieldAt_lt (h : offset + width ≤ bytes.length) : fieldAt bytes offset width < 256 ^ width := by
  have hlt := number_lt (part bytes offset (offset + width))
  rwa [length_part h, Nat.add_sub_cancel_left] at hlt

theorem readField_lt (hlength : offset + width ≤ bytes.length)
    (h : readField bytes offset width = .ok n) : n < 256 ^ width := by
  rw [readField_eq_ok h]
  exact fieldAt_lt hlength

structure Located (bytes : Bytes) (entry : ZipEntry) (header : Header) : Prop where
  start : header.start = entry.headerStart.toNat
  data : header.data = entry.dataStart.toNat
  stop : header.stop = header.data + entry.compressedSize.toNat
  inside : header.start + 30 ≤ bytes.length
  bytes_eq : header.bytes = part bytes header.start (header.start + 30)
  nameLength : header.nameLength = fieldAt header.bytes 26 2
  extraLength : header.extraLength = fieldAt header.bytes 28 2
  flags : header.flags = fieldAt header.bytes 6 2

theorem orReject_eq_ok {ε α : Type} {x : Option α} {e : ε} {a : α} (h : orReject x e = .ok a) :
    x = some a := by
  cases x with
  | none => cases h
  | some b =>
      cases h
      rfl

theorem localHeader_spec (h : localHeader bytes entry = .ok header) : Located bytes entry header := by
  obtain ⟨stop, hstop, h⟩ := bind_eq_ok.mp h
  obtain ⟨headerEnd, hend, h⟩ := bind_eq_ok.mp h
  obtain ⟨part, hpart, h⟩ := bind_eq_ok.mp h
  obtain ⟨nameLength, hname, h⟩ := bind_eq_ok.mp h
  obtain ⟨extraLength, hextra, h⟩ := bind_eq_ok.mp h
  obtain ⟨flags, hflags, h⟩ := bind_eq_ok.mp h
  cases h
  obtain ⟨-, rfl⟩ := checkedAdd_eq_some.mp (orReject_eq_ok hstop)
  obtain ⟨-, rfl⟩ := checkedAdd_eq_some.mp (orReject_eq_ok hend)
  obtain ⟨⟨-, hinside⟩, hbytes⟩ := get_eq_some.mp (orReject_eq_ok hpart)
  exact ⟨rfl, rfl, rfl, hinside, hbytes, readField_eq_ok hname, readField_eq_ok hextra,
    readField_eq_ok hflags⟩

theorem Located.length (h : Located bytes entry header) : header.bytes.length = 30 := by
  rw [h.bytes_eq, length_part h.inside, Nat.add_sub_cancel_left]

theorem localHeader_safe : Safe (localHeader bytes entry) := by
  refine Safe.bind Safe.orReject fun stop _ => Safe.bind Safe.orReject fun headerEnd hend => ?_
  refine Safe.bind Safe.orReject fun header hheader => ?_
  obtain ⟨-, rfl⟩ := checkedAdd_eq_some.mp (orReject_eq_ok hend)
  obtain ⟨⟨-, hinside⟩, hpart⟩ := get_eq_some.mp (orReject_eq_ok hheader)
  have hlength : header.length = 30 := by
    rw [hpart, length_part hinside, Nat.add_sub_cancel_left]
  refine Safe.bind (readField_safe (by omega)) fun _ _ => ?_
  refine Safe.bind (readField_safe (by omega)) fun _ _ => ?_
  exact Safe.bind (readField_safe (by omega)) fun _ _ => Safe.ok

/-- What has been checked of a central record that reaches up to `span.stop`. -/
structure CentralPlace (bytes : Bytes) (directoryStart stop : Nat) (spans : List Span)
    (flags : Nat) (entry : ZipEntry) (span : Span) : Prop where
  start : span.start = entry.centralHeaderStart.toNat
  inside : span.start + 46 ≤ bytes.length
  length : span.stop = span.start + (46 + fieldAt (centralHeader bytes entry) 28 2 +
    fieldAt (centralHeader bytes entry) 30 2 + fieldAt (centralHeader bytes entry) 32 2)
  signature : part (centralHeader bytes entry) 0 4 = centralSignature
  low : directoryStart ≤ span.start
  high : span.stop ≤ stop
  flags : fieldAt (centralHeader bytes entry) 8 2 = flags
  fresh : startsAt spans span.start = false

theorem centralSpan_spec (h : centralSpan bytes directoryStart stop spans flags entry = .ok span) :
    CentralPlace bytes directoryStart stop spans flags entry span := by
  obtain ⟨headerEnd, hend, h⟩ := bind_eq_ok.mp h
  obtain ⟨header, hheader, h⟩ := bind_eq_ok.mp h
  obtain ⟨nameLength, hname, h⟩ := bind_eq_ok.mp h
  obtain ⟨extraLength, hextra, h⟩ := bind_eq_ok.mp h
  obtain ⟨commentLength, hcomment, h⟩ := bind_eq_ok.mp h
  obtain ⟨length, hlength, h⟩ := bind_eq_ok.mp h
  obtain ⟨length', hlength', h⟩ := bind_eq_ok.mp h
  obtain ⟨length'', hlength'', h⟩ := bind_eq_ok.mp h
  obtain ⟨centralEnd, hcentralEnd, h⟩ := bind_eq_ok.mp h
  obtain ⟨signature, hsignature, h⟩ := bind_eq_ok.mp h
  obtain ⟨_, hplace, h⟩ := bind_eq_ok.mp h
  obtain ⟨centralFlags, hflags, h⟩ := bind_eq_ok.mp h
  obtain ⟨_, hfresh, h⟩ := bind_eq_ok.mp h
  cases h
  obtain ⟨-, rfl⟩ := checkedAdd_eq_some.mp (orReject_eq_ok hend)
  obtain ⟨⟨-, hinside⟩, rfl⟩ := get_eq_some.mp (orReject_eq_ok hheader)
  obtain ⟨-, rfl⟩ := checkedAdd_eq_some.mp (orReject_eq_ok hcentralEnd)
  rw [readField_eq_ok hname] at hlength
  rw [add_eq_ok hlength, readField_eq_ok hextra] at hlength'
  rw [add_eq_ok hlength', readField_eq_ok hcomment] at hlength''
  rw [add_eq_ok hlength''] at hplace ⊢
  rw [index_eq_ok hsignature] at hplace
  rw [readField_eq_ok hflags] at hfresh
  simp only [failIf_eq_ok, not_or, not_not, Nat.not_lt, Bool.not_eq_true] at hplace hfresh
  exact ⟨rfl, hinside, rfl, hplace.1, hplace.2.1, hplace.2.2, hfresh.1, hfresh.2⟩

theorem centralSpan_safe : Safe (centralSpan bytes directoryStart stop spans flags entry) := by
  refine Safe.bind Safe.orReject fun headerEnd hend => Safe.bind Safe.orReject fun header hheader => ?_
  obtain ⟨-, rfl⟩ := checkedAdd_eq_some.mp (orReject_eq_ok hend)
  obtain ⟨⟨-, hinside⟩, hpart⟩ := get_eq_some.mp (orReject_eq_ok hheader)
  have hlength : header.length = 46 := by
    rw [hpart, length_part hinside, Nat.add_sub_cancel_left]
  have hword : word = 2 ^ 64 := rfl
  refine Safe.bind (readField_safe (by omega)) fun nameLength hname => ?_
  refine Safe.bind (readField_safe (by omega)) fun extraLength hextra => ?_
  refine Safe.bind (readField_safe (by omega)) fun commentLength hcomment => ?_
  have hnameLt := readField_lt (by omega) hname
  have hextraLt := readField_lt (by omega) hextra
  have hcommentLt := readField_lt (by omega) hcomment
  refine Safe.bind (Safe.add (by omega)) fun sum hsum => ?_
  obtain rfl := add_eq_ok hsum
  refine Safe.bind (Safe.add (by omega)) fun sum hsum => ?_
  obtain rfl := add_eq_ok hsum
  refine Safe.bind (Safe.add (by omega)) fun _ _ => Safe.bind Safe.orReject fun _ _ => ?_
  refine Safe.bind (Safe.index (by omega) (by omega)) fun _ _ => Safe.bind Safe.failIf fun _ _ => ?_
  exact Safe.bind (readField_safe (by omega)) fun _ _ => Safe.bind Safe.failIf fun _ _ => Safe.ok

/-- What has been checked of a local record. -/
structure LocalPlace (bytes : Bytes) (directoryStart : Nat) (spans : List Span) (name : String)
    (entry : ZipEntry) (header : Header) : Prop where
  signature : part header.bytes 0 4 = localSignature
  inside : header.start + 30 + header.nameLength ≤ bytes.length
  name : part bytes (header.start + 30) (header.start + 30 + header.nameLength) = asBytes name
  data : header.start + 30 + header.nameLength + header.extraLength = header.data
  method : fieldAt header.bytes 8 2 = methodOf entry.compression
  crc32 : fieldAt header.bytes 14 4 = entry.crc32.toNat
  compressedSize : fieldAt header.bytes 18 4 = entry.compressedSize.toNat
  size : fieldAt header.bytes 22 4 = entry.size.toNat
  high : header.stop ≤ directoryStart
  fresh : startsAt spans header.start = false

theorem checkLocal_spec (h : checkLocal bytes directoryStart spans name entry header = .ok ()) :
    LocalPlace bytes directoryStart spans name entry header := by
  obtain ⟨signature, hsignature, h⟩ := bind_eq_ok.mp h
  obtain ⟨_, hflags, h⟩ := bind_eq_ok.mp h
  obtain ⟨nameStart, hstart, h⟩ := bind_eq_ok.mp h
  obtain ⟨nameEnd, hend, h⟩ := bind_eq_ok.mp h
  obtain ⟨_, hname, h⟩ := bind_eq_ok.mp h
  obtain ⟨dataStart, hdata, h⟩ := bind_eq_ok.mp h
  obtain ⟨method, hmethod, h⟩ := bind_eq_ok.mp h
  obtain ⟨crc, hcrc, h⟩ := bind_eq_ok.mp h
  obtain ⟨compressedSize, hcompressed, h⟩ := bind_eq_ok.mp h
  obtain ⟨size, hsize, hrest⟩ := bind_eq_ok.mp h
  obtain rfl := add_eq_ok hstart
  obtain rfl := add_eq_ok hend
  rw [index_eq_ok hsignature] at hflags
  rw [add_eq_ok hdata, readField_eq_ok hmethod, readField_eq_ok hcrc, readField_eq_ok hcompressed,
    readField_eq_ok hsize] at hrest
  simp only [failIf_eq_ok, not_or, not_not, Nat.not_lt, Bool.not_eq_true] at hflags hname hrest
  obtain ⟨⟨-, hinside⟩, hpart⟩ := get_eq_some.mp hname
  exact ⟨hflags.1, hinside, hpart.symm, hrest.1, hrest.2.1, hrest.2.2.1, hrest.2.2.2.1,
    hrest.2.2.2.2.1, hrest.2.2.2.2.2.1, hrest.2.2.2.2.2.2⟩

theorem checkLocal_safe (h : Located bytes entry header) (hlimit : bytes.length ≤ limit) :
    Safe (checkLocal bytes directoryStart spans name entry header) := by
  have hlength := h.length
  have hinside := h.inside
  have hword : word = 2 ^ 64 := rfl
  have hbound : limit = 2 ^ 26 := rfl
  have hnameLt := fieldAt_lt (show 26 + 2 ≤ header.bytes.length by omega)
  have hextraLt := fieldAt_lt (show 28 + 2 ≤ header.bytes.length by omega)
  rw [← h.nameLength] at hnameLt
  rw [← h.extraLength] at hextraLt
  refine Safe.bind (Safe.index (by omega) (by omega)) fun _ _ => Safe.bind Safe.failIf fun _ _ => ?_
  refine Safe.bind (Safe.add (by omega)) fun nameStart hstart => ?_
  obtain rfl := add_eq_ok hstart
  refine Safe.bind (Safe.add (by omega)) fun nameEnd hend => Safe.bind Safe.failIf fun _ _ => ?_
  obtain rfl := add_eq_ok hend
  refine Safe.bind (Safe.add (by omega)) fun _ _ => ?_
  refine Safe.bind (readField_safe (by omega)) fun _ _ => ?_
  refine Safe.bind (readField_safe (by omega)) fun _ _ => ?_
  refine Safe.bind (readField_safe (by omega)) fun _ _ => ?_
  exact Safe.bind (readField_safe (by omega)) fun _ _ => Safe.failIf

theorem readContent_spec {size : Nat} (h : readContent entry size = .ok content) :
    content.length = size := by
  obtain ⟨_, -, h⟩ := bind_eq_ok.mp h
  obtain ⟨content', -, h⟩ := bind_eq_ok.mp h
  obtain ⟨_, hlength, h⟩ := bind_eq_ok.mp h
  cases h
  simpa using hlength

theorem readContent_safe {size : Nat} (h : size ≤ limit) : Safe (readContent entry size) := by
  have hword : word = 2 ^ 64 := rfl
  have hbound : limit = 2 ^ 26 := rfl
  refine Safe.bind (Safe.add (by omega)) fun _ _ => Safe.bind Safe.ofExcept fun _ _ => ?_
  exact Safe.bind Safe.failIf fun _ _ => Safe.ok

theorem entryLimit_le (name : String) : entryLimit name ≤ limit := by
  unfold entryLimit limit
  split_ifs <;> decide

theorem readEntry_safe {item : Except String ZipEntry} (hlimit : bytes.length ≤ limit) :
    Safe (readEntry bytes directoryStart stop reading item) := by
  refine Safe.bind Safe.ofExcept fun entry _ => Safe.bind Safe.orReject fun name _ => ?_
  refine Safe.bind Safe.failIf fun _ _ => Safe.bind Safe.failIf fun _ hsize => ?_
  have hsize : entry.size.toNat ≤ min (entryLimit name) reading.remaining := by simpa using hsize
  have hbound := entryLimit_le name
  refine Safe.bind localHeader_safe fun header hheader => Safe.bind centralSpan_safe fun _ _ => ?_
  refine Safe.bind (checkLocal_safe (localHeader_spec hheader) hlimit) fun _ _ => ?_
  refine Safe.bind (readContent_safe (by omega)) fun content hcontent => ?_
  have hlength := readContent_spec hcontent
  exact Safe.bind (Safe.sub (by omega)) fun _ _ => Safe.ok

/-- One entry that has been taken up. -/
structure Taken (bytes : Bytes) (directoryStart stop : Nat) (entry : ZipEntry) (reading : Reading)
    (p : Placed) (reading' : Reading) : Prop where
  fit : unfit reading.files entry p.file.1 = false
  size : p.file.2.length = entry.size.toNat
  small : p.file.2.length ≤ min (entryLimit p.file.1) reading.remaining
  localPlace : ∃ header, Located bytes entry header ∧
    LocalPlace bytes directoryStart reading.spans p.file.1 entry header ∧
    p.place = ⟨header.start, header.stop⟩ ∧
    CentralPlace bytes directoryStart stop reading.centralSpans header.flags entry p.central
  reading_eq : reading' =
    { files := reading.files.orderedInsert named p.file
      spans := insertSpan p.place reading.spans
      centralSpans := insertSpan p.central reading.centralSpans
      remaining := reading.remaining - p.file.2.length }

theorem readEntry_spec {item : Except String ZipEntry}
    (h : readEntry bytes directoryStart stop reading item = .ok reading') :
    ∃ entry p, item = .ok entry ∧ Taken bytes directoryStart stop entry reading p reading' := by
  obtain ⟨entry, hentry, h⟩ := bind_eq_ok.mp h
  obtain ⟨name, hname, h⟩ := bind_eq_ok.mp h
  obtain ⟨_, hfit, h⟩ := bind_eq_ok.mp h
  obtain ⟨_, hsize, h⟩ := bind_eq_ok.mp h
  obtain ⟨header, hheader, h⟩ := bind_eq_ok.mp h
  obtain ⟨central, hcentral, h⟩ := bind_eq_ok.mp h
  obtain ⟨_, hlocal, h⟩ := bind_eq_ok.mp h
  obtain ⟨content, hcontent, h⟩ := bind_eq_ok.mp h
  obtain ⟨remaining, hremaining, h⟩ := bind_eq_ok.mp h
  cases h
  have hlength := readContent_spec hcontent
  simp only [failIf_eq_ok, Nat.not_lt, Bool.not_eq_true] at hfit hsize
  obtain ⟨-, rfl⟩ := sub_eq_ok hremaining
  refine ⟨entry, ⟨(name, content), ⟨header.start, header.stop⟩, central⟩, mapError_eq_ok.mp hentry, ?_⟩
  exact ⟨hfit, hlength, hlength ▸ hsize, ⟨header, localHeader_spec hheader, checkLocal_spec hlocal,
    rfl, centralSpan_spec hcentral⟩, rfl⟩

theorem part_zero_part {l : Bytes} {start first last n : Nat} (h : last ≤ n) :
    part (part l start (start + n)) first last = part l (start + first) (start + last) :=
  part_part (by omega)

theorem Taken.unfit_spec {p : Placed} (h : Taken bytes directoryStart stop entry reading p reading') :
    wazPath p.file.1 = true ∧ entry.compression ≠ .other ∧
      hasFile reading.files (chars p.file.1) = false := by
  have hfit := h.fit
  simp only [unfit, Bool.or_eq_false_iff, Bool.not_eq_false', beq_eq_false_iff_ne] at hfit
  exact ⟨hfit.1.1.1.1.1, hfit.1.1.2, hfit.2⟩

theorem methodOf_compressionOf {method : Nat} (h : compressionOf method ≠ .other) :
    methodOf (compressionOf method) = method := by
  unfold compressionOf at h ⊢
  split
  · rename_i h0
    rw [h0]
    rfl
  · rename_i h0
    rw [if_neg h0] at h
    split
    · rename_i h8
      rw [h8]
      rfl
    · rename_i h8
      exact absurd (if_neg h8) h

@[simp] theorem localAt_header {bytes : Bytes} {span : Span} :
    (localAt bytes span).header = part bytes span.start (span.start + 30) :=
  rfl

@[simp] theorem centralAt_header {bytes : Bytes} {span : Span} :
    (centralAt bytes span).header = part bytes span.start (span.start + 46) :=
  rfl

theorem localAt_bytes {bytes : Bytes} {span : Span}
    (h : span.start + 30 + fieldAt (part bytes span.start (span.start + 30)) 26 2 +
      fieldAt (part bytes span.start (span.start + 30)) 28 2 ≤ span.stop) :
    (localAt bytes span).bytes = part bytes span.start span.stop := by
  rw [LocalRecord.bytes, localAt, part_append (by omega) (by omega),
    part_append (by omega) (by omega), part_append (by omega) (by omega)]

theorem centralAt_bytes {bytes : Bytes} {span : Span}
    (h : span.start + 46 + fieldAt (part bytes span.start (span.start + 46)) 28 2 +
      fieldAt (part bytes span.start (span.start + 46)) 30 2 ≤ span.stop) :
    (centralAt bytes span).bytes = part bytes span.start span.stop := by
  rw [CentralRecord.bytes, centralAt, part_append (by omega) (by omega),
    part_append (by omega) (by omega), part_append (by omega) (by omega)]

theorem localAt_wellFormed {header : Header} {spans : List Span} (hlocated : Located bytes entry header)
    (hplace : LocalPlace bytes directoryStart spans name entry header)
    (hinside : header.stop ≤ bytes.length) :
    (localAt bytes ⟨header.start, header.stop⟩).WellFormed where
  header := by rw [localAt_header, ← hlocated.bytes_eq, hlocated.length]
  signature := by rw [localAt_header, ← hlocated.bytes_eq, hplace.signature]
  name := by
    simp only [localAt, ← hlocated.bytes_eq, ← hlocated.nameLength]
    rw [length_part hplace.inside, Nat.add_sub_cancel_left]
  extra := by
    have hdata := hplace.data
    have hstop := hlocated.stop
    simp only [localAt, ← hlocated.bytes_eq, ← hlocated.nameLength, ← hlocated.extraLength]
    rw [length_part (by omega), Nat.add_sub_cancel_left]
  data := by
    have hstop := hlocated.stop
    simp only [localAt, ← hlocated.bytes_eq, ← hlocated.nameLength, ← hlocated.extraLength]
    rw [length_part hinside, hplace.data, hplace.compressedSize]
    omega

theorem centralAt_wellFormed {spans : List Span}
    (h : CentralPlace bytes directoryStart stop spans flags entry span) (hstop : stop ≤ bytes.length) :
    (centralAt bytes span).WellFormed := by
  have hheader : centralHeader bytes entry = part bytes span.start (span.start + 46) := by
    rw [centralHeader, h.start]
  have hlength := h.length
  have hhigh := h.high
  rw [hheader] at hlength
  refine ⟨?_, ?_, ?_, ?_, ?_⟩
  · rw [centralAt_header, length_part h.inside, Nat.add_sub_cancel_left]
  · rw [centralAt_header, ← hheader, h.signature]
  · rw [centralAt, length_part (by omega), Nat.add_sub_cancel_left]
  · rw [centralAt, length_part (by omega), Nat.add_sub_cancel_left]
  · rw [centralAt_header, centralAt, length_part (by omega)]
    omega

theorem Taken.agrees {p : Placed} (h : Taken bytes directoryStart stop entry reading p reading')
    (hreports : Reports bytes entry) (hstart : directoryStart ≤ stop) (hstop : stop ≤ bytes.length) :
    (p.member bytes).Agrees := by
  obtain ⟨-, hmethod, -⟩ := h.unfit_spec
  obtain ⟨header, hlocated, hplace, hspan, hcentral⟩ := h.localPlace
  have hlocalHeader : (p.member bytes).localRecord.header = header.bytes := by
    rw [Placed.member, localAt_header, hspan, hlocated.bytes_eq]
  have hcentralHeader : (p.member bytes).centralRecord.header = centralHeader bytes entry := by
    rw [Placed.member, centralAt_header, centralHeader, hcentral.start]
  rw [hreports.compression] at hmethod
  refine ⟨?_, centralAt_wellFormed hcentral hstop, ?_, ?_, ?_, ?_, ?_, ?_, ?_⟩
  · rw [Placed.member, hspan]
    exact localAt_wellFormed hlocated hplace ((hplace.high.trans hstart).trans hstop)
  · simp only [Placed.member, localAt, hspan, ← hlocated.bytes_eq, ← hlocated.nameLength, hplace.name]
  · rw [hlocalHeader, hcentralHeader, ← hlocated.flags, hcentral.flags]
  · rw [hlocalHeader, hcentralHeader, hplace.method, hreports.compression,
      methodOf_compressionOf hmethod]
  · rw [hlocalHeader, hcentralHeader, hplace.crc32, hreports.crc32]
  · rw [hlocalHeader, hcentralHeader, hplace.compressedSize, hreports.compressedSize]
  · rw [hlocalHeader, hcentralHeader, hplace.size, hreports.size]
  · rw [hcentralHeader, ← hreports.size]
    exact h.size

theorem Taken.sound {trusted : Prop} {p : Placed}
    (h : Taken bytes directoryStart stop entry reading p reading')
    (hreports : trusted → Reports bytes entry) (hstart : directoryStart ≤ stop)
    (hstop : stop ≤ bytes.length) : p.Sound trusted bytes := by
  obtain ⟨header, hlocated, hplace, hspan, hcentral⟩ := h.localPlace
  have hdata := hplace.data
  have hheaderStop := hlocated.stop
  have hlength := hcentral.length
  refine ⟨fun htrusted => h.agrees (hreports htrusted) hstart hstop, h.unfit_spec.1,
    h.small.trans (min_le_left _ _), ?_, by omega, ?_, ?_⟩
  · rw [hspan]
    dsimp only
    omega
  · rw [hspan]
    refine localAt_bytes ?_
    simp only [← hlocated.bytes_eq, ← hlocated.nameLength, ← hlocated.extraLength]
    omega
  · rw [centralHeader, ← hcentral.start] at hlength
    exact centralAt_bytes (by omega)

theorem not_startsAt {spans : List Span} {span : Span} {start : Nat} (h : startsAt spans start = false)
    (hspan : span ∈ spans) : span.start ≠ start := by
  intro heq
  rw [startsAt, List.any_eq_false] at h
  exact h span hspan (by simp [heq])

theorem hasFile_eq_false {files : Files} {name : Text} :
    hasFile files name = false ↔ ∀ file ∈ files, chars file.1 ≠ name := by
  simp [hasFile]

theorem Taken.holds {trusted : Prop} {p : Placed} {placed : List Placed}
    (h : Taken bytes directoryStart stop entry reading p reading') (hsound : p.Sound trusted bytes)
    (hholds : Holds trusted bytes placed reading) : Holds trusted bytes (p :: placed) reading' := by
  obtain ⟨-, -, hfile⟩ := h.unfit_spec
  have hremaining : p.file.2.length ≤ reading.remaining := h.small.trans (min_le_right _ _)
  rw [h.reading_eq]
  refine ⟨?_, ?_, ?_, ?_, ?_, ?_⟩
  · exact List.forall_mem_cons.mpr ⟨hsound, hholds.sound⟩
  · exact (List.perm_orderedInsert named _ _).trans (hholds.files.cons _)
  · exact (insertSpan_perm _ _).trans (hholds.spans.cons _)
  · exact (insertSpan_perm _ _).trans (hholds.centralSpans.cons _)
  · refine List.nodup_cons.mpr ⟨fun hmem => ?_, hholds.names⟩
    obtain ⟨q, hq, hname⟩ := List.mem_map.mp hmem
    have hqfile := hholds.files.mem_iff.mpr (List.mem_map_of_mem hq)
    exact hasFile_eq_false.mp hfile q.file hqfile (congrArg chars hname)
  · have htotal := hholds.total
    rw [List.map_cons, List.sum_cons]
    dsimp only
    omega

/-- Whatever has been read of the entries is accounted for. -/
theorem readEntries_holds {trusted : Prop} {entries : List (Except String ZipEntry)}
    {placed : List Placed}
    (h : entries.foldlM (readEntry bytes directoryStart stop) reading = .ok reading')
    (hreports : trusted → ∀ entry, .ok entry ∈ entries → Reports bytes entry)
    (hstart : directoryStart ≤ stop) (hstop : stop ≤ bytes.length)
    (hholds : Holds trusted bytes placed reading) : ∃ placed', Holds trusted bytes placed' reading' := by
  refine foldlM_invariant (P := fun reading => ∃ placed, Holds trusted bytes placed reading) h
    ⟨placed, hholds⟩ ?_
  rintro item hitem reading reading' ⟨placed, hholds⟩ hstep
  obtain ⟨entry, p, rfl, htaken⟩ := readEntry_spec hstep
  have hsound := htaken.sound (fun htrusted => hreports htrusted entry hitem) hstart hstop
  exact ⟨p :: placed, htaken.holds hsound hholds⟩

theorem readEntries_length {entries : List (Except String ZipEntry)}
    (h : entries.foldlM (readEntry bytes directoryStart stop) reading = .ok reading') :
    reading'.files.length = reading.files.length + entries.length := by
  induction entries generalizing reading with
  | nil =>
      cases h
      rfl
  | cons item entries ih =>
      rw [List.foldlM_cons] at h
      obtain ⟨next, hnext, h⟩ := bind_eq_ok.mp h
      obtain ⟨entry, p, -, htaken⟩ := readEntry_spec hnext
      rw [ih h, htaken.reading_eq, List.orderedInsert_length, List.length_cons]
      omega

theorem readEntries_safe {entries : List (Except String ZipEntry)} (hlimit : bytes.length ≤ limit) :
    Safe (entries.foldlM (readEntry bytes directoryStart stop) reading) :=
  Safe.foldlM (P := fun _ => True) trivial (fun _ _ _ _ => readEntry_safe hlimit) fun _ _ _ _ _ _ => trivial

end

section

variable {files : Files} {directories directories' : List Text} {name : Text}

theorem mem_reversedAncestors {text directory : Text} :
    directory ∈ reversedAncestors text ↔ ∃ rest, text = rest ++ '/' :: directory.reverse := by
  induction text with
  | nil => simp [reversedAncestors]
  | cons c text ih =>
      unfold reversedAncestors
      split
      · rename_i hc
        rw [List.mem_cons, ih]
        constructor
        · rintro (rfl | ⟨rest, rfl⟩)
          · exact ⟨[], by simp [hc]⟩
          · exact ⟨c :: rest, rfl⟩
        · rintro ⟨_ | ⟨_, rest⟩, h⟩
          · left
            simpa using (congrArg List.reverse (List.cons.inj h).2).symm
          · exact .inr ⟨rest, (List.cons.inj h).2⟩
      · rename_i hc
        rw [ih]
        constructor
        · rintro ⟨rest, rfl⟩
          exact ⟨c :: rest, rfl⟩
        · rintro ⟨_ | ⟨_, rest⟩, h⟩
          · exact absurd (List.cons.inj h).1 hc
          · exact ⟨rest, (List.cons.inj h).2⟩

theorem mem_ancestors {directory : Text} : directory ∈ ancestors name ↔ Ancestor directory name := by
  rw [ancestors, mem_reversedAncestors, Ancestor]
  constructor
  · rintro ⟨rest, h⟩
    exact ⟨rest.reverse, by simpa using congrArg List.reverse h⟩
  · rintro ⟨rest, rfl⟩
    exact ⟨rest.reverse, by simp⟩

/-- Directories that have been seen, and those below which no file may lie. -/
structure Seen (files : Files) (seen directories directories' : List Text) : Prop where
  apart : ∀ directory ∈ seen, hasFile files directory = false
  nodup : directories'.Nodup
  mem : ∀ directory, directory ∈ directories' ↔ directory ∈ directories ∨ directory ∈ seen
  small : seen ≠ [] → directories'.length + files.length ≤ 10000

theorem checkAncestor_spec (h : checkAncestor files directories name = .ok directories') :
    hasFile files name = false ∧ directories' = directories.insert name ∧
      directories'.length + files.length ≤ 10000 := by
  obtain ⟨_, hfile, h⟩ := bind_eq_ok.mp h
  obtain ⟨total, htotal, h⟩ := bind_eq_ok.mp h
  obtain ⟨_, hsmall, h⟩ := bind_eq_ok.mp h
  cases h
  rw [add_eq_ok htotal] at hsmall
  exact ⟨by simpa using hfile, rfl, by simpa using hsmall⟩

theorem checkAncestors_spec {seen : List Text} (hnodup : directories.Nodup)
    (h : seen.foldlM (checkAncestor files) directories = .ok directories') :
    Seen files seen directories directories' := by
  induction seen generalizing directories with
  | nil =>
      cases h
      exact ⟨nofun, hnodup, by simp, fun h => absurd rfl h⟩
  | cons name seen ih =>
      rw [List.foldlM_cons] at h
      obtain ⟨next, hnext, h⟩ := bind_eq_ok.mp h
      obtain ⟨hfile, rfl, hsmall⟩ := checkAncestor_spec hnext
      have hseen := ih (hnodup.insert) h
      refine ⟨List.forall_mem_cons.mpr ⟨hfile, hseen.apart⟩, hseen.nodup, fun directory => ?_, fun _ => ?_⟩
      · rw [hseen.mem, List.mem_insert_iff, List.mem_cons]
        tauto
      · by_cases hnil : seen = []
        · subst hnil
          cases h
          exact hsmall
        · exact hseen.small hnil

theorem checkDirectories_eq (files : Files) : checkDirectories files =
    (files.flatMap fun file => ancestors (chars file.1)).foldlM (checkAncestor files) [] :=
  (foldlM_flatMap _ _ _ _).symm

theorem checkDirectories_safe (h : files.length ≤ 4096) : Safe (checkDirectories files) := by
  rw [checkDirectories_eq]
  have hword : word = 2 ^ 64 := rfl
  refine Safe.foldlM (P := fun directories => directories.length ≤ 10000) (Nat.zero_le _) ?_ ?_
  · intro name _ directories hlength
    have hinsert : (directories.insert name).length ≤ directories.length + 1 := by
      unfold List.insert
      split <;> simp
    refine Safe.bind Safe.failIf fun _ _ => Safe.bind (Safe.add (by omega)) fun _ _ => ?_
    exact Safe.bind Safe.failIf fun _ _ => Safe.ok
  · intro name _ directories directories' _ hstep
    obtain ⟨-, -, hsmall⟩ := checkAncestor_spec hstep
    omega

/-- The directories that have been counted are all directories above the files. -/
theorem checkDirectories_spec (h : checkDirectories files = .ok directories)
    (hlength : files.length ≤ 4096) :
    (∀ file ∈ files, ∀ other ∈ files, ¬Ancestor (chars other.1) (chars file.1)) ∧
      ∀ above : List Text, above.Nodup →
        (∀ directory ∈ above, ∃ file ∈ files, Ancestor directory (chars file.1)) →
        files.length + above.length ≤ 10000 := by
  rw [checkDirectories_eq] at h
  have hseen := checkAncestors_spec List.nodup_nil h
  constructor
  · intro file hfile other hother hancestor
    have hmem : chars other.1 ∈ files.flatMap fun file => ancestors (chars file.1) :=
      List.mem_flatMap.mpr ⟨file, hfile, mem_ancestors.mpr hancestor⟩
    exact hasFile_eq_false.mp (hseen.apart _ hmem) other hother rfl
  · intro above hnodup habove
    cases above with
    | nil => simp only [List.length_nil]; omega
    | cons first above =>
        have hmem : ∀ directory ∈ first :: above,
            directory ∈ files.flatMap fun file => ancestors (chars file.1) := by
          intro directory hdirectory
          obtain ⟨file, hfile, hancestor⟩ := habove directory hdirectory
          exact List.mem_flatMap.mpr ⟨file, hfile, mem_ancestors.mpr hancestor⟩
        have hsmall := hseen.small (List.ne_nil_of_mem (hmem first List.mem_cons_self))
        have hle := (hnodup.subperm fun directory hdirectory =>
          (hseen.mem directory).mpr (.inr (hmem directory hdirectory))).length_le
        omega

end

section

variable {bytes eocd : Bytes} {stop : Nat} {record : EndRecord} {zip : Zip} {files : Files}

theorem readEnd_spec (h : readEnd eocd stop = .ok record) : record.count ≤ 4096 ∧
    record.directoryStart = fieldAt eocd 16 4 ∧ record.directoryStart ≤ stop := by
  obtain ⟨count, hcount, h⟩ := bind_eq_ok.mp h
  obtain ⟨directorySize, hsize, h⟩ := bind_eq_ok.mp h
  obtain ⟨directoryStart, hstart, h⟩ := bind_eq_ok.mp h
  obtain ⟨_, -, h⟩ := bind_eq_ok.mp h
  obtain ⟨_, -, h⟩ := bind_eq_ok.mp h
  obtain ⟨_, -, h⟩ := bind_eq_ok.mp h
  obtain ⟨_, -, h⟩ := bind_eq_ok.mp h
  obtain ⟨_, -, h⟩ := bind_eq_ok.mp h
  obtain ⟨_, hcheck, h⟩ := bind_eq_ok.mp h
  cases h
  simp only [failIf_eq_ok, not_or, not_not, Nat.not_lt] at hcheck
  obtain ⟨-, hstop⟩ := checkedAdd_eq_some.mp hcheck.2.2.2.2.2.2.2
  exact ⟨hcheck.2.2.2.2.2.2.1, readField_eq_ok hstart, by simp only; omega⟩

theorem readEnd_safe (h : eocd.length = 22) : Safe (readEnd eocd stop) := by
  refine Safe.bind (readField_safe (by omega)) fun _ _ => ?_
  refine Safe.bind (readField_safe (by omega)) fun _ _ => ?_
  refine Safe.bind (readField_safe (by omega)) fun _ _ => ?_
  refine Safe.bind (Safe.index (by omega) (by omega)) fun _ _ => ?_
  refine Safe.bind (readField_safe (by omega)) fun _ _ => ?_
  refine Safe.bind (readField_safe (by omega)) fun _ _ => ?_
  refine Safe.bind (readField_safe (by omega)) fun _ _ => ?_
  refine Safe.bind (readField_safe (by omega)) fun _ _ => ?_
  exact Safe.bind Safe.failIf fun _ _ => Safe.ok

theorem wazRead_safe (zip : Zip) (bytes : Bytes) : Safe (wazRead zip bytes) := by
  refine Safe.bind Safe.failIf fun _ hbounds => ?_
  simp only [failIf_eq_ok, not_or, Nat.not_lt] at hbounds
  refine Safe.bind (Safe.sub hbounds.2.2) fun stop hstop => ?_
  obtain ⟨-, rfl⟩ := sub_eq_ok hstop
  refine Safe.bind (Safe.index (by omega) le_rfl) fun eocd heocd => ?_
  have hlength : eocd.length = 22 := by
    rw [index_eq_ok heocd, length_part le_rfl]
    omega
  refine Safe.bind (readEnd_safe hlength) fun record hrecord => Safe.bind Safe.ofExcept fun archive _ => ?_
  refine Safe.bind Safe.failIf fun _ hcount => ?_
  refine Safe.bind (readEntries_safe hbounds.1) fun reading hreading => ?_
  refine Safe.bind tile_safe fun _ _ => Safe.bind Safe.failIf fun _ _ => ?_
  refine Safe.bind tile_safe fun _ _ => Safe.bind Safe.failIf fun _ _ => ?_
  have hfiles := readEntries_length hreading
  obtain ⟨hsmall, -, -⟩ := readEnd_spec hrecord
  simp only [failIf_eq_ok, not_or, not_not] at hcount
  refine Safe.bind (checkDirectories_safe ?_) fun _ _ => Safe.bind Safe.failIf fun _ _ => Safe.ok
  rw [hfiles, hcount.1, List.length_nil]
  omega

/-- What stands behind an archive that has been accepted. -/
structure Accepted (zip : Zip) (bytes : Bytes) (record : EndRecord) (reading : Reading) : Prop where
  size : 22 ≤ bytes.length ∧ bytes.length ≤ limit
  recordEq : readEnd (part bytes (bytes.length - 22) bytes.length) (bytes.length - 22) = .ok record
  entries : ∃ archive, zip bytes = .ok archive ∧ archive.entries.length = record.count ∧
    archive.entries.foldlM (readEntry bytes record.directoryStart (bytes.length - 22))
      ⟨[], [], [], limit⟩ = .ok reading
  locals : tile "overlapping or unindexed ZIP data" 0 reading.spans = .ok record.directoryStart
  centrals : tile "overlapping or unindexed ZIP directory" record.directoryStart
    reading.centralSpans = .ok (bytes.length - 22)
  directories : ∃ directories, checkDirectories reading.files = .ok directories

theorem wazRead_spec (h : wazRead zip bytes = .ok files) :
    ∃ record reading, Accepted zip bytes record reading ∧ files = reading.files := by
  obtain ⟨_, hbounds, h⟩ := bind_eq_ok.mp h
  obtain ⟨stop, hstop, h⟩ := bind_eq_ok.mp h
  obtain ⟨eocd, heocd, h⟩ := bind_eq_ok.mp h
  obtain ⟨record, hrecord, h⟩ := bind_eq_ok.mp h
  obtain ⟨archive, harchive, h⟩ := bind_eq_ok.mp h
  obtain ⟨_, hcount, h⟩ := bind_eq_ok.mp h
  obtain ⟨reading, hreading, h⟩ := bind_eq_ok.mp h
  obtain ⟨cursor, hlocals, h⟩ := bind_eq_ok.mp h
  obtain ⟨_, hcursor, h⟩ := bind_eq_ok.mp h
  obtain ⟨cursor', hcentrals, h⟩ := bind_eq_ok.mp h
  obtain ⟨_, hcursor', h⟩ := bind_eq_ok.mp h
  obtain ⟨directories, hdirectories, h⟩ := bind_eq_ok.mp h
  obtain ⟨_, -, h⟩ := bind_eq_ok.mp h
  cases h
  simp only [failIf_eq_ok, not_or, not_not, Nat.not_lt] at hbounds hcount hcursor hcursor'
  obtain ⟨-, rfl⟩ := sub_eq_ok hstop
  rw [index_eq_ok heocd] at hrecord
  rw [hcursor] at hlocals hcentrals
  rw [hcursor'] at hcentrals
  refine ⟨record, reading, ⟨⟨hbounds.2.2, hbounds.1⟩, hrecord, ?_, hlocals, hcentrals,
    directories, hdirectories⟩, rfl⟩
  exact ⟨archive, mapError_eq_ok.mp harchive, hcount.1, hreading⟩

theorem holds_nil (trusted : Prop) (bytes : Bytes) : Holds trusted bytes [] ⟨[], [], [], limit⟩ where
  sound := nofun
  files := .nil
  spans := .nil
  centralSpans := .nil
  names := List.nodup_nil
  total := by simp

theorem spans_bytes {ρ : Type} {spans : List Span} {recordAt : Span → ρ} {bytesOf : ρ → Bytes}
    (h : ∀ span ∈ spans, bytesOf (recordAt span) = part bytes span.start span.stop) :
    (spans.map recordAt).flatMap bytesOf =
      spans.flatMap fun span => part bytes span.start span.stop := by
  rw [List.flatMap_map]
  exact List.flatMap_congr h

/-- Spans that have been walked along are the spans of records. -/
theorem Accepted.partition {reading : Reading} {placed : List Placed}
    (h : Accepted zip bytes record reading) (hholds : Holds True bytes placed reading) :
    Nonempty (Partition bytes reading.files) := by
  obtain ⟨hlow, -⟩ := h.size
  obtain ⟨-, hdirectoryStart, hstart⟩ := readEnd_spec h.recordEq
  have hplace : ∀ span ∈ reading.spans, ∃ p ∈ placed, p.place = span := fun span hspan =>
    List.mem_map.mp (hholds.spans.mem_iff.mp hspan)
  have hcentral : ∀ span ∈ reading.centralSpans, ∃ p ∈ placed, p.central = span := fun span hspan =>
    List.mem_map.mp (hholds.centralSpans.mem_iff.mp hspan)
  have hlocalBytes : ∀ span ∈ reading.spans,
      (localAt bytes span).bytes = part bytes span.start span.stop := by
    intro span hspan
    obtain ⟨p, hp, rfl⟩ := hplace span hspan
    exact (hholds.sound p hp).localBytes
  have hcentralBytes : ∀ span ∈ reading.centralSpans,
      (centralAt bytes span).bytes = part bytes span.start span.stop := by
    intro span hspan
    obtain ⟨p, hp, rfl⟩ := hcentral span hspan
    exact (hholds.sound p hp).centralBytes
  obtain ⟨-, hlocals⟩ := tile_spec (l := bytes) h.locals fun span hspan => by
    obtain ⟨p, hp, rfl⟩ := hplace span hspan
    exact (hholds.sound p hp).place
  obtain ⟨-, hcentrals⟩ := tile_spec (l := bytes) h.centrals fun span hspan => by
    obtain ⟨p, hp, rfl⟩ := hcentral span hspan
    exact (hholds.sound p hp).central
  rw [← spans_bytes hlocalBytes] at hlocals
  rw [← spans_bytes hcentralBytes] at hcentrals
  have hinside : record.directoryStart ≤ bytes.length := hstart.trans (Nat.sub_le _ _)
  refine ⟨{
    members := placed.map (Placed.member bytes)
    locals := reading.spans.map (localAt bytes)
    centrals := reading.centralSpans.map (centralAt bytes)
    ending := part bytes (bytes.length - 22) bytes.length
    agrees := List.forall_mem_map.mpr fun p hp => (hholds.sound p hp).agrees trivial
    files_perm := by rw [List.map_map]; exact hholds.files
    locals_perm := by rw [List.map_map]; exact (hholds.spans.map _).trans (by rw [List.map_map]; rfl)
    centrals_perm := by
      rw [List.map_map]
      exact (hholds.centralSpans.map _).trans (by rw [List.map_map]; rfl)
    ending_length := by rw [length_part le_rfl]; omega
    directoryStart := by rw [hlocals, length_part hinside, hdirectoryStart, Nat.sub_zero]
    bytes_eq := ?_ }⟩
  rw [hlocals, hcentrals, part_append (Nat.zero_le _) hstart,
    part_append (Nat.zero_le _) (Nat.sub_le _ _), part, List.drop_zero, Nat.sub_zero, List.take_length]

/-- Whether the crate is trusted or not, what has been read is accounted for. -/
theorem Accepted.holds {reading : Reading} (h : Accepted zip bytes record reading) (trusted : Prop)
    (hfaithful : trusted → Faithful zip bytes) : ∃ placed, Holds trusted bytes placed reading := by
  obtain ⟨archive, harchive, -, hreading⟩ := h.entries
  obtain ⟨-, -, hstart⟩ := readEnd_spec h.recordEq
  exact readEntries_holds hreading (fun htrusted => hfaithful htrusted archive harchive) hstart
    (Nat.sub_le _ _) (holds_nil trusted bytes)

theorem wazRead_tidy (h : wazRead zip bytes = .ok files) : Tidy files := by
  obtain ⟨record, reading, haccepted, rfl⟩ := wazRead_spec h
  obtain ⟨archive, harchive, hcount, hreading⟩ := haccepted.entries
  obtain ⟨hsmall, -, -⟩ := readEnd_spec haccepted.recordEq
  obtain ⟨placed, hholds⟩ := haccepted.holds False False.elim
  have hlength : reading.files.length ≤ 4096 := by
    rw [readEntries_length hreading, hcount, List.length_nil]
    omega
  obtain ⟨directories, hdirectories⟩ := haccepted.directories
  obtain ⟨hancestors, habove⟩ := checkDirectories_spec hdirectories hlength
  have hplaced : ∀ file ∈ reading.files, ∃ p ∈ placed, p.file = file := fun file hfile =>
    List.mem_map.mp (hholds.files.mem_iff.mp hfile)
  have hnames := (hholds.files.map Prod.fst).nodup_iff
  have htotal := (hholds.files.map fun file => file.2.length).sum_nat
  rw [List.map_map] at hnames htotal
  refine ⟨hnames.mpr hholds.names, ?_, fun file hfile => ?_, fun file hfile => ?_, hancestors, habove⟩
  · rw [htotal, ← hholds.total]
    exact Nat.le_add_right _ _
  · obtain ⟨p, hp, rfl⟩ := hplaced file hfile
    exact (hholds.sound p hp).size
  · obtain ⟨p, hp, rfl⟩ := hplaced file hfile
    exact (hholds.sound p hp).path

/-- No byte string makes the reader panic, and all bytes of an archive that it accepts belong to its
files. -/
theorem wazRead_accounted (zip : Zip) (bytes : Bytes) : wazRead zip bytes ≠ .error .panicked ∧
    ∀ files, Faithful zip bytes → wazRead zip bytes = .ok files → Accounted bytes files := by
  refine ⟨wazRead_safe zip bytes, fun files hfaithful h => ⟨wazRead_tidy h, ?_⟩⟩
  obtain ⟨record, reading, haccepted, rfl⟩ := wazRead_spec h
  obtain ⟨placed, hholds⟩ := haccepted.holds True fun _ => hfaithful
  exact haccepted.partition hholds

end

section

/-- A stored manifest and a deflated page. -/
def sample : Bytes :=
  localSignature ++ [20, 0, 0, 0, 0, 0, 0, 0, 33, 0, 67, 191, 166, 163, 2, 0, 0, 0, 2, 0, 0, 0, 13, 0,
    0, 0] ++ ascii "manifest.json\x7b\x7d" ++
  localSignature ++ [20, 0, 0, 0, 8, 0, 0, 0, 33, 0, 70, 128, 132, 191, 5, 0, 0, 0, 8, 0, 0, 0, 12, 0,
    0, 0] ++ ascii "public/a.txt" ++ [75, 76, 132, 0, 0] ++
  centralSignature ++ [20, 0, 20, 0, 0, 0, 0, 0, 0, 0, 33, 0, 67, 191, 166, 163, 2, 0, 0, 0, 2, 0, 0,
    0, 13, 0, 0, 0, 0, 0, 0, 0, 0, 0, 0, 0, 128, 1, 0, 0, 0, 0] ++ ascii "manifest.json" ++
  centralSignature ++ [20, 0, 20, 0, 0, 0, 8, 0, 0, 0, 33, 0, 70, 128, 132, 191, 5, 0, 0, 0, 8, 0, 0,
    0, 12, 0, 0, 0, 0, 0, 0, 0, 0, 0, 0, 0, 128, 1, 45, 0, 0, 0] ++ ascii "public/a.txt" ++
  endSignature ++ [0, 0, 0, 0, 2, 0, 2, 0, 117, 0, 0, 0, 92, 0, 0, 0, 0, 0]

def sampleEntry (name content : Bytes) (compression : Compression) (size compressedSize headerStart
    dataStart centralHeaderStart : UInt64) (crc32 : UInt32) : ZipEntry :=
  ⟨name, false, false, compression, some 0o100664, size, compressedSize, headerStart, dataStart,
    centralHeaderStart, crc32, fun n => .ok (content.take n)⟩

def sampleManifest : ZipEntry :=
  sampleEntry (ascii "manifest.json") (ascii "\x7b\x7d") .stored 2 2 0 43 92 0xA3A6BF43

def samplePage : ZipEntry :=
  sampleEntry (ascii "public/a.txt") (ascii "aaaaaaaa") .deflated 8 5 45 87 151 0xBF848046

def sampleZip : Zip := fun _ => .ok ⟨0, [.ok sampleManifest, .ok samplePage]⟩

def sampleFiles : Files := [("manifest.json", ascii "\x7b\x7d"), ("public/a.txt", ascii "aaaaaaaa")]

theorem sample_faithful : Faithful sampleZip sample := by
  rintro archive ⟨⟩ entry hentry
  obtain h | h := List.mem_pair.mp hentry
  · cases h
    constructor <;> decide +kernel
  · cases h
    constructor <;> decide +kernel

theorem sample_accounted : Accounted sample sampleFiles :=
  (wazRead_accounted sampleZip sample).2 sampleFiles sample_faithful (by decide +kernel)

/-- The checksum of a file in an archive. -/
def crc32 (bytes : Bytes) : UInt32 :=
  let shift (crc : UInt32) : UInt32 := if crc &&& 1 = 1 then (crc >>> 1) ^^^ 0xEDB88320 else crc >>> 1
  ~~~ bytes.foldl (fun crc b => Nat.repeat shift 8 (crc ^^^ b.toNat.toUInt32)) 0xFFFFFFFF

def storedFields (file : String × Bytes) : Bytes :=
  littleEndian 2 0 ++ littleEndian 2 0 ++ littleEndian 4 0 ++ littleEndian 4 (crc32 file.2).toNat ++
    littleEndian 4 file.2.length ++ littleEndian 4 file.2.length ++
    littleEndian 2 (asBytes file.1).length

def storedLocal (file : String × Bytes) : Bytes :=
  localSignature ++ littleEndian 2 20 ++ storedFields file ++ littleEndian 2 0 ++ asBytes file.1 ++ file.2

def storedCentral (start : Nat) (file : String × Bytes) : Bytes :=
  centralSignature ++ littleEndian 2 20 ++ littleEndian 2 20 ++ storedFields file ++
    littleEndian 2 0 ++ littleEndian 2 0 ++ littleEndian 2 0 ++ littleEndian 2 0 ++ littleEndian 4 0 ++
    littleEndian 4 start ++ asBytes file.1

/-- Where the records of files start that lie one after the other. -/
def startsFrom (size : String × Bytes → Nat) (start : Nat) : Files → List Nat
  | [] => []
  | file :: files => start :: startsFrom size (start + size file) files

def storedDirectory (files : Files) : Bytes :=
  ((startsFrom (fun file => (storedLocal file).length) 0 files).zip files).flatMap fun entry =>
    storedCentral entry.1 entry.2

/-- An archive of files that are stored as they are. -/
def storedArchive (files : Files) : Bytes :=
  let records := files.flatMap storedLocal
  let directory := storedDirectory files
  records ++ directory ++ endSignature ++ littleEndian 4 0 ++ littleEndian 2 files.length ++
    littleEndian 2 files.length ++ littleEndian 4 directory.length ++
    littleEndian 4 records.length ++ littleEndian 2 0

def storedEntries (files : Files) : List ZipEntry :=
  let starts := startsFrom (fun file => (storedLocal file).length) 0 files
  let centrals := startsFrom (fun file => (storedCentral 0 file).length)
    (files.flatMap storedLocal).length files
  (files.zip (starts.zip centrals)).map fun entry =>
    let size := entry.1.2.length.toUInt64
    let name := asBytes entry.1.1
    ⟨name, false, false, .stored, some 0o100644, size, size, entry.2.1.toUInt64,
      (entry.2.1 + 30 + name.length).toUInt64, entry.2.2.toUInt64, crc32 entry.1.2,
      fun n => .ok (entry.1.2.take n)⟩

def storedZip (files : Files) : Zip := fun _ => .ok ⟨0, (storedEntries files).map .ok⟩

example : crc32 (ascii "123456789") = 0xCBF43926 := by decide +kernel

end

end Pishoo.WazAccounting
