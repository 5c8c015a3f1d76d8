import Mathlib.Algebra.GroupWithZero.Nat
import Pishoo.PathText
import Pishoo.Publication
import Pishoo.Tiling

namespace Pishoo.Waz

open PathText Publication Result Checked Tiling

inductive Compression
  | stored
  | deflated
  | other
  deriving DecidableEq

/-- An entry of the archive as the `zip` crate gives it. `read` inflates at most so many bytes. -/
structure ZipEntry where
  nameRaw : Bytes
  isDir : Bool
  encrypted : Bool
  compression : Compression
  unixMode : Option UInt32
  size : UInt64
  compressedSize : UInt64
  headerStart : UInt64
  dataStart : UInt64
  centralHeaderStart : UInt64
  crc32 : UInt32
  read : Nat → Except String Bytes

/-- `ZipArchive`. An entry that cannot be opened is an error of its own. -/
structure Archive where
  offset : UInt64
  entries : List (Except String ZipEntry)

abbrev Zip : Type := Bytes → Except String Archive

def limit : Nat := 64 * 1024 * 1024

def ascii (s : String) : Bytes := (chars s).map fun c => UInt8.ofNat c.toNat

def localSignature : Bytes := ascii "PK" ++ [3, 4]

def centralSignature : Bytes := ascii "PK" ++ [1, 2]

def endSignature : Bytes := ascii "PK" ++ [5, 6]

def wazIsZip (bytes : Bytes) : Bool := localSignature.isPrefixOf bytes

def rootFiles : List String :=
  ["manifest.json", "signature.json", "backend.wasm", "README.md", "CHANGELOG.md"]

def wazPath (path : String) : Bool :=
  let text := chars path
  let parts := text.splitOn '/'
  text != [] && decide ((text.map Char.utf8Size).sum ≤ 1024) &&
    !(text.any fun c => ['\\', ':', '?', '#', '%'].contains c) &&
    !(text.any fun c => control c || whitespace c) && decide (parts.length ≤ 33) &&
    !(parts.any fun part => [[], chars ".", chars ".."].contains part) &&
    (rootFiles.contains path || starts (chars "public/") text)

/-- `from_le_bytes`. -/
def number (bytes : Bytes) : Nat := bytes.foldr (fun b n => b.toNat + 256 * n) 0

/-- The number in the bytes from an offset on. -/
def fieldAt (bytes : Bytes) (offset width : Nat) : Nat := number (part bytes offset (offset + width))

def readField (bytes : Bytes) (offset width : Nat) : Attempt String Nat := do
  let bytes ← index bytes offset (offset + width)
  .ok (number bytes)

/-- `from_utf8`. -/
def fromUtf8 (bytes : Bytes) : Option String := String.fromUTF8? ⟨bytes.toArray⟩

def asBytes (s : String) : Bytes := s.toUTF8.data.toList

def entryLimit (name : String) : Nat :=
  if name = "manifest.json" then 1024 * 1024
  else if name = "signature.json" then 64 * 1024
  else if name = "backend.wasm" then limit
  else 16 * 1024 * 1024

def hasFile (files : Files) (name : Text) : Bool := files.any fun file => chars file.1 == name

/-- An entry that is not a plain file with a name of its own. -/
def unfit (files : Files) (entry : ZipEntry) (name : String) : Bool :=
  !wazPath name || entry.isDir || entry.encrypted || entry.compression == .other ||
    entry.unixMode.any (fun mode => !([0, 0o100000].contains (mode.toNat &&& 0o170000))) ||
    hasFile files (chars name)

/-- What has been read so far. -/
structure Reading where
  files : Files
  spans : List Span
  centralSpans : List Span
  remaining : Nat

def named (a b : String × Bytes) : Prop := a.1 ≤ b.1

instance : DecidableRel named := fun a b => inferInstanceAs (Decidable (a.1 ≤ b.1))

/-- The fixed part of a local header, with where the entry lies. -/
structure Header where
  bytes : Bytes
  start : Nat
  data : Nat
  stop : Nat
  nameLength : Nat
  extraLength : Nat
  flags : Nat

def localHeader (bytes : Bytes) (entry : ZipEntry) : Attempt String Header := do
  let start := entry.headerStart.toNat
  let data := entry.dataStart.toNat
  let stop ← orReject (checkedAdd data entry.compressedSize.toNat) "ZIP span overflow"
  let headerEnd ← orReject (checkedAdd start 30) "ZIP header overflow"
  let header ← orReject (get bytes start headerEnd) "truncated ZIP local header"
  let nameLength ← readField header 26 2
  let extraLength ← readField header 28 2
  let flags ← readField header 6 2
  .ok ⟨header, start, data, stop, nameLength, extraLength, flags⟩

def centralSpan (bytes : Bytes) (directoryStart stop : Nat) (spans : List Span) (flags : Nat)
    (entry : ZipEntry) : Attempt String Span := do
  let message := "invalid ZIP central header"
  let start := entry.centralHeaderStart.toNat
  let headerEnd ← orReject (checkedAdd start 46) "ZIP directory overflow"
  let central ← orReject (get bytes start headerEnd) "truncated ZIP central header"
  let nameLength ← readField central 28 2
  let extraLength ← readField central 30 2
  let commentLength ← readField central 32 2
  let length ← add 46 nameLength
  let length ← add length extraLength
  let length ← add length commentLength
  let centralEnd ← orReject (checkedAdd start length) "ZIP directory span overflow"
  let signature ← index central 0 4
  failIf (signature ≠ centralSignature ∨ start < directoryStart ∨ stop < centralEnd)
    (.rejected message)
  let centralFlags ← readField central 8 2
  failIf (centralFlags ≠ flags ∨ startsAt spans start = true) (.rejected message)
  .ok ⟨start, centralEnd⟩

def methodOf (compression : Compression) : Nat := if compression = .stored then 0 else 8

def checkLocal (bytes : Bytes) (directoryStart : Nat) (spans : List Span) (name : String)
    (entry : ZipEntry) (header : Header) : Attempt String Unit := do
  let message := Stop.rejected "ZIP local header disagrees with the central directory"
  let signature ← index header.bytes 0 4
  -- UTF-8 and Deflate level hints only; no encryption/descriptors.
  failIf (signature ≠ localSignature ∨ header.flags &&& 0xF7F9 ≠ 0) message
  let nameStart ← add header.start 30
  let nameEnd ← add nameStart header.nameLength
  failIf (get bytes nameStart nameEnd ≠ some (asBytes name)) message
  let dataStart ← add nameEnd header.extraLength
  let method ← readField header.bytes 8 2
  let crc ← readField header.bytes 14 4
  let compressedSize ← readField header.bytes 18 4
  let size ← readField header.bytes 22 4
  failIf (dataStart ≠ header.data ∨ method ≠ methodOf entry.compression ∨
    crc ≠ entry.crc32.toNat ∨ compressedSize ≠ entry.compressedSize.toNat ∨
    size ≠ entry.size.toNat ∨ directoryStart < header.stop ∨
    startsAt spans header.start = true) message

def readContent (entry : ZipEntry) (size : Nat) : Attempt String Bytes := do
  let bound ← add size 1
  let content ← ofExcept (entry.read bound)
  failIf (content.length ≠ size) (.rejected "ZIP decompressed size disagrees with header")
  .ok content

def readEntry (bytes : Bytes) (directoryStart stop : Nat) (reading : Reading)
    (entry : Except String ZipEntry) : Attempt String Reading := do
  let entry ← ofExcept entry
  let name ← orReject (fromUtf8 entry.nameRaw) "invalid utf-8 sequence"
  failIf (unfit reading.files entry name = true)
    (.rejected ("invalid, duplicate or unsupported ZIP entry: " ++ name))
  let size := entry.size.toNat
  failIf (min (entryLimit name) reading.remaining < size)
    (.rejected ("ZIP entry exceeds its decompressed size limit: " ++ name))
  let header ← localHeader bytes entry
  let central ← centralSpan bytes directoryStart stop reading.centralSpans header.flags entry
  checkLocal bytes directoryStart reading.spans name entry header
  let content ← readContent entry size
  let remaining ← sub reading.remaining content.length
  .ok
    { files := reading.files.orderedInsert named (name, content)
      spans := insertSpan ⟨header.start, header.stop⟩ reading.spans
      centralSpans := insertSpan central reading.centralSpans
      remaining := remaining }

/-- What comes before the slashes of a reversed text, the last slash first. -/
def reversedAncestors : Text → List Text
  | [] => []
  | c :: rest =>
      if c = '/' then rest.reverse :: reversedAncestors rest else reversedAncestors rest

/-- The directories above a file, as `rsplit_once('/')` gives them one after the other. -/
def ancestors (name : Text) : List Text := reversedAncestors name.reverse

def checkAncestor (files : Files) (directories : List Text) (parent : Text) :
    Attempt String (List Text) := do
  failIf (hasFile files parent = true) (.rejected "ZIP file conflicts with a directory")
  let directories := directories.insert parent
  let total ← add directories.length files.length
  failIf (10000 < total) (.rejected "ZIP expanded directory entry budget exceeded")
  .ok directories

def checkDirectories (files : Files) : Attempt String (List Text) :=
  files.foldlM (fun directories file =>
    (ancestors (chars file.1)).foldlM (checkAncestor files) directories) []

/-- The end record, whose directory reaches to `stop`. -/
structure EndRecord where
  count : Nat
  directoryStart : Nat

def readEnd (eocd : Bytes) (stop : Nat) : Attempt String EndRecord := do
  let count ← readField eocd 10 2
  let directorySize ← readField eocd 12 4
  let directoryStart ← readField eocd 16 4
  let signature ← index eocd 0 4
  let disk ← readField eocd 4 2
  let directoryDisk ← readField eocd 6 2
  let comment ← readField eocd 20 2
  let diskCount ← readField eocd 8 2
  failIf (signature ≠ endSignature ∨ disk ≠ 0 ∨ directoryDisk ≠ 0 ∨ comment ≠ 0 ∨
    diskCount ≠ count ∨ count = 0 ∨ 4096 < count ∨
    checkedAdd directoryStart directorySize ≠ some stop)
    (.rejected "invalid ZIP end record or entry budget")
  .ok ⟨count, directoryStart⟩

def wazRead (zip : Zip) (bytes : Bytes) : Attempt String Files := do
  failIf (limit < bytes.length ∨ wazIsZip bytes = false ∨ bytes.length < 22)
    (.rejected "expected a bounded standard ZIP package")
  let stop ← sub bytes.length 22
  let eocd ← index bytes stop bytes.length
  let record ← readEnd eocd stop
  let archive ← ofExcept (zip bytes)
  failIf (archive.entries.length ≠ record.count ∨ archive.offset ≠ 0)
    (.rejected "ZIP central directory disagrees with archive")
  let reading ← archive.entries.foldlM (readEntry bytes record.directoryStart stop)
    ⟨[], [], [], limit⟩
  let cursor ← tile "overlapping or unindexed ZIP data" 0 reading.spans
  failIf (cursor ≠ record.directoryStart) (.rejected "unindexed ZIP data before directory")
  let cursor ← tile "overlapping or unindexed ZIP directory" cursor reading.centralSpans
  failIf (cursor ≠ stop) (.rejected "unindexed ZIP directory data")
  let _ ← checkDirectories reading.files
  failIf (hasFile reading.files (chars "manifest.json") = false)
    (.rejected "ZIP package requires manifest.json")
  .ok reading.files

/-- The reader as its callers see it. -/
def readPackage (zip : Zip) (bytes : Bytes) : Except String Files :=
  match wazRead zip bytes with
  | .ok files => .ok files
  | .error (.rejected message) => .error message
  | .error .panicked => .error "panicked"

theorem readPackage_eq_ok {zip : Zip} {bytes : Bytes} {files : Files} :
    readPackage zip bytes = .ok files ↔ wazRead zip bytes = .ok files := by
  unfold readPackage
  split <;> simp_all

end Pishoo.Waz
