import Pishoo.Publication

namespace Pishoo.Legacy

open Result Registry Registration Publication

/-- What the transfers use besides the groups: `dhttp_home::normalize_name` and what
`verify_legacy_files` finds about an entry, for a package with a library and with a frontend. -/
structure Host where
  normalizeName : String → Option String
  verifyLegacyFiles : Json → Bool → Bool → Except Error Unit

def migrationText (entry : Json) (key : String) : Except Error String :=
  orElse ((entry.get key).asStr.filter fun s => s ≠ "") (.invalidConfig s!"missing migration {key}")

def hexDigest (hash : String) : Bool :=
  hash.utf8ByteSize == 64 &&
    hash.toList.all fun c => digit c || decide ('a' ≤ c ∧ c ≤ 'f')

def unauthorized (author name version : String) : Error :=
  .invalidConfig s!"no unique legacy authorization for {author}/{name}@{version}"

def mismatch (name : String) : Error :=
  .invalidConfig s!"legacy ownership or placement mismatch for {name}"

/-- An installation that has been transferred keeps its own version, digest and signature. -/
def already (author : String) (p : Package) (entry : Json) : Bool :=
  entry.get "target_author" == .str author &&
    p.authorOwnerHash == (entry.get "target_owner_hash").asStr

/-- The checks of the one entry that authorizes the transfer. -/
def authorize (host : Host) (name author : String) (p : Package) (entry : Json) :
    Except Error Transfer := do
  let oldOwner ← migrationText entry "author_owner_hash"
  let targetOwner ← migrationText entry "target_owner_hash"
  let target ← migrationText entry "target_author"
  let originalDigest ← migrationText entry "package_sha256"
  failIf (¬[oldOwner, targetOwner, originalDigest].all hexDigest)
    (.invalidConfig "invalid migration hash")
  validId host.normalizeName ⟨some target, name⟩
  failIf (isStandardAuthor author ≠ isStandardAuthor target ∨
    (∃ owner ∈ p.authorOwnerHash, owner ≠ oldOwner) ∨
    ∃ digest ∈ p.packageSha256, digest ≠ originalDigest) (mismatch name)
  let evidence ← migrationText entry "evidence"
  failIf (evidence.toList.all whitespace) (mismatch name)
  host.verifyLegacyFiles entry p.hasLib p.hasApp
  .ok ⟨name, target, targetOwner⟩

/-- The loop body for one name. It gives nothing for a name that is left as it is. -/
def change (host : Host) (r : Registry) (entries : List Json) (name : String) :
    Except Error (Option Transfer) :=
  match r.package name with
  | none => .ok none
  | some p => do
      let author ← orElse p.author constraintFailed
      let candidates := entries.filter fun entry => entry.get "name" == .str name
      if candidates.any (already author p) then .ok none
      else match candidates.filter fun entry =>
          entry.get "author" == .str author && entry.get "version" == .str p.version with
        | [entry] => do
            failIf (p.signerLeafFingerprintSha256 ≠ none) (unauthorized author name p.version)
            let t ← authorize host name author p entry
            .ok (some t)
        | _ => .error (unauthorized author name p.version)

def transferGroup (host : Host) (r : Registry) (group : Json) : Except Error Registry := do
  let entries ← orElse ((asArr (group.get "packages")).filter fun entries =>
    !entries.isEmpty && entries.length ≤ 100) (.invalidConfig "invalid migration package list")
  let names ← entries.mapM fun entry => migrationText entry "name"
  let changes ← (Facts.sortedBy (fun name => [name]) names.dedup).mapM (change host r entries)
  changes.reduceOption.foldlM transferAuthor r

/-- A group that fails leaves the registry as it is, which is only logged. -/
def transferOrKeep (host : Host) (r : Registry) (group : Json) : Registry :=
  match transferGroup host r group with
  | .ok r' => r'
  | .error _ => r

/-- `groups` are compiled into the host. -/
def migrateLegacyGroups (host : Host) (groups : Json) (r : Registry) : Except Error Registry := do
  let groups ← orElse ((asArr groups).filter fun groups => groups.length ≤ 100)
    (.invalidConfig "invalid migration groups")
  if groups.isEmpty then .ok r
  else do
    let r ← migrateRegistration r
    .ok (groups.foldl (transferOrKeep host) r)

end Pishoo.Legacy
