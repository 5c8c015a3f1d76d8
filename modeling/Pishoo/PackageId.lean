import Mathlib.Algebra.Group.Nat.Defs
import Pishoo.Error

namespace Pishoo

/-- `publisher/name`. A legacy short alias has no publisher. -/
structure Id where
  author : Option String
  name : String
  deriving DecidableEq, Repr

namespace Id

def text (id : Id) : String :=
  match id.author with
  | none => id.name
  | some author => author ++ "/" ++ id.name

end Id

def isStandardAuthor (author : String) : Bool :=
  author == "std.dhttp.net" || author == "dev.genmeta.tech.dhttp.net"

def standard (id : Id) : Bool := id.author.any isStandardAuthor

def lowercase (c : Char) : Bool := decide ('a' ≤ c ∧ c ≤ 'z')

def digit (c : Char) : Bool := decide ('0' ≤ c ∧ c ≤ '9')

def validName (name : String) : Bool :=
  decide (name.toList.length ≤ 63) && name.toList.head?.any lowercase &&
    name.toList.all (fun c => lowercase c || digit c || c == '-')

/-- `valid_id`. `normalizeName` is `dhttp_home::normalize_name`. -/
def validId (normalizeName : String → Option String) (id : Id) : Except Error Unit :=
  if id.author.any (fun author => normalizeName author != some author) then
    .error (.badRequest "invalid Lib publisher")
  else if validName id.name then .ok ()
  else .error (.badRequest "invalid Lib id")

/-- A decimal number without a leading zero that fits in 64 bits. -/
def versionPart (part : List Char) : Bool :=
  !part.isEmpty && part.all digit && (part.length == 1 || part.head? != some '0') &&
    decide (part.foldl (fun n c => 10 * n + (c.toNat - '0'.toNat)) 0 < 2 ^ 64)

def splitDots : List Char → List (List Char)
  | [] => [[]]
  | c :: cs => match splitDots cs with
    | [] => [[c]]
    | part :: parts => if c = '.' then [] :: part :: parts else (c :: part) :: parts

def releaseVersion (version : String) : Bool :=
  let parts := splitDots version.toList
  parts.length == 3 && parts.all versionPart

end Pishoo
