import SketchPreview.Uri.Address
import SketchPreview.Uri.Segments

/-!
The parts of a URI that say what it names: host and path.  User, port, query and fragment are
checked where the grammar restricts them and dropped.  The scheme is not one of those with rules of
their own, so host names are taken as they are.
-/

namespace SketchPreview

/-- The host, unless it is missing or empty, and the path with its escapes. -/
structure Uri where
  host? : Option Text
  path : Text
deriving DecidableEq

namespace Uri

/-- Why a text is no URI. -/
inductive Fault where
  | emptyHost
  | invalidPort
  | invalidAddress
  | invalidHostCharacter
deriving DecidableEq

def Fault.message : Fault → String
  | .emptyHost => "empty host"
  | .invalidPort => "invalid port number"
  | .invalidAddress => "invalid IPv6 address"
  | .invalidHostCharacter => "invalid domain character"

/-- A text without the blanks and control characters at its end, and without any line breaks and
tabs. -/
def tidy (t : Text) : Text :=
  (t.reverse.dropWhile fun c => c.toNat ≤ 0x20).reverse.filter
    fun c => c != '\t' && c != '\n' && c != '\r'

def isPathEnd (c : Char) : Bool := c == '?' || c == '#'

def isAuthorityEnd (c : Char) : Bool := c == '/' || isPathEnd c

/-- The user before the last at sign of an authority, and what is behind it. -/
def cutUser? (authority : Text) : Option (Text × Text) :=
  match authority.reverse.dropWhile (· != '@') with
  | [] => none
  | _ :: user => some (user.reverse, (authority.reverse.takeWhile (· != '@')).reverse)

/-- The host at the front of an authority, and what is behind it.  A colon between brackets belongs
to the host. -/
def cutHost (bracketed : Bool) : Text → Text × Text
  | [] => ([], [])
  | c :: rest =>
    if c == ':' && !bracketed then ([], c :: rest)
    else
      let (host, behind) := cutHost (c == '[' || bracketed && c != ']') rest
      (c :: host, behind)

def isForbiddenInHost (c : Char) : Bool :=
  c == '\x00' || c == ' ' || "#/:<>?@[\\]^|".toList.contains c

/-- Why a host cannot be one, if it cannot. -/
def hostFault? (host : Text) : Option Fault :=
  if host.head? == some '[' then
    if host.getLast? == some ']' && Address.isValid (host.drop 1).dropLast then none
    else some .invalidAddress
  else if host.any isForbiddenInHost then some .invalidHostCharacter
  else none

/-- The text behind a port. -/
def behindPort (t : Text) : Except Fault Text :=
  let rest := t.dropWhile Char.isDigit
  if 65535 < Text.decimalValue (t.takeWhile Char.isDigit) then .error .invalidPort
  else if rest.head?.all fun c => c == '\\' || isAuthorityEnd c then .ok rest
  else .error .invalidPort

/-- Takes host and port off an authority of which the user is already gone, and returns the host
with what is left of the authority. -/
def readHost (authority : Text) : Except Fault (Text × Text) :=
  match cutHost false authority with
  | (host, behind) =>
    match hostFault? host with
    | some fault => .error fault
    | none =>
      match behind with
      | [] => .ok (host, [])
      | _ :: port =>
        if host.isEmpty then .error .emptyHost
        else (behindPort port).map fun rest => (host, rest)

/-- The path behind an authority, from the text behind the host. -/
def pathBehindHost (t : Text) : Text :=
  match t.takeWhile fun c => !isPathEnd c with
  | [] => []
  | '/' :: rest => Segments.normalize rest
  | rest => Segments.normalize rest

/-- Reads what is behind the two slashes. -/
def readAuthority (t : Text) : Except Fault Uri :=
  let authority := t.takeWhile fun c => !isAuthorityEnd c
  let behind := t.dropWhile fun c => !isAuthorityEnd c
  let (user, named) := (cutUser? authority).getD ([], authority)
  if (cutUser? authority).isSome && user.isEmpty && named.isEmpty && !behind.isEmpty then
    .error .emptyHost
  else
    match readHost named with
    | .error fault => .error fault
    | .ok (host, rest) =>
      if host.isEmpty && !user.isEmpty && user != [':'] then .error .emptyHost
      else .ok ⟨if host.isEmpty then none else some host, pathBehindHost (rest ++ behind)⟩

/-- Reads a URI from behind the colon of its scheme.  Without a slash in front, the path is one
piece of text. -/
def read (t : Text) : Except Fault Uri :=
  match tidy t with
  | '/' :: '/' :: rest => readAuthority rest
  | '/' :: rest => .ok ⟨none, Segments.normalize (rest.takeWhile fun c => !isPathEnd c)⟩
  | path => .ok ⟨none, path.takeWhile fun c => !isPathEnd c⟩

end Uri
end SketchPreview
