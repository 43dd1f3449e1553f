import LedgerFront.Text.Letter
import LedgerFront.Url.Host

/-!
# URLs

An absolute URL in its normal form, as the WHATWG rules have it. All parts are
kept escaped.

* `Url.parse`: the URL that a text spells.
* `Url.addSegments`: the URL with more segments at the end of its path.
* `Url.text`: the URL as a text.
-/

namespace LedgerFront

/-- The path of a URL: segments, or a text without structure that nothing can be added to. -/
inductive UrlPath where
  | bare (text : String)
  | segments (list : List String)
deriving DecidableEq, Repr

/-- A URL; the authority is the user and the host with its TCP port. -/
structure Url where
  scheme : String
  authority : Option String
  path : UrlPath
  query : Option String
  fragment : Option String
deriving DecidableEq, Repr

namespace Url

/-- The TCP port of a web scheme. -/
def defaultPort? : String → Option Nat
  | "http" | "ws" => some 80
  | "https" | "wss" => some 443
  | "ftp" => some 21
  | _ => none

/-- Schemes whose URLs always have a host. -/
def isWeb (scheme : String) : Bool := (defaultPort? scheme).isSome

/-- Schemes for which a backslash is a slash. -/
def isSpecial (scheme : String) : Bool := isWeb scheme || scheme == "file"

/-- A segment that stands for its own directory. -/
def isDot (s : String) : Bool := [".", "%2e"].contains (Text.lower s)

/-- A segment that stands for the directory above. -/
def isDoubleDot (s : String) : Bool := ["..", ".%2e", "%2e.", "%2e%2e"].contains (Text.lower s)

/-- A path without dot segments, `done` being its start. A dot segment at the end leaves an empty
segment in its place. -/
def resolveDots (done : List String) : List String → List String
  | [] => done
  | [s] =>
    if isDoubleDot s then done.dropLast ++ [""]
    else if isDot s then done ++ [""]
    else done ++ [s]
  | s :: t :: r =>
    if isDoubleDot s then resolveDots done.dropLast (t :: r)
    else if isDot s then resolveDots done (t :: r)
    else resolveDots (done ++ [s]) (t :: r)

/-- The path as a text. -/
def pathText (u : Url) : String :=
  match u.path with
  | .bare text => text
  | .segments list => String.join (list.map ("/" ++ ·))

/-- The URL as a text. -/
def text (u : Url) : String :=
  let authority := match u.authority, u.path with
    | some a, _ => "//" ++ a
    | none, .segments ("" :: _ :: _) => "/."
    | none, _ => ""
  u.scheme ++ ":" ++ authority ++ u.pathText ++ (u.query.map ("?" ++ ·)).getD "" ++
    (u.fragment.map ("#" ++ ·)).getD ""

/-- Nothing can be added to the path. -/
def isBare (u : Url) : Bool :=
  match u.path with
  | .bare _ => true
  | .segments _ => false

/-- Characters that are passed over wherever they stand. -/
def isSkipped (c : Char) : Bool := c = '\t' || c = '\n' || c = '\r'

/-- A path without one empty segment at its end, if it has others. -/
def dropEmptyLast (path : List String) : List String :=
  if 1 < path.length ∧ path.getLast? = some "" then path.dropLast else path

/-- A path with one more segment, escaped. A dot or two dots add nothing; an only empty segment is
replaced. -/
def addSegment (web : Bool) (path : List String) (segment : String) : List String :=
  if segment = "." ∨ segment = ".." then path
  else
    let s := escape (if web then inWebSegment else inSegment)
      (segment.toList.filter fun c => !isSkipped c)
    resolveDots (if path = [""] then [] else path) [s]

/-- The URL with more segments at the end of its path; one empty last segment is replaced. -/
def addSegments (u : Url) (segments : List String) : Url :=
  match u.path with
  | .bare _ => u
  | .segments path =>
    { u with path := .segments (segments.foldl (addSegment (isSpecial u.scheme))
        (dropEmptyLast path)) }

/-- A slash in a URL of this kind. -/
def isSlash (special : Bool) (c : Char) : Bool := c = '/' || (special && c = '\\')

/-- Characters that end the path. -/
def endsPath (c : Char) : Bool := c = '?' || c = '#'

/-- The pieces between slashes. -/
def splitSlashes (special : Bool) : List Char → List (List Char)
  | [] => [[]]
  | c :: r =>
    if isSlash special c then [] :: splitSlashes special r
    else Text.pushHead c (splitSlashes special r)

/-- The segments of a path; it may lack its first slash. -/
def segmentsOf (special : Bool) (s : List Char) : List String :=
  let s := match s with
    | c :: r => if isSlash special c then r else c :: r
    | [] => []
  resolveDots [] ((splitSlashes special s).map (escape inPath))

/-- The TCP port in an authority, unless it is that of the scheme. -/
def portSuffix (scheme : String) (s : List Char) : Except UrlError String :=
  if s.all Text.isDigit then
    let n := Text.digitsValue s
    if 65535 < n then .error .invalidPort
    else if s.isEmpty ∨ defaultPort? scheme = some n then .ok ""
    else .ok (":" ++ Text.natText n)
  else .error .invalidPort

/-- The parts of a host with a TCP port: it is cut at the first colon outside brackets. -/
def splitPort (inside : Bool) : List Char → List Char × Option (List Char)
  | [] => ([], none)
  | c :: r =>
    if c = ':' ∧ !inside then ([], some r)
    else
      let (host, digits) := splitPort (if c = '[' then true else if c = ']' then false else inside) r
      (c :: host, digits)

/-- The user name and password in front of a host, with their `@`. -/
def userText (s : List Char) : String :=
  match Text.splitFirst? ':' s with
  | none => if s.isEmpty then "" else escape inUser s ++ "@"
  | some (name, password) =>
    if name.isEmpty ∧ password.isEmpty then ""
    else
      let password := if password.isEmpty then "" else ":" ++ escape inUser password
      escape inUser name ++ password ++ "@"

/-- The parts before and after the last `@`. -/
def splitUser (s : List Char) : List Char × List Char :=
  let back := s.reverse.takeWhile (· != '@')
  if back.length = s.length then ([], s) else (s.take (s.length - back.length - 1), back.reverse)

/-- The authority that a text spells. -/
def authorityOf (scheme : String) (s : List Char) : Except UrlError String := do
  let (user, rest) := splitUser s
  let (host, portChars) := splitPort false rest
  if host.isEmpty ∧ (isWeb scheme ∨ portChars.isSome) then throw .emptyHost
  let host ← if isWeb scheme then Host.web host else Host.other host
  let suffix ← portSuffix scheme (portChars.getD [])
  pure (userText user ++ host ++ suffix)

/-- The URL with a query and fragment read from what follows the path. -/
def withTail (u : Url) (s : List Char) : Url :=
  let (before, after) := (s.takeWhile (· != '#'), s.dropWhile (· != '#'))
  let querySet := if isSpecial u.scheme then inWebQuery else inQuery
  { u with
    query := if before.isEmpty then none else some (escape querySet before.tail)
    fragment := if after.isEmpty then none else some (escape inFragment after.tail) }

/-- The scheme and what follows its colon. -/
def scheme? (s : List Char) : Option (String × List Char) :=
  match s with
  | [] => none
  | c :: _ =>
    let name := s.takeWhile fun c => c.isAlphanum || c = '+' || c = '-' || c = '.'
    match c.isAlpha, s.drop name.length with
    | true, ':' :: rest => some (String.ofList (name.map Char.toLower), rest)
    | _, _ => none

/-- A URL that consists of a scheme, an authority and what stands behind it. -/
def ofAuthority (scheme : String) (s : List Char) : Except UrlError Url := do
  let special := isSpecial scheme
  let inAuthority (c : Char) : Bool := !isSlash special c && !endsPath c
  let rest := s.dropWhile inAuthority
  let path := rest.takeWhile fun c => !endsPath c
  let authority ← if scheme = "file" then
      match s.takeWhile inAuthority with
      | [] => pure ""
      | host => (Host.web host).map fun h => if h = "localhost" then "" else h
    else authorityOf scheme (s.takeWhile inAuthority)
  let segments := if path.isEmpty ∧ !special then [] else segmentsOf special path
  pure (withTail ⟨scheme, some authority, .segments segments, none, none⟩
    (rest.drop path.length))

/-- A URL without an authority. -/
def ofPath (scheme : String) (s : List Char) : Url :=
  let path := s.takeWhile fun c => !endsPath c
  let parsed := if path.head? = some '/' then UrlPath.segments (segmentsOf false path)
    else .bare (escape inBare path)
  withTail ⟨scheme, none, parsed, none, none⟩ (s.drop path.length)

/-- Controls and the space, which do not count at the ends. -/
def isEdge (c : Char) : Bool := c.toNat ≤ 32

/-- The URL that a text spells. -/
def parse (text : String) : Except UrlError Url :=
  let s := ((text.toList.dropWhile isEdge).reverse.dropWhile isEdge).reverse
  match scheme? (s.filter fun c => !isSkipped c) with
  | none => .error .relative
  | some (scheme, rest) =>
    if isWeb scheme then ofAuthority scheme (rest.dropWhile (isSlash true))
    else match scheme == "file", rest with
      | _, '/' :: '/' :: r => ofAuthority scheme r
      | true, '/' :: r => ofAuthority scheme ('/' :: r)
      | true, r => ofAuthority scheme ('/' :: r)
      | false, r => .ok (ofPath scheme r)

end Url

end LedgerFront
