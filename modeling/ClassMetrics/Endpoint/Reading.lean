import ClassMetrics.Endpoint.Url

/-!
Reading a URL. The scheme decides how the rest is read: for the schemes of the web a backslash
counts as a slash and a host is needed, files have a path below a host that is mostly empty, and
other schemes keep most of what is written.
-/

namespace ClassMetrics.Endpoint

/-- How URLs of a scheme are read. -/
inductive SchemeKind where
  | web (defaultPort : Nat)
  | file
  | other
  deriving DecidableEq, Repr

namespace SchemeKind

def ofScheme (scheme : List Char) : SchemeKind :=
  match String.ofList scheme with
  | "http" | "ws" => .web 80
  | "https" | "wss" => .web 443
  | "ftp" => .web 21
  | "file" => .file
  | _ => .other

def isOther (kind : SchemeKind) : Bool :=
  kind == .other

def isFile (kind : SchemeKind) : Bool :=
  kind == .file

def isSlash (kind : SchemeKind) (char : Char) : Bool :=
  char = '/' || (char = '\\' && !kind.isOther)

def defaultPort? : SchemeKind → Option Nat
  | .web number => some number
  | _ => none

end SchemeKind

section Scheme

def isSchemeChar (char : Char) : Bool :=
  char.isAlphanum || char = '+' || char = '-' || char = '.'

/-- A scheme in lower case, and what follows the colon behind it. -/
def scheme? (text : List Char) : Option (List Char × List Char) :=
  match text.head?, text.span isSchemeChar with
  | some first, (scheme, ':' :: rest) =>
      if first.isAlpha then some (scheme.map Char.toLower, rest) else none
  | _, _ => none

end Scheme

section Path

def isDot (segment : List Char) : Bool :=
  match String.ofList (segment.map Char.toLower) with
  | "." | "%2e" => true
  | _ => false

def isDoubleDot (segment : List Char) : Bool :=
  match String.ofList (segment.map Char.toLower) with
  | ".." | "%2e." | ".%2e" | "%2e%2e" => true
  | _ => false

/-- A letter and a mark, which name a drive in the path of a file. -/
def isDrive : List Char → Bool
  | [letter, mark] => letter.isAlpha && (mark = ':' || mark = '|')
  | _ => false

/-- A path without its last segment. The drive at the start of a file's path stays. -/
def shorten (kind : SchemeKind) (path : List (List Char)) : List (List Char) :=
  match path with
  | [segment] => if kind.isFile && isDrive segment then path else []
  | _ => path.dropLast

/-- A segment as it is put behind a path. -/
def normalSegment (kind : SchemeKind) (path : List (List Char)) (segment : List Char) :
    List Char :=
  if kind.isFile && path.isEmpty && isDrive segment then segment.take 1 ++ [':'] else segment

/-- Puts segments behind a path. One dot stands for no segment and two take one away; a path that
ends in either ends in a slash. -/
def appendSegments (kind : SchemeKind) (path : List (List Char)) :
    List (List Char) → List (List Char)
  | [] => path
  | segment :: rest =>
      let slash : List (List Char) := if rest = [] then [[]] else []
      if isDoubleDot segment then appendSegments kind (shorten kind path ++ slash) rest
      else if isDot segment then appendSegments kind (path ++ slash) rest
      else appendSegments kind (path ++ [normalSegment kind path segment]) rest

/-- Leaves out empty segments that others follow. -/
def dropEmpty : List (List Char) → List (List Char)
  | [] :: segment :: rest => dropEmpty (segment :: rest)
  | path => path

/-- The path that follows a first slash. -/
def readPath (kind : SchemeKind) (text : List Char) : List (List Char) :=
  let slashes := text.map fun char => if kind.isSlash char then '/' else char
  let segments := appendSegments kind [] ((percentEncode .path slashes).splitOn '/')
  if kind.isFile then dropEmpty segments else segments

/-- The path that a text gives with or without a first slash. No text gives no segment unless the
scheme asks for one. -/
def readPathStart (kind : SchemeKind) (text : List Char) : List (List Char) :=
  if kind.isOther ∧ text = [] then []
  else readPath kind (if text.head?.any kind.isSlash then text.drop 1 else text)

end Path

section Authority

/-- A port number, unless the scheme implies it, and what follows it. -/
def readPort (kind : SchemeKind) (text : List Char) : Except UrlFault (Option Nat × List Char) :=
  let (digits, rest) := text.span Char.isDigit
  let number := numeral 10 digits
  if 65535 < number then .error .portNumber
  else match rest with
    | [] | '\\' :: _ =>
        .ok (if digits = [] ∨ kind.defaultPort? = some number then none else some number, rest)
    | _ => .error .portNumber

/-- Splits a text before the first colon that stands outside brackets. -/
def splitPort (inside : Bool) : List Char → List Char × List Char
  | [] => ([], [])
  | char :: rest =>
      if char = ':' && !inside then ([], char :: rest)
      else
        let (host, place) := splitPort (char = '[' || (inside && char ≠ ']')) rest
        (char :: host, place)

/-- Splits a text at its last at sign, if it has one. -/
def splitUser? (text : List Char) : Option (List Char × List Char) :=
  if text.contains '@' then
    let reversed := text.reverse.span (· ≠ '@')
    some ((reversed.2.drop 1).reverse, reversed.1.reverse)
  else none

/-- A user and the password that the first colon sets off. -/
def readUser (text : List Char) : List Char × List Char :=
  let (username, password) := text.span (· ≠ ':')
  (percentEncode .userinfo username, percentEncode .userinfo (password.drop 1))

/-- An authority, and what is left behind its port number. A lone at sign is refused unless the URL
ends with it. -/
def readAuthority (kind : SchemeKind) (isLast : Bool) (text : List Char) :
    Except UrlFault (Authority × List Char) := do
  let (user, place) := (splitUser? text).getD ([], text)
  if text = ['@'] ∧ !isLast then throw .emptyHost
  let (username, password) := readUser user
  let (hostText, portText) := splitPort false place
  if hostText = [] ∧ !kind.isOther then throw .emptyHost
  let host ← if kind.isOther then Host.parseOpaque hostText else Host.parse hostText
  if hostText = [] ∧ portText ≠ [] then throw .emptyHost
  let (number?, rest) ← readPort kind (portText.drop 1)
  let authority : Authority := ⟨username, password, host, number?⟩
  if hostText = [] ∧ authority.hasUser then throw .emptyHost
  return (authority, rest)

end Authority

namespace Url

/-- The authority and the path, by the kind of scheme. -/
abbrev Place := Option Authority × UrlPath

/-- What follows two slashes, or any number of them for the schemes of the web. -/
def readPlace (kind : SchemeKind) (isLast : Bool) (text : List Char) : Except UrlFault Place := do
  let (authorityText, pathText) := text.span (!kind.isSlash ·)
  let (authority, rest) ← readAuthority kind (isLast && pathText.isEmpty) authorityText
  return (some authority, .segments (readPathStart kind (rest ++ pathText)))

def emptyAuthority : Authority :=
  ⟨[], [], .name [], none⟩

/-- The host of a file, where the local one goes without a name. -/
def readFileHost (text : List Char) : Except UrlFault Host :=
  if text = [] then .ok (.name [])
  else do
    let host ← Host.parse text
    return if host = .name "localhost".toList then .name [] else host

/-- A file below a host. A drive at the start of its path leaves no host. -/
def readFile (text : List Char) : Except UrlFault Place := do
  let isSlash := SchemeKind.file.isSlash
  match text with
  | first :: second :: rest =>
      if isSlash first && isSlash second then
        let (hostText, pathText) := rest.span (!isSlash ·)
        if isDrive hostText then
          return (some emptyAuthority, .segments (readPath .file rest))
        let host ← readFileHost hostText
        let start := pathText.drop 1
        let startsWithDrive := isDrive (start.takeWhile (!isSlash ·))
        let host := if startsWithDrive then .name [] else host
        return (some { emptyAuthority with host }, .segments (readPath .file start))
      else return (some emptyAuthority, .segments (readPathStart .file text))
  | _ => return (some emptyAuthority, .segments (readPathStart .file text))

/-- What stands between the scheme and the query, which may be the last of the URL. -/
def readBody (kind : SchemeKind) (isLast : Bool) (text : List Char) : Except UrlFault Place :=
  match kind with
  | .web _ => readPlace kind isLast (text.dropWhile kind.isSlash)
  | .file => readFile text
  | .other =>
      match text with
      | '/' :: '/' :: rest => readPlace kind isLast rest
      | '/' :: rest => .ok (none, .segments (readPath kind rest))
      | _ => .ok (none, .undivided (percentEncode .controls text))

/-- Splits off what follows the first occurrence of a mark. -/
def splitMark (mark : Char) (text : List Char) : List Char × Option (List Char) :=
  let (before, after) := text.span (· ≠ mark)
  (before, if after = [] then none else some (after.drop 1))

def isTrimmed (char : Char) : Bool :=
  char.toNat ≤ 0x20

/-- The text without tabs and line ends. -/
def withoutBreaks (text : List Char) : List Char :=
  text.filter fun char => char ≠ '\t' && char ≠ '\n' && char ≠ '\r'

/-- The text without controls and blanks at its ends, and without tabs and line ends. -/
def clean (text : List Char) : List Char :=
  withoutBreaks ((text.dropWhile isTrimmed).reverse.dropWhile isTrimmed).reverse

def parse (text : List Char) : Except UrlFault Url :=
  match scheme? (clean text) with
  | none => .error .relative
  | some (scheme, rest) => do
      let kind := SchemeKind.ofScheme scheme
      let (rest, fragment?) := splitMark '#' rest
      let (body, query?) := splitMark '?' rest
      let (authority?, path) ← readBody kind (query?.isNone && fragment?.isNone) body
      let querySet := if kind.isOther then EncodeSet.query else .specialQuery
      return {
        scheme, authority?, path
        query? := query?.map (percentEncode querySet)
        fragment? := fragment?.map (percentEncode .fragment) }

end Url

end ClassMetrics.Endpoint
