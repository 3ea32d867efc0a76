import ClassMetrics.Endpoint.Host

/-!
Absolute URLs in parts. The parts are held as they are written, with their escapes, and `Url.text`
puts them together.
-/

namespace ClassMetrics.Endpoint

/-- Who is asked at which host. -/
structure Authority where
  username : List Char
  password : List Char
  host : Host
  portNumber? : Option Nat
  deriving DecidableEq, Repr

/-- What a URL points to at its host. It is a list of segments if a slash starts it, and otherwise a
text of any form. -/
inductive UrlPath where
  | segments (parts : List (List Char))
  | undivided (text : List Char)
  deriving DecidableEq, Repr

structure Url where
  scheme : List Char
  authority? : Option Authority
  path : UrlPath
  query? : Option (List Char)
  fragment? : Option (List Char)
  deriving DecidableEq, Repr

namespace Authority

def hasUser (authority : Authority) : Bool :=
  !authority.username.isEmpty || !authority.password.isEmpty

def text (authority : Authority) : List Char :=
  let password := if authority.password.isEmpty then [] else ':' :: authority.password
  let user := if authority.hasUser then authority.username ++ password ++ ['@'] else []
  let place := authority.portNumber?.elim [] fun number => ':' :: Nat.toDigits 10 number
  user ++ authority.host.text ++ place

end Authority

def UrlPath.text : UrlPath → List Char
  | .segments parts => parts.flatMap ('/' :: ·)
  | .undivided text => text

namespace Url

/-- What stands between the scheme and the path. Two slashes tell of an authority, so a path that
starts with two is kept apart from the scheme by a dot segment. -/
def front (url : Url) : List Char :=
  match url.authority?, url.path with
  | some authority, _ => '/' :: '/' :: authority.text
  | none, .segments ([] :: _ :: _) => ['/', '.']
  | none, _ => []

def text (url : Url) : List Char :=
  url.scheme ++ ':' :: url.front ++ url.path.text ++
    url.query?.elim [] ('?' :: ·) ++ url.fragment?.elim [] ('#' :: ·)

end Url

end ClassMetrics.Endpoint
