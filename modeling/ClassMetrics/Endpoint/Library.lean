import ClassMetrics.Endpoint.Reading

/-!
Libraries of URLs: what an address is read with, looked at, changed and written. The library of this
project reads URLs by `Url.parse`; other modules take any library.
-/

namespace ClassMetrics.Endpoint

/-- The parts of a URL as they are written in it. -/
structure UrlParts where
  scheme : List Char
  username : List Char
  password : List Char
  host? : Option (List Char)
  portNumber? : Option Nat
  path : List Char
  query? : Option (List Char)
  fragment? : Option (List Char)
  deriving DecidableEq, Repr

structure UrlLibrary (Url : Type) where
  parse : List Char → Except String Url
  parts : Url → UrlParts
  setPath : List Char → Url → Url
  text : Url → List Char

/-- The path that a text gives in the place of another one. Where no slash starts a path, one that
the text starts with is written as an escape. -/
def UrlPath.set (kind : SchemeKind) (text : List Char) : UrlPath → UrlPath
  | .segments _ => .segments (readPathStart kind (Url.withoutBreaks text))
  | .undivided _ =>
      match text with
      | '/' :: rest =>
          .undivided ("%2F".toList ++ percentEncode .controls (Url.withoutBreaks rest))
      | _ => .undivided (percentEncode .controls (Url.withoutBreaks text))

namespace Url

def parts (url : Url) : UrlParts where
  scheme := url.scheme
  username := url.authority?.elim [] (·.username)
  password := url.authority?.elim [] (·.password)
  host? := url.authority?.map (·.host.text)
  portNumber? := url.authority?.bind (·.portNumber?)
  path := url.path.text
  query? := url.query?
  fragment? := url.fragment?

def setPath (text : List Char) (url : Url) : Url :=
  { url with path := url.path.set (SchemeKind.ofScheme url.scheme) text }

/-- The library that reads URLs as this project does. -/
def library : UrlLibrary Url where
  parse text := (parse text).mapError UrlFault.message
  parts := parts
  setPath := setPath
  text := text

end Url

end ClassMetrics.Endpoint
