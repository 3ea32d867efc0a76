import ClassMetrics.Endpoint.Library

/-!
The address to which traces are sent. The address of the collector, and the one for its logs, lead
to the one for its traces; any other address is used as it is.
-/

namespace ClassMetrics.Endpoint

def rootPath : List Char := "/".toList

def tracesPath : List Char := "/v1/traces".toList

def logsPath : List Char := "/v1/logs".toList

/-- The path for traces that another path leads to. The root stands for the collector. -/
def tracesPath? (path : List Char) : Option (List Char) :=
  if path = rootPath then some tracesPath
  else (logsPath.isSuffixOf? path).map (· ++ tracesPath)

section

variable {Url : Type} (library : UrlLibrary Url)

def toTraces (url : Url) : Url :=
  match tracesPath? (library.parts url).path with
  | some path => library.setPath path url
  | none => url

/-- The address for traces, in normal form. -/
def tracesAddress (text : String) : Except String String := do
  let url ← library.parse text.toList
  return String.ofList (library.text (toTraces library url))

end

/-- What is said in front of the cause when an address is no URL. -/
def faultContext : String :=
  "parse OTLP endpoint"

end ClassMetrics.Endpoint
