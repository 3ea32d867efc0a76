import ClassMetrics.CommandLine.Arguments

/-!
What the program says about itself and about arguments that it does not take.
-/

namespace ClassMetrics.CommandLine

def versionText : String :=
  "jarmetrics 0.1.0\n"

def usageLine : String :=
  "Usage: jarmetrics [OPTIONS] <ARCHIVE>"

def helpLines : List String :=
  [ "ABC complexity, inheritance depth and override metrics for JAR archives."
  , ""
  , usageLine
  , ""
  , "Arguments:"
  , "  <ARCHIVE>  JAR/zip archive, or a directory of class files"
  , ""
  , "Options:"
  , "      --output <PATH>  Where to write the JSON report; `-` prints it without writing a file " ++
      "[default: metrics.json]"
  , "      --quiet          "
  , "      --timing         "
  , "      --otel <URL>     OTLP HTTP endpoint that receives trace spans"
  , "  -h, --help           Print help"
  , "  -V, --version        Print version" ]

def helpText : String :=
  String.join (helpLines.map (· ++ "\n"))

namespace UsageFault

def message : UsageFault → String
  | .unexpected argument => s!"unexpected argument '{argument}' found"
  | .repeated option => s!"the argument '{option}' cannot be used multiple times"
  | .missingValue option | .emptyValue option =>
      s!"a value is required for '{option}' but none was supplied"
  | .needlessValue option value =>
      s!"unexpected value '{value}' for '{option}' found; no more were expected"
  | .missingArchive => "the following required arguments were not provided: <ARCHIVE>"

def lines (fault : UsageFault) : List String :=
  ["error: " ++ fault.message, "", usageLine, "", "For more information, try '--help'."]

end UsageFault

end ClassMetrics.CommandLine
