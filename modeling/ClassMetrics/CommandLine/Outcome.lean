import ClassMetrics.Analysis
import ClassMetrics.Archive.Directory
import ClassMetrics.CommandLine.Usage
import ClassMetrics.Endpoint.Traces
import ClassMetrics.Files.FileSystem
import ClassMetrics.Log

/-!
What a run of the program comes to. `Options.respond` says what is printed and which report is to be
written, from what is found under the path of the archive. `run` is the whole program over a file
system, and says how the files are left; `appear` shows its events by the log setting.

Standard output and standard error take all that goes there.
-/

namespace ClassMetrics.CommandLine

/-- What the program is built on: a reader of archives, a library of URLs, and what sends spans to
an address and hands over the last ones in the end. -/
structure Platform (Url : Type) where
  archives : ArchiveReader
  urls : Endpoint.UrlLibrary Url
  exporter : String → Except String Unit
  shutdown : Except String Unit

/-- Archives are in the zip format and URLs are read by this project. No spans are sent, so that
nothing can fail there. -/
def Platform.standalone : Platform Endpoint.Url where
  archives := Archive.zipReader
  urls := Endpoint.Url.library
  exporter := fun _ => .ok ()
  shutdown := .ok ()

/-- Why a run ends without a report. -/
inductive RunFault where
  | collector (cause : String)
  | exporter (cause : String)
  | inputNotFound (path : String)
  | scan (fault : ScanFault)

namespace RunFault

def context : RunFault → String
  | .collector _ => Endpoint.faultContext
  | .exporter _ => "build OTLP span exporter"
  | .inputNotFound path => "input not found: " ++ path
  | .scan fault => fault.context

def cause? : RunFault → Option String
  | .collector cause | .exporter cause => some cause
  | .inputNotFound _ => none
  | .scan fault => some fault.cause

/-- The message and, if there is one, the cause, set in below it. -/
def lines (fault : RunFault) : List String :=
  let cause := match fault.cause? with
    | none => []
    | some cause => "" :: "Caused by:" :: (cause.splitOn "\n").map ("    " ++ ·)
  ("Error: " ++ fault.context).splitOn "\n" ++ cause

end RunFault

/-- How long the phases took, in milliseconds. -/
structure Timings where
  total : Nat
  scan : Nat
  hierarchy : Nat
  overrides : Nat
  deriving DecidableEq, Repr

namespace Timings

def zero : Timings := ⟨0, 0, 0, 0⟩

def line (timings : Timings) (classes : Nat) : String :=
  s!"timing: total_ms={timings.total} scan_ms={timings.scan} " ++
    s!"hierarchy_ms={timings.hierarchy} overrides_ms={timings.overrides} classes={classes}"

end Timings

/-- What a run prints and logs, and the report that it writes. -/
structure Response where
  exit : Nat
  stdout : String
  stderr : List String
  events : List Log.Event
  /-- The path to which the report is to be written, and the report. -/
  report? : Option (String × String)
  /-- What is logged when all else is done. -/
  closing : List Log.Event

namespace Response

/-- Prints a text, and nothing else. -/
def printing (text : String) : Response :=
  ⟨0, text, [], [], none, []⟩

def usage (fault : UsageFault) : Response :=
  ⟨2, "", fault.lines, [], none, []⟩

def failed (fault : RunFault) (events : List Log.Event) : Response :=
  ⟨1, "", fault.lines, events, none, []⟩

end Response

/-- Whether a path is a single hyphen. Slashes and dots behind it make no other path. -/
def isHyphen (path : String) : Bool :=
  match FileSystem.components path with
  | "-" :: rest => rest.all fun name => name = "" || name = "."
  | _ => false

/-- The report as it is printed and written. -/
def reportText (findings : Findings) : String :=
  Report.render findings.summary ++ "\n"

namespace Options

variable {Url : Type} (platform : Platform Url) (options : Options)

/-- Why no spans can be sent to the collector, if there is one. -/
def telemetryFault? : Option RunFault :=
  match options.collector?.map (Endpoint.tracesAddress platform.urls) with
  | none => none
  | some (.error cause) => some (.collector cause)
  | some (.ok address) =>
      match platform.exporter address with
      | .error cause => some (.exporter cause)
      | .ok _ => none

/-- What an analysis leads to. Nothing is written if the output is a hyphen. -/
def conclude (analysis : Analysis) (timings : Timings) : Response :=
  match analysis.result with
  | .error fault => .failed (.scan fault) analysis.events
  | .ok findings =>
      let report := reportText findings
      { exit := 0
        stdout := if options.quiet then "" else report
        stderr :=
          if options.timing && !options.quiet then [timings.line findings.state.entries] else []
        events := analysis.events
        report? := if isHyphen options.output then none else some (options.output, report)
        closing := [] }

/-- What comes of what is found under the path of the archive. -/
def analyze (input : Except IoFault Tree) (timings : Timings) : Response :=
  match input with
  | .error _ => .failed (.inputNotFound options.archive) []
  | .ok _ => options.conclude (Analysis.run platform.archives options.archive input) timings

/-- What is logged if the last spans cannot be handed over. -/
def closing : List Log.Event :=
  match options.collector?, platform.shutdown with
  | some _, .error cause => [.shutdownFailed cause]
  | _, _ => []

/-- The response to options. The collector is looked at before the archive. -/
def respond (input : Except IoFault Tree) (timings : Timings) : Response :=
  match options.telemetryFault? platform with
  | some fault => .failed fault []
  | none =>
      { options.analyze platform input timings with closing := options.closing platform }

end Options

/-- What is told of the report once it has been written, or not. -/
def writeEvent (path : String) : Except IoFault Unit → Log.Event
  | .ok _ => .wroteReport path
  | .error fault => .writeFailed ("failed to write " ++ path ++ ": " ++ fault.message)

/-- A run that has come to its end, and the files as it leaves them. -/
structure Outcome where
  exit : Nat
  stdout : Bytes
  stderr : Bytes
  events : List Log.Event
  files : FileSystem

def linesBytes (lines : List String) : Bytes :=
  lines.flatMap fun line => Utf8.encode (line ++ "\n")

/-- Prints, and writes the report. A report that cannot be written is no failure of the run, and one
that is written to a device may go to where the rest is printed. -/
def Response.deliver (response : Response) (files : FileSystem) : Outcome :=
  let stdout := Utf8.encode response.stdout
  let stderr := linesBytes response.stderr
  match response.report? with
  | none => ⟨response.exit, stdout, stderr, response.events ++ response.closing, files⟩
  | some (path, report) =>
      let written := files.write path (Utf8.encode report)
      { exit := response.exit
        stdout := stdout ++ written.sentTo .output
        stderr := written.sentTo .errors ++ stderr
        events := response.events ++ writeEvent path written.result :: response.closing
        files := written.files }

section

variable {Url : Type} (platform : Platform Url) (files : FileSystem) (arguments : List String)

def response (timings : Timings) : Response :=
  match Command.ofArguments arguments with
  | .error fault => .usage fault
  | .ok .version => .printing versionText
  | .ok .help => .printing helpText
  | .ok (.analyze options) => options.respond platform (files.view options.archive) timings

/-- The program, run in the working directory of a file system. -/
def run (timings : Timings) : Outcome :=
  (response platform files arguments timings).deliver files

/-- What is seen of a run from outside: of its events those that the log setting lets pass. -/
structure Appearance where
  exit : Nat
  stdout : Bytes
  stderr : Bytes
  log : List String
  files : FileSystem

/-- The program, run with or without a log setting. -/
def appear (setting? : Option String) (timings : Timings) : Appearance :=
  let outcome := run platform files arguments timings
  { exit := outcome.exit
    stdout := outcome.stdout
    stderr := outcome.stderr
    log := (Log.Filter.ofVariable setting?).lines outcome.events
    files := outcome.files }

end

end ClassMetrics.CommandLine
