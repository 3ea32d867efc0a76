import ClassMetrics.CommandLine.Outcome

/-!
The program on the command line. What it reads from the directory is turned into a `Tree`, from
which the response follows; then the response is printed and the report is written.
-/

namespace ClassMetrics.CommandLine

/-- What the system says of an operation that it refuses. -/
def systemFault : IO.Error → IoFault
  | .noFileOrDirectory _ code details | .permissionDenied _ code details
  | .inappropriateType _ code details | .invalidArgument _ code details
  | .alreadyExists _ code details | .resourceExhausted _ code details
  | .noSuchThing _ code details | .resourceBusy code details | .otherError code details
  | .hardwareFault code details | .unsupportedOperation code details =>
      ⟨details, code.toNat⟩
  | error => ⟨error.toString, 0⟩

/-- What lies under a path, links followed. -/
partial def readTree (path : String) : IO (Except IoFault Tree) := do
  let place := (← IO.currentDir) / path
  match ← place.metadata.toBaseIO with
  | .error error => return .error (systemFault error)
  | .ok data =>
      if data.type == .dir then
        match ← place.readDir.toBaseIO with
        | .error error => return .ok (.unlistable .start (systemFault error))
        | .ok entries =>
            let trees ← entries.toList.mapM fun entry => do
              match ← readTree (joinPath path entry.fileName) with
              | .ok tree => return (entry.fileName, tree)
              | .error fault => return (entry.fileName, .unreadable fault)
            return .ok (.directory trees)
      else
        match ← (IO.FS.readBinFile place).toBaseIO with
        | .ok content => return .ok (.file content.toList)
        | .error error => return .ok (.unreadable (systemFault error))

/-- Runs the phases one by one for the time that they take. -/
def measure (path : String) (input : Except IoFault Tree) : IO Timings := do
  let start ← IO.monoMsNow
  let scan ← IO.lazyPure fun _ =>
    ScanState.initial.scan (Listing.ofInput Archive.zipReader path input)
  let scanned ← IO.monoMsNow
  match scan.result with
  | .error _ => return .zero
  | .ok state =>
      let _ ← IO.lazyPure fun _ => (ClassGraph.ofTable state.classes).depths
      let measured ← IO.monoMsNow
      let _ ← IO.lazyPure fun _ => state.classes.overrides
      let done ← IO.monoMsNow
      return ⟨done - start, scanned - start, measured - scanned, done - measured⟩

def printLog (filter : Log.Filter) (events : List Log.Event) : IO Unit :=
  (filter.lines events).forM fun line => IO.eprintln line

/-- Writes the report of a response, if it has one. -/
def writeReport (filter : Log.Filter) (response : Response) : IO Unit := do
  match response.report? with
  | none => return
  | some (path, report) =>
      match ← (IO.FS.writeFile path report).toBaseIO with
      | .ok _ => printLog filter [writeEvent path (.ok ())]
      | .error error => printLog filter [writeEvent path (.error (systemFault error))]

/-- The response to arguments in the current directory. -/
def respondHere (arguments : List String) : IO Response := do
  match Command.ofArguments arguments with
  | .error fault => return .usage fault
  | .ok .version => return .printing versionText
  | .ok .help => return .printing helpText
  | .ok (.analyze options) =>
      let input ← readTree options.archive
      let timings ← if options.timing then measure options.archive input else pure .zero
      return options.respond .standalone input timings

end ClassMetrics.CommandLine

open ClassMetrics CommandLine in
/-- Events are logged as the variable RUST_LOG asks. -/
def main (arguments : List String) : IO UInt32 := do
  let filter := Log.Filter.ofVariable (← IO.getEnv "RUST_LOG")
  let response ← respondHere arguments
  printLog filter response.events
  IO.print response.stdout
  writeReport filter response
  printLog filter response.closing
  response.stderr.forM fun line => IO.eprintln line
  return response.exit.toUInt32
