import ClassMetrics.Log
import ClassMetrics.Scan.Listing
import ClassMetrics.Scan.State

/-!
Scanning a listing. Entries are decoded and taken in one after another; the first fault ends the
scan. Beside its result a scan has the labels of the entries that were handed to the decoder and
the events that it reported.
-/

namespace ClassMetrics

structure ScanRun where
  labels : List String
  events : List Log.Event
  result : Except ScanFault ScanState

namespace ScanState

/-- What is reported when a class is taken in: that it replaces another one. -/
def replacement (state : ScanState) (label : String) (compiled : CompiledClass) :
    List Log.Event :=
  if state.classes.contains compiled.header.name then [.replaced compiled.header.name label]
  else []

/-- Takes in a listing. -/
def scan (state : ScanState) : Listing → ScanRun
  | [] => ⟨[], [.scanFinished state.entries state.replaced], .ok state⟩
  | .error fault :: _ => ⟨[], [], .error fault⟩
  | .ok entry :: rest =>
      let decoding := ClassFile.decodeWith ModifiedUtf8.decode entry.data
      let fallback := decoding.fallback?.toList.map Log.Event.fellBack
      match decoding.result with
      | .error fault => ⟨[entry.label], fallback, .error (.decode entry.label fault)⟩
      | .ok compiled =>
          let later := scan (state.add compiled) rest
          ⟨entry.label :: later.labels,
            fallback ++ state.replacement entry.label compiled ++ later.events, later.result⟩

end ScanState

end ClassMetrics
