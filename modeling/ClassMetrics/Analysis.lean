import ClassMetrics.Metrics.Report
import ClassMetrics.Scan.Run

/-!
The analysis of an input: a scan and, if it gets to its end, the metrics of what it gathered. Its
course is told by events and by spans, which are listed in the order in which they end.
-/

namespace ClassMetrics

/-- A stretch of work, inside another one or not, with what it was about. -/
structure Span where
  name : String
  parent? : Option String
  attributes : List (String × String)
  deriving DecidableEq, Repr

namespace Span

/-- A phase of the analysis. -/
def phase (name : String) : Span :=
  ⟨name, none, [("jarmetrics.phase", name)]⟩

/-- The decoding of an entry, which is part of the scan. -/
def decoding (label : String) : Span :=
  ⟨"class.decode", some "scan", [("jarmetrics.entry", label)]⟩

end Span

/-- What an analysis finds. -/
structure Findings where
  state : ScanState
  summary : Summary

structure Analysis where
  result : Except ScanFault Findings
  events : List Log.Event
  spans : List Span

namespace Analysis

/-- The events of the phases behind the scan. -/
def phaseEvents (state : ScanState) : List Log.Event :=
  let table := state.classes
  let graph := ClassGraph.ofTable table
  let depths := graph.depths
  let unresolved := table.unresolvedParents
  let tally := table.overrides
  [.decoded state.entries state.totals.methods, .builtGraph table.size graph.edgeCount] ++
    (if unresolved.size = 0 then [] else [.unresolved unresolved]) ++
    [.measuredDepths depths.size depths.maximum,
      .countedOverrides tally.superclass tally.interface]

/-- Analyses what is found under a path. -/
def run (reader : ArchiveReader) (path : String) (input : Except IoFault Tree) : Analysis :=
  let scan := ScanState.initial.scan (Listing.ofInput reader path input)
  let spans := scan.labels.map Span.decoding ++ [Span.phase "scan"]
  match scan.result with
  | .error fault => ⟨.error fault, scan.events, spans⟩
  | .ok state =>
      { result := .ok ⟨state, Summary.ofTable path state.classes state.totals⟩
        events := scan.events ++ phaseEvents state
        spans := spans ++ ["hierarchy", "overrides", "aggregate"].map Span.phase }

end Analysis

end ClassMetrics
