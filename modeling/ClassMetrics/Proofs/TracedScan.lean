import Mathlib
import ClassMetrics.Analysis
import ClassMetrics.Proofs.DirectoryOrder

/-!
The analysis of an input as work that is done step by step, in spans that are opened and ended
around it. A directory is walked by recursion and a fault ends the walk wherever it stands; this is
shown to be the same as taking in the listing of the directory item by item, and likewise for an
archive.
-/

namespace ClassMetrics

section Spans

/-- The names of the spans that are open, the innermost first, and the spans that have ended, in the
order in which they did. -/
structure SpanRecord where
  opened : List String
  ended : List Span

namespace SpanRecord

/-- Opens a span inside those that are open. -/
def start (record : SpanRecord) (name : String) : SpanRecord :=
  { record with opened := name :: record.opened }

/-- Ends the innermost span, which is told with its parent. -/
def stop (record : SpanRecord) (attributes : List (String × String)) : SpanRecord :=
  match record.opened with
  | [] => record
  | name :: outer => ⟨outer, record.ended ++ [⟨name, outer.head?, attributes⟩]⟩

end SpanRecord

/-- Work in the course of which spans may be opened and ended. -/
abbrev Traced := StateM SpanRecord

namespace Traced

variable {α : Type}

/-- Does work in a span of its own if there is someone to be told of it. The span ends whatever the
work comes to. -/
def inSpan (telemetry : Bool) (name : String) (attributes : List (String × String))
    (work : Traced α) : Traced α :=
  if telemetry then do
    modify (·.start name)
    let result ← work
    modify (·.stop attributes)
    return result
  else work

/-- Does work as a phase of the analysis. -/
def inPhase (telemetry : Bool) (name : String) (work : Traced α) : Traced α :=
  inSpan telemetry name [("jarmetrics.phase", name)] work

end Traced

end Spans

/-- A part of a scan: the events it reports, and the state it leaves or the fault that ends the
scan. -/
abbrev ScanStep := ScanState → Traced (List Log.Event × Except ScanFault ScanState)

namespace ScanStep

def skip : ScanStep := fun state => return ([], .ok state)

def fail (fault : ScanFault) : ScanStep := fun _ => return ([], .error fault)

/-- The second step is taken only if the first one succeeds. -/
def andThen (first second : ScanStep) : ScanStep := fun state => do
  match ← first state with
  | (events, .error fault) => return (events, .error fault)
  | (events, .ok next) =>
      let (later, result) ← second next
      return (events ++ later, result)

def inOrder (steps : List ScanStep) : ScanStep :=
  steps.foldr andThen skip

/-- Decodes an entry in a span of its own and takes it in, unless it cannot be decoded. -/
def record (telemetry : Bool) (entry : ClassEntry) : ScanStep := fun state => do
  let decoding ← Traced.inSpan telemetry "class.decode" [("jarmetrics.entry", entry.label)] do
    return ClassFile.decodeWith ModifiedUtf8.decode entry.data
  let fallback := decoding.fallback?.toList.map Log.Event.fellBack
  match decoding.result with
  | .error fault => return (fallback, .error (.decode entry.label fault))
  | .ok compiled =>
      return (fallback ++ state.replacement entry.label compiled, .ok (state.add compiled))

/-- The end of a scan is reported. -/
def finish : ScanStep := fun state =>
  return ([.scanFinished state.entries state.replaced], .ok state)

variable (telemetry : Bool)

mutual

/-- Walks what stands under the given path in a directory. -/
def ofTree (path : String) : Tree → ScanStep
  | .file content => if Listing.isClassName path then record telemetry ⟨path, content⟩ else skip
  | .unreadable fault => if Listing.isClassName path then fail (.readFile path fault) else skip
  | .unlistable step fault => fail (.readDirectory path step fault)
  | .directory entries =>
      inOrder (((ofEntries path entries).mergeSort fun part other =>
        decide (part.1 ≤ other.1)).map Prod.snd)

/-- The paths of the entries of the directory under the given path, and the walk of each. -/
def ofEntries (path : String) : List (String × Tree) → List (String × ScanStep)
  | [] => []
  | (name, tree) :: rest =>
      (joinPath path name, ofTree (joinPath path name) tree) :: ofEntries path rest

end

/-- Opens an entry of an archive, and reads and records it if it is a class file. -/
def ofArchiveEntry (path : String) : Except String ArchiveEntry → ScanStep
  | .error fault => fail (.openArchive path fault)
  | .ok entry =>
      if entry.isDirectory || !Listing.isClassName entry.name then skip
      else match entry.content () with
        | .ok data => record telemetry ⟨path ++ ":" ++ entry.name, data⟩
        | .error fault => fail (.readEntry path entry.name fault)

variable (reader : ArchiveReader)

def ofArchive (path : String) (file : Bytes) : ScanStep :=
  match reader.entries file with
  | .error fault => fail (.openArchive path fault)
  | .ok entries => inOrder (entries.map (ofArchiveEntry telemetry path))

/-- Scans what is found under a path: a directory is walked, all else is taken for an archive. -/
def ofInput (path : String) : Except IoFault Tree → ScanStep
  | .ok (.directory entries) => ofTree telemetry path (.directory entries)
  | .ok (.unlistable step fault) => ofTree telemetry path (.unlistable step fault)
  | .ok (.file content) => ofArchive telemetry reader path content
  | .ok (.unreadable fault) | .error fault => fail (.openInput path fault)

end ScanStep

namespace Analysis

variable (telemetry : Bool) (reader : ArchiveReader) (path : String)

/-- The phases behind the scan. -/
def measure (state : ScanState) : Traced Findings := do
  let depths ← Traced.inPhase telemetry "hierarchy" do
    return (ClassGraph.ofTable state.classes).depths
  let tally ← Traced.inPhase telemetry "overrides" do
    return state.classes.overrides
  let summary ← Traced.inPhase telemetry "aggregate" do
    return Summary.of path state.totals depths tally
  return ⟨state, summary⟩

/-- All phases. No other phase follows a scan that fails. -/
def work (input : Except IoFault Tree) : Traced (List Log.Event × Except ScanFault Findings) := do
  let scan := (ScanStep.ofInput telemetry reader path input).andThen ScanStep.finish
  match ← Traced.inPhase telemetry "scan" (scan .initial) with
  | (events, .error fault) => return (events, .error fault)
  | (events, .ok state) =>
      let findings ← measure telemetry path state
      return (events ++ phaseEvents state, .ok findings)

/-- An analysis with or without someone to be told of its spans. -/
def runWith (input : Except IoFault Tree) : Analysis :=
  let ((events, result), record) := (work telemetry reader path input).run ⟨[], []⟩
  ⟨result, events, record.ended⟩

end Analysis

namespace ScanStep

section Order

variable (first second third : ScanStep) {state next : ScanState} {before after : SpanRecord}
  {events : List Log.Event} {fault : ScanFault}

variable {first}

theorem andThen_of_error (h : first state before = ((events, .error fault), after)) :
    first.andThen second state before = ((events, .error fault), after) := by
  simp only [andThen, bind, StateT.bind, h]
  rfl

theorem andThen_of_ok (h : first state before = ((events, .ok next), after)) :
    first.andThen second state before =
      ((events ++ (second next after).1.1, (second next after).1.2), (second next after).2) := by
  simp only [andThen, bind, StateT.bind, h]
  rfl

variable (first)

theorem andThen_assoc :
    (first.andThen second).andThen third = first.andThen (second.andThen third) := by
  funext state before
  rcases hfirst : first state before with ⟨⟨events, fault | next⟩, middle⟩
  · rw [andThen_of_error _ hfirst, andThen_of_error _ (andThen_of_error _ hfirst)]
  · have hboth := andThen_of_ok second hfirst
    rcases hsecond : second next middle with ⟨⟨later, fault | last⟩, after⟩
    · rw [hsecond] at hboth
      rw [andThen_of_ok _ hfirst, andThen_of_error _ hboth, andThen_of_error _ hsecond]
    · rw [hsecond] at hboth
      rw [andThen_of_ok _ hfirst, andThen_of_ok _ hboth, andThen_of_ok _ hsecond,
        List.append_assoc]

theorem andThen_skip : first.andThen skip = first := by
  funext state before
  rcases hfirst : first state before with ⟨⟨events, fault | next⟩, after⟩
  · exact andThen_of_error _ hfirst
  · rw [andThen_of_ok _ hfirst]
    change ((events ++ [], Except.ok next), after) = _
    rw [List.append_nil]

theorem inOrder_cons (steps : List ScanStep) :
    inOrder (first :: steps) = first.andThen (inOrder steps) := rfl

theorem inOrder_append (steps others : List ScanStep) :
    inOrder (steps ++ others) = (inOrder steps).andThen (inOrder others) := by
  induction steps with
  | nil => rfl
  | cons step steps ih =>
      rw [List.cons_append, inOrder_cons, inOrder_cons, ih, andThen_assoc]

end Order

section Items

variable (telemetry : Bool)

/-- What a scan does with an item of a listing. -/
def ofItem : Except ScanFault ClassEntry → ScanStep
  | .error fault => fail fault
  | .ok entry => record telemetry entry

/-- Takes in a listing, item by item. -/
def ofListing (listing : Listing) : ScanStep :=
  inOrder (listing.map (ofItem telemetry))

theorem ofListing_append (listing others : Listing) :
    ofListing telemetry (listing ++ others) =
      (ofListing telemetry listing).andThen (ofListing telemetry others) := by
  rw [ofListing, List.map_append, inOrder_append]
  rfl

theorem ofListing_singleton (item : Except ScanFault ClassEntry) :
    ofListing telemetry [item] = ofItem telemetry item :=
  andThen_skip (ofItem telemetry item)

theorem inOrder_map_ofListing (listings : List Listing) :
    inOrder (listings.map (ofListing telemetry)) = ofListing telemetry listings.flatten := by
  induction listings with
  | nil => rfl
  | cons listing listings ih =>
      rw [List.map_cons, inOrder_cons, ih, List.flatten_cons, ofListing_append]

theorem ofEntries_eq (path : String) (entries : List (String × Tree)) :
    ofEntries telemetry path entries = entries.map fun entry =>
      (joinPath path entry.1, ofTree telemetry (joinPath path entry.1) entry.2) := by
  induction entries with
  | nil => rw [ofEntries, List.map_nil]
  | cons entry rest ih => rw [ofEntries, ih, List.map_cons]

/-- The walk of a tree takes in its listing. -/
theorem ofTree_eq (path : String) (tree : Tree) :
    ofTree telemetry path tree = ofListing telemetry (Listing.ofTree path tree) := by
  induction tree using Tree.induction generalizing path with
  | file content =>
      rw [ofTree, Listing.ofTree]
      split
      · exact (ofListing_singleton telemetry (.ok ⟨path, content⟩)).symm
      · rfl
  | unreadable fault =>
      rw [ofTree, Listing.ofTree]
      split
      · exact (ofListing_singleton telemetry (.error (.readFile path fault))).symm
      · rfl
  | unlistable step fault =>
      rw [ofTree, Listing.ofTree]
      exact (ofListing_singleton telemetry (.error (.readDirectory path step fault))).symm
  | directory entries ih =>
      have hparts : ofEntries telemetry path entries =
          (Listing.partsOf path entries).map fun part => (part.1, ofListing telemetry part.2) := by
        rw [ofEntries_eq, Tree.partsOf_eq, List.map_map]
        apply List.map_congr_left
        intro entry hentry
        rw [ih entry hentry]
        rfl
      -- the parts are sorted by their paths, which are the same on both sides
      rw [ofTree, Listing.ofTree, Listing.joinParts, hparts, ← List.map_mergeSort]
      · rw [List.map_map, List.flatMap, ← inOrder_map_ofListing, List.map_map]
        rfl
      · intro part _ other _
        rfl

theorem ofArchiveEntry_eq (path : String) (opened : Except String ArchiveEntry) :
    ofArchiveEntry telemetry path opened =
      ofListing telemetry (Listing.itemOf? path opened).toList := by
  cases opened with
  | error fault => exact (ofListing_singleton telemetry (.error (.openArchive path fault))).symm
  | ok entry =>
      rw [ofArchiveEntry, Listing.itemOf?]
      by_cases hskipped : (entry.isDirectory || !Listing.isClassName entry.name) = true
      · simp only [hskipped, if_true]
        rfl
      · simp only [hskipped, Bool.false_eq_true, if_false]
        cases entry.content () with
        | ok data => exact (ofListing_singleton telemetry (.ok ⟨_, data⟩)).symm
        | error fault =>
            exact (ofListing_singleton telemetry (.error (.readEntry path entry.name fault))).symm

variable (reader : ArchiveReader)

theorem ofArchive_eq (path : String) (file : Bytes) :
    ofArchive telemetry reader path file =
      ofListing telemetry (Listing.ofArchive reader path file) := by
  rw [ofArchive, Listing.ofArchive]
  cases reader.entries file with
  | error fault => exact (ofListing_singleton telemetry (.error (.openArchive path fault))).symm
  | ok entries =>
      have hsteps : entries.map (ofArchiveEntry telemetry path) =
          (entries.map fun entry => (Listing.itemOf? path entry).toList).map
            (ofListing telemetry) := by
        rw [List.map_map]
        exact List.map_congr_left fun entry _ => ofArchiveEntry_eq telemetry path entry
      change inOrder (entries.map _) = ofListing telemetry (entries.filterMap _)
      rw [hsteps, inOrder_map_ofListing, List.filterMap_eq_flatMap_toList, List.flatMap]

/-- The scan of an input takes in its listing. -/
theorem ofInput_eq (path : String) (input : Except IoFault Tree) :
    ofInput telemetry reader path input =
      ofListing telemetry (Listing.ofInput reader path input) := by
  have hfail (fault : IoFault) := ofListing_singleton telemetry (.error (.openInput path fault))
  cases input with
  | error fault => exact (hfail fault).symm
  | ok tree =>
      cases tree with
      | file content => exact ofArchive_eq telemetry reader path content
      | unreadable fault => exact (hfail fault).symm
      | directory entries => exact ofTree_eq telemetry path _
      | unlistable step fault => exact ofTree_eq telemetry path _

end Items

end ScanStep

end ClassMetrics
