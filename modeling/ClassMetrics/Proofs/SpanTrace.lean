import Mathlib
import ClassMetrics.Proofs.TracedScan

/-!
The spans of an analysis. Work that is done in spans comes to what it would come to without them,
and adds spans to those that have ended; from this, rule by rule, the spans of a scan and of the
phases behind it follow. Main statement: the spans of an analysis tell which entries were handed to the
decoder, in order, that this was a part of the scan, and whether the scan succeeded; and nothing
else depends on whether they are told.
-/

namespace ClassMetrics

section Telling

/-- The spans that someone is told of, if there is someone. -/
def told (telemetry : Bool) (spans : List Span) : List Span :=
  if telemetry then spans else []

theorem told_append (telemetry : Bool) (first second : List Span) :
    told telemetry (first ++ second) = told telemetry first ++ told telemetry second := by
  cases telemetry <;> rfl

theorem told_cons (telemetry : Bool) (first : Span) (others : List Span) :
    told telemetry (first :: others) = told telemetry [first] ++ told telemetry others :=
  told_append telemetry [first] others

namespace Traced

variable {α β : Type}

/-- Inside the given open spans, work comes to a value and ends spans of its own, while those that
were open stay open. -/
def Tells (work : Traced α) (opened : List String) (value : α) (spans : List Span) : Prop :=
  ∀ ended, work.run ⟨opened, ended⟩ = (value, ⟨opened, ended ++ spans⟩)

variable {opened : List String} {value : α} {spans : List Span} {telemetry : Bool}

theorem tells_pure (opened : List String) (value : α) : Tells (pure value) opened value [] := by
  intro ended
  rw [List.append_nil]
  rfl

theorem Tells.bind {work : Traced α} {next : α → Traced β} {result : β} {later : List Span}
    (hwork : work.Tells opened value spans) (hnext : (next value).Tells opened result later) :
    Tells (work >>= next) opened result (spans ++ later) := by
  intro ended
  rw [StateT.run_bind, hwork ended, ← List.append_assoc]
  exact hnext (ended ++ spans)

/-- What follows tells nothing more. -/
theorem Tells.bind_pure {work : Traced α} {next : α → Traced β} {result : β}
    (hwork : work.Tells opened value spans) (hnext : next value = pure result) :
    Tells (work >>= next) opened result spans := by
  have htells := hwork.bind (hnext ▸ tells_pure opened result)
  rwa [List.append_nil] at htells

/-- A span ends behind those that its work ends, as a part of what was open before. -/
theorem tells_inSpan (opened : List String) (name : String)
    (attributes : List (String × String)) {work : Traced α} {inner : List String → List Span}
    (hwork : ∀ opened, work.Tells opened value (told telemetry (inner opened))) :
    (inSpan telemetry name attributes work).Tells opened value
      (told telemetry (inner (name :: opened) ++ [⟨name, opened.head?, attributes⟩])) := by
  cases telemetry with
  | false => exact hwork opened
  | true =>
      intro ended
      have hinner := hwork (name :: opened) ended
      change (let (result, record) := work.run ⟨name :: opened, ended⟩
        (result, record.stop attributes)) = _
      rw [hinner]
      simp only [SpanRecord.stop, told, if_true, List.append_assoc]

/-- A span of work that tells nothing itself. -/
theorem tells_inSpan_pure (name : String) (attributes : List (String × String)) (value : α) :
    (inSpan telemetry name attributes (pure value)).Tells opened value
      (told telemetry [⟨name, opened.head?, attributes⟩]) := by
  have hpure : ∀ opened, Tells (pure value) opened value (told telemetry []) := by
    intro opened
    cases telemetry <;> exact tells_pure opened value
  exact tells_inSpan opened name attributes hpure

end Traced

end Telling

section Scanning

/-- The span of an entry that is decoded as a part of another span. -/
def Span.decodingIn (parent? : Option String) (label : String) : Span :=
  ⟨"class.decode", parent?, [("jarmetrics.entry", label)]⟩

/-- What is reported of the way in which an entry is decoded. -/
def fallbackEvents (entry : ClassEntry) : List Log.Event :=
  (ClassFile.decodeWith ModifiedUtf8.decode entry.data).fallback?.toList.map Log.Event.fellBack

variable {state : ScanState} {entry : ClassEntry} {rest : Listing} {telemetry : Bool}
  {opened : List String}

theorem scan_of_undecoded {fault : DecodeFault} (h : ClassFile.decode entry.data = .error fault) :
    state.scan (.ok entry :: rest) =
      ⟨[entry.label], fallbackEvents entry, .error (.decode entry.label fault)⟩ := by
  rw [ClassFile.decode] at h
  rw [ScanState.scan, h]
  rfl

theorem scan_of_decoded {compiled : CompiledClass}
    (h : ClassFile.decode entry.data = .ok compiled) :
    state.scan (.ok entry :: rest) =
      ⟨entry.label :: ((state.add compiled).scan rest).labels,
        fallbackEvents entry ++ state.replacement entry.label compiled ++
          ((state.add compiled).scan rest).events,
        ((state.add compiled).scan rest).result⟩ := by
  rw [ClassFile.decode] at h
  rw [ScanState.scan, h]
  rfl

namespace ScanStep

theorem record_of_undecoded {fault : DecodeFault} (h : ClassFile.decode entry.data = .error fault) :
    (record telemetry entry state).Tells opened
      (fallbackEvents entry, .error (.decode entry.label fault))
      (told telemetry [.decodingIn opened.head? entry.label]) := by
  rw [ClassFile.decode] at h
  apply (Traced.tells_inSpan_pure _ _ _).bind_pure
  rw [h]
  rfl

theorem record_of_decoded {compiled : CompiledClass}
    (h : ClassFile.decode entry.data = .ok compiled) :
    (record telemetry entry state).Tells opened
      (fallbackEvents entry ++ state.replacement entry.label compiled, .ok (state.add compiled))
      (told telemetry [.decodingIn opened.head? entry.label]) := by
  rw [ClassFile.decode] at h
  apply (Traced.tells_inSpan_pure _ _ _).bind_pure
  rw [h]
  rfl

theorem ofListing_cons (item : Except ScanFault ClassEntry) (rest : Listing) :
    (ofListing telemetry (item :: rest)).andThen finish =
      (ofItem telemetry item).andThen ((ofListing telemetry rest).andThen finish) :=
  andThen_assoc _ _ _

/-- Steps over a listing come to what its scan comes to, and tell of every entry that is handed to
the decoder. -/
theorem ofListing_tells (telemetry : Bool) (state : ScanState) (listing : Listing)
    (opened : List String) :
    ((ofListing telemetry listing).andThen finish state).Tells opened
      ((state.scan listing).events, (state.scan listing).result)
      (told telemetry ((state.scan listing).labels.map (.decodingIn opened.head?))) := by
  have hnothing : told telemetry [] = [] := by cases telemetry <;> rfl
  induction listing generalizing state with
  | nil =>
      rw [ScanState.scan, List.map_nil, hnothing]
      exact Traced.tells_pure _ _
  | cons item rest ih =>
      rw [ofListing_cons]
      cases item with
      | error fault =>
          rw [ScanState.scan, List.map_nil, hnothing]
          exact Traced.tells_pure _ _
      | ok entry =>
          cases hdecode : ClassFile.decode entry.data with
          | error fault =>
              rw [scan_of_undecoded hdecode]
              exact (record_of_undecoded hdecode).bind_pure rfl
          | ok compiled =>
              rw [scan_of_decoded hdecode, List.map_cons, told_cons]
              apply (record_of_decoded hdecode).bind
              exact (ih (state.add compiled)).bind_pure rfl

end ScanStep

end Scanning

namespace Analysis

variable (telemetry : Bool) (reader : ArchiveReader) (path : String) (input : Except IoFault Tree)

theorem tells_inPhase_pure {α : Type} (name : String) (value : α) :
    (Traced.inPhase telemetry name (pure value)).Tells [] value (told telemetry [.phase name]) :=
  Traced.tells_inSpan_pure name _ value

theorem measure_tells (state : ScanState) :
    (measure telemetry path state).Tells []
      ⟨state, Summary.ofTable path state.classes state.totals⟩
      (told telemetry [.phase "hierarchy", .phase "overrides", .phase "aggregate"]) := by
  rw [told_cons, told_cons telemetry (.phase "overrides")]
  apply (tells_inPhase_pure telemetry "hierarchy" _).bind
  apply (tells_inPhase_pure telemetry "overrides" _).bind
  exact (tells_inPhase_pure telemetry "aggregate" _).bind_pure rfl

theorem work_tells :
    (work telemetry reader path input).Tells []
      ((run reader path input).events, (run reader path input).result)
      (told telemetry (run reader path input).spans) := by
  have hscan := Traced.tells_inSpan [] "scan" [("jarmetrics.phase", "scan")]
    (ScanStep.ofListing_tells telemetry .initial (Listing.ofInput reader path input))
  rw [← ScanStep.ofInput_eq] at hscan
  rw [run]
  generalize ScanState.initial.scan (Listing.ofInput reader path input) = scan at hscan
  obtain ⟨labels, events, result⟩ := scan
  cases result with
  | error fault => exact hscan.bind_pure rfl
  | ok state =>
      simp only
      rw [told_append]
      exact hscan.bind ((measure_tells telemetry path state).bind_pure rfl)

/-- An analysis that is done in spans is the analysis, except that its spans are told only if there
is someone to be told. -/
theorem runWith_eq :
    runWith telemetry reader path input =
      { run reader path input with spans := told telemetry (run reader path input).spans } := by
  rw [runWith, work_tells telemetry reader path input []]
  rfl

end Analysis

section Listings

/-- A fault that stands in a listing is none of decoding, which has not been tried yet. -/
def Listing.Undecoded (listing : Listing) : Prop :=
  ∀ label cause, .error (.decode label cause) ∉ listing

theorem Listing.undecoded_ofTree (path : String) (tree : Tree) : (ofTree path tree).Undecoded := by
  intro label cause
  induction tree using Tree.induction generalizing path with
  | file content =>
      rw [ofTree]
      split <;> simp
  | unreadable fault =>
      rw [ofTree]
      split <;> simp
  | unlistable step fault => simp [ofTree]
  | directory entries ih =>
      rw [ofTree, joinParts, Tree.partsOf_eq]
      intro hmem
      obtain ⟨part, hpart, hfault⟩ := List.mem_flatMap.1 hmem
      obtain ⟨entry, hentry, rfl⟩ := List.mem_map.1 (List.mem_mergeSort.1 hpart)
      exact ih entry hentry _ hfault

theorem Listing.undecoded_ofArchive (reader : ArchiveReader) (path : String) (file : Bytes) :
    (ofArchive reader path file).Undecoded := by
  intro label cause hmem
  rw [ofArchive] at hmem
  split at hmem
  · simp at hmem
  · obtain ⟨opened, -, hitem⟩ := List.mem_filterMap.1 hmem
    unfold itemOf? at hitem
    split at hitem
    · simp at hitem
    · split at hitem
      · cases hitem
      · split at hitem <;> simp at hitem

theorem Listing.undecoded_ofInput (reader : ArchiveReader) (path : String)
    (input : Except IoFault Tree) : (ofInput reader path input).Undecoded := by
  cases input with
  | error fault => simp [ofInput, Undecoded]
  | ok tree =>
      cases tree with
      | file content => exact undecoded_ofArchive reader path content
      | unreadable fault => simp [ofInput, Undecoded]
      | directory entries => exact undecoded_ofTree path _
      | unlistable step fault => exact undecoded_ofTree path _

end Listings

/-- An entry that can be decoded. -/
def ClassEntry.Decodes (entry : ClassEntry) : Prop :=
  ∃ compiled, ClassFile.decode entry.data = .ok compiled

/-- How far a scan of a listing gets, and which entries it hands to the decoder: all of them, those
up to one that cannot be decoded, or those before a fault that stands in the listing. -/
inductive Handed (listing : Listing) (count : Nat) :
    List ClassEntry → Except ScanFault ScanState → Prop
  | finished (entries : List ClassEntry) (state : ScanState) (all : listing = entries.map .ok)
      (decode : ∀ entry ∈ entries, entry.Decodes)
      (counted : state.entries = count + entries.length) :
      Handed listing count entries (.ok state)
  | undecoded (before : List ClassEntry) (last : ClassEntry) (cause : DecodeFault) (after : Listing)
      (split : listing = (before ++ [last]).map .ok ++ after)
      (decode : ∀ entry ∈ before, entry.Decodes)
      (fails : ClassFile.decode last.data = .error cause) :
      Handed listing count (before ++ [last]) (.error (.decode last.label cause))
  | unread (entries : List ClassEntry) (fault : ScanFault) (after : Listing)
      (split : listing = entries.map .ok ++ .error fault :: after)
      (decode : ∀ entry ∈ entries, entry.Decodes) :
      Handed listing count entries (.error fault)

theorem Handed.cons {entry : ClassEntry} {rest : Listing} {count : Nat} {handed : List ClassEntry}
    {result : Except ScanFault ScanState} (hentry : entry.Decodes)
    (h : Handed rest (count + 1) handed result) :
    Handed (.ok entry :: rest) count (entry :: handed) result := by
  cases h with
  | finished _ state all decode counted =>
      apply finished (entry :: handed) state
      · rw [all, List.map_cons]
      · exact List.forall_mem_cons.2 ⟨hentry, decode⟩
      · rw [counted, List.length_cons]
        omega
  | undecoded before last cause after split decode fails =>
      apply undecoded (entry :: before) last cause after
      · rw [split]
        rfl
      · exact List.forall_mem_cons.2 ⟨hentry, decode⟩
      · exact fails
  | unread _ fault after split decode =>
      apply unread (entry :: handed) fault after
      · rw [split]
        rfl
      · exact List.forall_mem_cons.2 ⟨hentry, decode⟩

/-- The labels of a scan are those of the entries that it hands to the decoder. -/
theorem exists_handed (state : ScanState) (listing : Listing) :
    ∃ handed, (state.scan listing).labels = handed.map (·.label) ∧
      Handed listing state.entries handed (state.scan listing).result := by
  induction listing generalizing state with
  | nil => exact ⟨[], rfl, .finished [] state rfl (by simp) rfl⟩
  | cons item rest ih =>
      cases item with
      | error fault => exact ⟨[], rfl, .unread [] fault rest rfl (by simp)⟩
      | ok entry =>
          cases hdecode : ClassFile.decode entry.data with
          | error cause =>
              rw [scan_of_undecoded hdecode]
              exact ⟨[entry], rfl, .undecoded [] entry cause rest rfl (by simp) hdecode⟩
          | ok compiled =>
              rw [scan_of_decoded hdecode]
              obtain ⟨handed, hlabels, hhanded⟩ := ih (state.add compiled)
              exact ⟨entry :: handed, by rw [hlabels, List.map_cons], hhanded.cons ⟨_, hdecode⟩⟩

/-- The spans of an analysis against its work: `handed` are the entries of the listing that were
handed to the decoder. -/
structure SpansMirror (listing : Listing) (handed : List ClassEntry) (analysis : Analysis) :
    Prop where
  spans : analysis.spans =
    handed.map (fun entry => ⟨"class.decode", some "scan", [("jarmetrics.entry", entry.label)]⟩) ++
      ⟨"scan", none, [("jarmetrics.phase", "scan")]⟩ ::
        if analysis.result.isOk then
          [⟨"hierarchy", none, [("jarmetrics.phase", "hierarchy")]⟩,
            ⟨"overrides", none, [("jarmetrics.phase", "overrides")]⟩,
            ⟨"aggregate", none, [("jarmetrics.phase", "aggregate")]⟩]
        else []
  succeeded : ∀ findings, analysis.result = .ok findings →
    listing = handed.map .ok ∧ (∀ entry ∈ handed, entry.Decodes) ∧
      handed.length = findings.state.entries
  undecoded : ∀ label cause, analysis.result = .error (.decode label cause) →
    ∃ before last after, handed = before ++ [last] ∧ listing = handed.map .ok ++ after ∧
      (∀ entry ∈ before, entry.Decodes) ∧ ClassFile.decode last.data = .error cause ∧
      last.label = label ∧
      (ScanFault.decode label cause).message = "failed to decode " ++ label ++ ": " ++ cause.message
  unread : ∀ fault, analysis.result = .error fault → (∀ label cause, fault ≠ .decode label cause) →
    (∃ after, listing = handed.map .ok ++ .error fault :: after) ∧ ∀ entry ∈ handed, entry.Decodes

/-- The spans of an analysis mirror its work, and an analysis that tells nobody of them finds and
reports the same, whatever reads the archives. -/
theorem spans_mirror_work (reader : ArchiveReader) (path : String) (input : Except IoFault Tree) :
    Analysis.runWith true reader path input = Analysis.run reader path input ∧
      Analysis.runWith false reader path input =
        { Analysis.run reader path input with spans := [] } ∧
      ∃ handed,
        SpansMirror (Listing.ofInput reader path input) handed (Analysis.run reader path input) := by
  refine ⟨Analysis.runWith_eq true reader path input,
    Analysis.runWith_eq false reader path input, ?_⟩
  have hlisting := Listing.undecoded_ofInput reader path input
  obtain ⟨handed, hlabels, hhanded⟩ := exists_handed .initial (Listing.ofInput reader path input)
  refine ⟨handed, ?_⟩
  rw [Analysis.run]
  generalize ScanState.initial.scan (Listing.ofInput reader path input) = scan at hlabels hhanded
  obtain ⟨labels, events, result⟩ := scan
  obtain rfl : labels = handed.map (·.label) := hlabels
  cases hhanded with
  | finished _ state all decode counted =>
      constructor
      case spans => simp [Span.decoding, Span.phase, Except.isOk, Except.toBool]
      case succeeded =>
        rintro findings hfindings
        obtain rfl := Except.ok.inj hfindings
        exact ⟨all, decode, by rw [counted]; exact (Nat.zero_add _).symm⟩
      case undecoded =>
        intro label cause hresult
        cases hresult
      case unread =>
        intro fault hresult
        cases hresult
  | undecoded before last cause after split decode fails =>
      constructor
      case spans => simp [Span.decoding, Span.phase, Except.isOk, Except.toBool]
      case succeeded =>
        intro findings hresult
        cases hresult
      case undecoded =>
        intro label other hresult
        obtain ⟨rfl, rfl⟩ := ScanFault.decode.inj (Except.error.inj hresult)
        exact ⟨before, last, after, rfl, split, decode, fails, rfl, rfl⟩
      case unread =>
        intro fault hresult hother
        exact absurd (Except.error.inj hresult).symm (hother last.label cause)
  | unread _ fault after split decode =>
      constructor
      case spans => simp [Span.decoding, Span.phase, Except.isOk, Except.toBool]
      case succeeded =>
        intro findings hresult
        cases hresult
      case undecoded =>
        -- the fault stands in the listing, where nothing has been decoded
        intro label cause hresult
        obtain rfl := Except.error.inj hresult
        exact absurd (by simp [split]) (hlisting label cause)
      case unread =>
        intro other hresult _
        obtain rfl := Except.error.inj hresult
        exact ⟨⟨after, split⟩, decode⟩

end ClassMetrics
