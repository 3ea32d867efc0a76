import Mathlib
import ClassMetrics.Proofs.EntryOrder
import ClassMetrics.Proofs.FileSize

/-!
What a scan keeps of the entries that were handed to it. An entry that cannot be decoded leaves the
state as it was; every other one is counted and its class put under its name. Main statement: after
any calls the counters, the table and the number of replacements agree with each other and with the
classes that were decoded.
-/

namespace ClassMetrics

namespace ScanState

/-- Takes an entry in. One that cannot be decoded leaves the state as it was. -/
def attempt (state : ScanState) (data : Bytes) : ScanState :=
  match state.record data with
  | .ok next => next
  | .error _ => state

/-- The state after calls for the given entries. -/
def attempts (state : ScanState) (files : List Bytes) : ScanState :=
  files.foldl attempt state

/-- What the calls for the given entries return. -/
def answers (state : ScanState) : List Bytes → List (Except DecodeFault ScanState)
  | [] => []
  | data :: rest => state.record data :: (state.attempt data).answers rest

end ScanState

/-- The classes of those entries that can be decoded. -/
def decodedClasses (files : List Bytes) : List CompiledClass :=
  files.filterMap fun data => (ClassFile.decode data).toOption

section Decoded

variable {data : Bytes} {rest : List Bytes}

theorem decodedClasses_of_ok {compiled : CompiledClass} (h : ClassFile.decode data = .ok compiled) :
    decodedClasses (data :: rest) = compiled :: decodedClasses rest := by
  rw [decodedClasses, List.filterMap_cons, h]
  rfl

theorem decodedClasses_of_error {fault : DecodeFault} (h : ClassFile.decode data = .error fault) :
    decodedClasses (data :: rest) = decodedClasses rest := by
  rw [decodedClasses, List.filterMap_cons, h]
  rfl

theorem exists_of_mem_decodedClasses {files : List Bytes} {compiled : CompiledClass}
    (h : compiled ∈ decodedClasses files) :
    ∃ data ∈ files, ClassFile.decode data = .ok compiled := by
  obtain ⟨data, hdata, hsome⟩ := List.mem_filterMap.1 h
  cases hdecode : ClassFile.decode data with
  | error fault =>
      rw [hdecode] at hsome
      cases hsome
  | ok made =>
      rw [hdecode] at hsome
      obtain rfl := Option.some.inj hsome
      exact ⟨data, hdata, hdecode⟩

theorem sum_classCost_le (files : List Bytes) :
    ((decodedClasses files).map ClassFile.classCost).sum ≤ (files.map List.length).sum := by
  induction files with
  | nil => exact Nat.le_refl 0
  | cons data rest ih =>
      rw [List.map_cons, List.sum_cons]
      cases hdecode : ClassFile.decode data with
      | error fault =>
          rw [decodedClasses_of_error hdecode]
          omega
      | ok compiled =>
          have hfirst := ClassFile.classCost_le hdecode
          rw [decodedClasses_of_ok hdecode, List.map_cons, List.sum_cons]
          omega

theorem sum_classCost (classes : List CompiledClass) :
    (classes.map ClassFile.classCost).sum =
      24 * classes.length + (classes.map (·.fieldCount)).sum +
        (classes.map (·.methods.length)).sum + (classes.map (·.abc.assignments)).sum +
        (classes.map (·.abc.branches)).sum + (classes.map (·.abc.conditions)).sum := by
  induction classes with
  | nil => rfl
  | cons first others ih =>
      simp only [List.map_cons, List.sum_cons, List.length_cons, ih, ClassFile.classCost, Abc.total]
      omega

end Decoded

namespace ScanState

theorem attempt_of_ok (state : ScanState) {data : Bytes} {compiled : CompiledClass}
    (h : ClassFile.decode data = .ok compiled) : state.attempt data = state.add compiled := by
  rw [attempt, record, h]
  rfl

theorem attempt_of_error (state : ScanState) {data : Bytes} {fault : DecodeFault}
    (h : ClassFile.decode data = .error fault) : state.attempt data = state := by
  rw [attempt, record, h]
  rfl

/-- The classes that can be decoded are taken in one after another. -/
theorem attempts_eq (state : ScanState) (files : List Bytes) :
    state.attempts files = (decodedClasses files).foldl add state := by
  induction files generalizing state with
  | nil => rfl
  | cons data rest ih =>
      change (state.attempt data).attempts rest = _
      rw [ih]
      cases hdecode : ClassFile.decode data with
      | error fault => rw [attempt_of_error state hdecode, decodedClasses_of_error hdecode]
      | ok compiled =>
          rw [attempt_of_ok state hdecode, decodedClasses_of_ok hdecode, List.foldl_cons]

theorem countP_answers (state : ScanState) (files : List Bytes) :
    (state.answers files).countP Except.isOk = (decodedClasses files).length := by
  induction files generalizing state with
  | nil => rfl
  | cons data rest ih =>
      rw [answers, List.countP_cons, ih, record]
      cases hdecode : ClassFile.decode data with
      | error fault =>
          rw [decodedClasses_of_error hdecode]
          rfl
      | ok compiled =>
          rw [decodedClasses_of_ok hdecode]
          rfl

variable (state : ScanState) (classes : List CompiledClass)

theorem entries_foldl_add : (classes.foldl add state).entries = state.entries + classes.length := by
  induction classes generalizing state with
  | nil => rfl
  | cons first others ih =>
      have hfirst : (state.add first).entries = state.entries + 1 := rfl
      rw [List.foldl_cons, ih, List.length_cons, hfirst]
      omega

theorem totals_foldl_add : (classes.foldl add state).totals = classes.foldl .record state.totals := by
  induction classes generalizing state with
  | nil => rfl
  | cons first others ih => exact ih (state.add first)

theorem classes_foldl_add :
    (classes.foldl add state).classes.classes =
      (classes.map (·.header)).foldl .insert state.classes.classes := by
  induction classes generalizing state with
  | nil => rfl
  | cons first others ih => exact ih (state.add first)

/-- A class makes the table larger or is counted as a replacement. -/
theorem size_add (compiled : CompiledClass) :
    (state.add compiled).classes.size + (state.add compiled).replaced =
      state.classes.size + state.replaced + 1 := by
  have hsize : (state.add compiled).classes.size +
      (state.classes.contains compiled.header.name).toNat = state.classes.size + 1 :=
    state.classes.classes.size_insert compiled.header
  have hreplaced := state.replaced_add compiled
  omega

theorem size_foldl_add :
    (classes.foldl add state).classes.size + (classes.foldl add state).replaced =
      state.classes.size + state.replaced + classes.length := by
  induction classes generalizing state with
  | nil => rfl
  | cons first others ih =>
      have hfirst := state.size_add first
      rw [List.foldl_cons, ih, List.length_cons]
      omega

end ScanState

theorem ClassTable.size_pos (table : ClassTable) : 0 < table.size := by
  have hroot : rootName ∈ table.names := contains_iff.1 table.contains_root
  have hlength : table.names.length = table.size := List.length_map _
  exact hlength ▸ List.length_pos_of_mem hroot

/-- The header of the last class that has the given name. -/
def lastHeader? (name : String) (classes : List CompiledClass) : Option ClassHeader :=
  ((classes.map (·.header)).filter (·.name == name)).getLast?

theorem ScanState.find?_foldl_add (state : ScanState) (classes : List CompiledClass)
    (name : String) :
    (classes.foldl add state).classes.find? name =
      (lastHeader? name classes).or (state.classes.find? name) := by
  rw [ClassTable.find?, classes_foldl_add]
  exact state.classes.classes.find?_foldl_insert _ name

theorem ClassTable.find?_initial (name : String) :
    initial.find? name = if rootName = name then some .root else none :=
  Ordered.find?_insert Ordered.empty ClassHeader.root name

/-- The counters hold what the given classes come to. -/
structure Totals.Holds (totals : Totals) (made : List CompiledClass) : Prop where
  classes : totals.classes.toNat = made.length
  fields : totals.fields.toNat = (made.map (·.fieldCount)).sum
  methods : totals.methods.toNat = (made.map (·.methods.length)).sum
  assignments : totals.assignments.toNat = (made.map (·.abc.assignments)).sum
  branches : totals.branches.toNat = (made.map (·.abc.branches)).sum
  conditions : totals.conditions.toNat = (made.map (·.abc.conditions)).sum

theorem Totals.holds_foldl_record {classes : List CompiledClass}
    (h : (classes.map ClassFile.classCost).sum < 2 ^ 64) :
    Holds (classes.foldl record zero) classes := by
  have hexact : ∀ amount ≤ (classes.map ClassFile.classCost).sum,
      (UInt64.ofNat amount).toNat = amount :=
    fun amount hle => UInt64.toNat_ofNat_of_lt' (hle.trans_lt h)
  rw [sum_classCost] at hexact
  rw [foldl_record_zero]
  constructor
  all_goals
    apply hexact
    omega

/-- What is kept of the classes that were taken in, in this order. -/
structure Books (state : ScanState) (classes : List CompiledClass) : Prop where
  entries : state.entries = classes.length
  totals : state.totals.Holds classes
  replaced : state.replaced ≤ state.entries
  size : state.classes.size = 1 + state.entries - state.replaced
  root : state.classes.contains rootName = true
  own : ∀ header ∈ state.classes.toList, state.classes.find? header.name = some header
  last : ∀ name, state.classes.find? name =
    (lastHeader? name classes).or (if rootName = name then some .root else none)

/-- The books are right as long as the counters can hold what the classes count for. -/
theorem books_foldl_add {classes : List CompiledClass}
    (h : (classes.map ClassFile.classCost).sum < 2 ^ 64) :
    Books (classes.foldl ScanState.add .initial) classes := by
  have hentries : (classes.foldl ScanState.add .initial).entries = classes.length := by
    rw [ScanState.entries_foldl_add]
    exact Nat.zero_add _
  have htotals : (classes.foldl ScanState.add .initial).totals.Holds classes := by
    rw [ScanState.totals_foldl_add]
    exact Totals.holds_foldl_record h
  have hsize : (classes.foldl ScanState.add .initial).classes.size +
      (classes.foldl ScanState.add .initial).replaced = 1 + classes.length :=
    ScanState.size_foldl_add .initial classes
  have hpositive := (classes.foldl ScanState.add .initial).classes.size_pos
  constructor
  case entries => exact hentries
  case totals => exact htotals
  case replaced => omega
  case size => omega
  case root => exact ClassTable.contains_root _
  case own =>
    intro header hheader
    exact ClassTable.find?_eq_some_iff.2 ⟨hheader, rfl⟩
  case last =>
    intro name
    rw [← ClassTable.find?_initial]
    exact ScanState.find?_foldl_add .initial classes name

/-- After any calls as many entries and classes are counted as there were calls that succeeded, and
the books are right for these classes. -/
theorem attempts_books (files : List Bytes) (h : (files.map List.length).sum < 2 ^ 64) :
    let state := ScanState.initial.attempts files
    let successes := (ScanState.initial.answers files).countP Except.isOk
    state.entries = successes ∧ state.totals.classes.toNat = successes ∧
      Books state (decodedClasses files) := by
  intro state successes
  have hbooks : Books state (decodedClasses files) := by
    rw [show state = _ from ScanState.attempts_eq .initial files]
    exact books_foldl_add ((sum_classCost_le files).trans_lt h)
  have hsuccesses : successes = (decodedClasses files).length :=
    ScanState.countP_answers .initial files
  rw [hsuccesses]
  exact ⟨hbooks.entries, hbooks.totals.classes, hbooks⟩

/-- Two files of one class, and between them one that ends too early. -/
def brokenBetween : List Bytes :=
  [(bareEntry 65 noField).data, [0xca, 0xfe], (bareEntry 65 oneField).data]

/-- Both classes are counted, and the second is found. -/
theorem attempts_brokenBetween :
    (brokenBetween.map List.length).sum < 2 ^ 64 ∧
      decodedClasses brokenBetween =
        [⟨⟨"A", none, .empty, []⟩, 0, []⟩, ⟨⟨"A", none, .empty, []⟩, 1, []⟩] ∧
      (ScanState.initial.attempts brokenBetween).entries =
        (ScanState.initial.answers brokenBetween).countP Except.isOk ∧
      (ScanState.initial.attempts brokenBetween).totals.classes.toNat =
        (ScanState.initial.answers brokenBetween).countP Except.isOk ∧
      Books (ScanState.initial.attempts brokenBetween) (decodedClasses brokenBetween) :=
  ⟨by decide, by cbv, attempts_books brokenBetween (by decide)⟩

end ClassMetrics
