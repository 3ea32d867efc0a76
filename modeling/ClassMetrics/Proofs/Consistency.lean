import Mathlib
import ClassMetrics.Proofs.Bookkeeping
import ClassMetrics.Proofs.DecimalReading
import ClassMetrics.Proofs.DepthPaths
import ClassMetrics.Proofs.OverrideCounts
import ClassMetrics.Proofs.Quotients

/-!
The parts of a report against each other. The counters go over all entries, the override tallies and
the depths over the classes that are left in the table; a class that is replaced takes its declared
methods with it. Main statement: what is found in the table is bounded by what was counted, and an
average is written as null only where there is nothing to be averaged.
-/

namespace ClassMetrics

namespace ClassTable

theorem declaredCount_initial : initial.declaredCount = 0 := by
  decide

/-- A class brings its declared methods, and one that it replaces takes its own away. -/
theorem declaredCount_insert_le (table : ClassTable) (header : ClassHeader) :
    (table.insert header).declaredCount ≤ table.declaredCount + header.declared.length := by
  have hperm := ((table.classes.insert_perm header).filter fun other => !other.isRoot).map
    (·.declared.length)
  have hsublist : ((header :: table.toList.filter fun other => other.name != header.name).filter
      fun other => !other.isRoot).Sublist (header :: table.nonRoot) := by
    rw [List.filter_cons]
    have hrest : ((table.toList.filter fun other => other.name != header.name).filter
        fun other => !other.isRoot).Sublist table.nonRoot := List.filter_sublist.filter _
    split
    · exact hrest.cons_cons header
    · exact hrest.cons header
  calc (table.insert header).declaredCount
      = (((header :: table.toList.filter fun other => other.name != header.name).filter
          fun other => !other.isRoot).map (·.declared.length)).sum := hperm.sum_eq
    _ ≤ ((header :: table.nonRoot).map (·.declared.length)).sum :=
        (hsublist.map _).sum_le_sum fun _ _ => Nat.zero_le _
    _ = table.declaredCount + header.declared.length := Nat.add_comm _ _

end ClassTable

theorem ScanState.declaredCount_foldl_add_le (state : ScanState) (classes : List CompiledClass) :
    (classes.foldl add state).classes.declaredCount ≤
      state.classes.declaredCount + (classes.map (·.header.declared.length)).sum := by
  induction classes generalizing state with
  | nil => exact Nat.le_refl _
  | cons first others ih =>
      have hfirst := state.classes.declaredCount_insert_le first.header
      have hothers := ih (state.add first)
      rw [List.foldl_cons, List.map_cons, List.sum_cons]
      change _ ≤ (state.classes.insert first.header).declaredCount + _ at hothers
      omega

section Declared

open ClassFile

/-- The declared methods of a decoded class are its methods without the constructors. -/
theorem exists_signatures {data : Bytes} {compiled : CompiledClass}
    (h : decode data = .ok compiled) :
    ∃ signatures, List.Forall₂ HasSignature compiled.methods signatures ∧
      compiled.header.declared = signatures.filter (·.name ≠ constructorName) := by
  rcases resolved_or_framed h with ⟨parsed, -, hresolve⟩ | hframed
  · obtain ⟨name, -, hresolve⟩ := except_bind_eq_ok.1 hresolve
    obtain ⟨super?, -, hresolve⟩ := except_bind_eq_ok.1 hresolve
    obtain ⟨interfaces, -, hresolve⟩ := except_bind_eq_ok.1 hresolve
    obtain ⟨methods, -, hassemble⟩ := except_bind_eq_ok.1 hresolve
    obtain ⟨signatures, hsignatures, rfl⟩ := assemble_eq_ok.1 hassemble
    exact ⟨signatures, hsignatures, rfl⟩
  · obtain ⟨layout, count, trailing, hcount, rfl⟩ := exists_layout_of_framed_decode hframed
    rw [framed_decode_bytes hcount] at hframed
    exact (classValue_eq_ok.1 hframed).declared

theorem declared_length_le {data : Bytes} {compiled : CompiledClass}
    (h : decode data = .ok compiled) :
    compiled.header.declared.length ≤ compiled.methods.length := by
  obtain ⟨signatures, hsignatures, hdeclared⟩ := exists_signatures h
  rw [hdeclared, hsignatures.length_eq]
  exact List.length_filter_le _ _

end Declared

/-- What the classes in the table declare was counted when they were taken in. -/
theorem declaredCount_le (files : List Bytes) :
    ((decodedClasses files).foldl ScanState.add .initial).classes.declaredCount ≤
      ((decodedClasses files).map (·.methods.length)).sum := by
  have htable := ScanState.declaredCount_foldl_add_le .initial (decodedClasses files)
  have hmethods : ((decodedClasses files).map (·.header.declared.length)).sum ≤
      ((decodedClasses files).map (·.methods.length)).sum := by
    apply List.sum_le_sum
    intro compiled hcompiled
    obtain ⟨data, -, hdecode⟩ := exists_of_mem_decodedClasses hcompiled
    exact declared_length_le hdecode
  have hinitial : ScanState.initial.classes.declaredCount = 0 := ClassTable.declaredCount_initial
  omega

section Averages

/-- A value that the report has as `null`. -/
def Report.IsNull (value : Float) : Prop :=
  Report.floatText value = "null".toList

theorem Report.isNull_notANumber : IsNull notANumber :=
  Json.floatText_eq_null_iff.2 rfl

theorem Report.not_isNull_quotient (numerator : UInt64) {denominator : UInt64}
    (hne : denominator ≠ 0) : ¬ IsNull (numerator.toFloat / denominator.toFloat) := by
  rw [IsNull, Json.floatText_eq_null_iff, isFinite_toFloat_div numerator hne]
  exact Bool.true_eq_false.mp

theorem isNull_ratio_iff {numerator denominator : UInt64} :
    Report.IsNull (ratio numerator denominator) ↔ denominator = 0 := by
  unfold ratio
  split
  case isTrue hzero => exact iff_of_true Report.isNull_notANumber hzero
  case isFalse hne => exact iff_of_false (Report.not_isNull_quotient numerator hne) hne

theorem Depths.isNull_average_iff {depths : Depths} (hsize : depths.size < 2 ^ 64) :
    Report.IsNull depths.average ↔ depths.size = 0 := by
  unfold average
  split
  case isTrue hzero => exact iff_of_true Report.isNull_notANumber hzero
  case isFalse hne =>
      have hcounter : UInt64.ofNat depths.size ≠ 0 := by
        intro hzero
        have htoNat := congrArg UInt64.toNat hzero
        rw [UInt64.toNat_ofNat_of_lt' hsize] at htoNat
        exact hne htoNat
      exact iff_of_false (Report.not_isNull_quotient _ hcounter) hne

theorem Depths.maximum_eq_neg_one_iff {depths : Depths} :
    depths.maximum = -1 ↔ depths.size = 0 := by
  rw [maximum, Ordered.size]
  cases hmax : (depths.toList.map Prod.snd).max? with
  | none => simpa using hmax
  | some depth =>
      have hmem := List.max?_mem hmax
      have hlength : depths.toList.length ≠ 0 := by
        intro hzero
        simp [List.length_eq_zero_iff.1 hzero] at hmem
      have hdepth : (depth : Int) ≠ -1 := by omega
      exact iff_of_false hdepth hlength

end Averages

section Tallies

theorem ClassTable.interface_le (table : ClassTable) :
    table.overrides.interface.toNat ≤ table.declaredCount := by
  apply (Counter.toNat_ofNat_le _).trans
  rw [← List.sum_eq_foldr, ← interfaceOverrides_eq]
  exact table.interfaceOverrides_le

theorem ClassTable.superclass_le (table : ClassTable) :
    table.overrides.superclass.toNat ≤ table.declaredCount * (table.size - 1) := by
  apply (Counter.toNat_ofNat_le _).trans
  rw [← List.sum_eq_foldr, ← superclassOverrides_eq]
  exact table.superclassOverrides_le

theorem ClassTable.total_overrides_eq_zero {table : ClassTable} (h : table.declaredCount = 0) :
    table.overrides.total = 0 := by
  have hsuperclass := table.superclass_le
  have hinterface := table.interface_le
  rw [h, Nat.zero_mul] at hsuperclass
  rw [h] at hinterface
  have hfirst : table.overrides.superclass = 0 := UInt64.toNat_inj.1 (Nat.le_zero.1 hsuperclass)
  have hsecond : table.overrides.interface = 0 := UInt64.toNat_inj.1 (Nat.le_zero.1 hinterface)
  rw [OverrideTally.total, hfirst, hsecond]
  rfl

/-- The root alone has no depths below it. -/
theorem depths_initial : (ClassGraph.ofTable .initial).depths.size = 0 := by
  have hchildren : (ClassGraph.ofTable .initial).children rootName = [] := by
    rw [ClassGraph.children_ofTable]
    decide
  rw [ClassGraph.depths, hchildren, List.map_nil, ClassGraph.explore]
  rfl

end Tallies

section Entries

variable {entries : List ClassEntry}

theorem sum_lengths (entries : List ClassEntry) :
    ((entries.map (·.data)).map List.length).sum = (entries.map (·.data.length)).sum := by
  rw [List.map_map]
  rfl

theorem recordAll_eq
    (h : ∀ entry ∈ entries, ∃ compiled, ClassFile.decode entry.data = .ok compiled) :
    ScanState.initial.recordAll entries =
      .ok ((decodedClasses (entries.map (·.data))).foldl ScanState.add .initial) := by
  rw [ScanState.recordAll_of_decodes h, decodedClasses, List.filterMap_map]
  rfl

theorem length_decodedClasses
    (h : ∀ entry ∈ entries, ∃ compiled, ClassFile.decode entry.data = .ok compiled) :
    (decodedClasses (entries.map (·.data))).length = entries.length := by
  induction entries with
  | nil => rfl
  | cons entry rest ih =>
      obtain ⟨compiled, hcompiled⟩ := h entry List.mem_cons_self
      have hrest := ih fun later hlater => h later (List.mem_cons_of_mem _ hlater)
      rw [List.map_cons, decodedClasses_of_ok hcompiled, List.length_cons, List.length_cons, hrest]

/-- An analysis of entries that are recorded finds their state and its summary. -/
theorem Analysis.run_of_recordAll {state : ScanState} {reader : ArchiveReader} {path : String}
    {input : Except IoFault Tree} (h : ScanState.initial.recordAll entries = .ok state)
    (hlisting : Listing.ofInput reader path input = entries.map .ok) :
    (run reader path input).result =
      .ok ⟨state, Summary.ofTable path state.classes state.totals⟩ := by
  rw [run, hlisting, ScanState.scan_of_recordAll h]

end Entries

/-- The parts of a report agree with each other and with the entries it is about. -/
structure Consistent (entries : List ClassEntry) (state : ScanState) (summary : Summary) :
    Prop where
  declared : state.classes.declaredCount ≤ state.totals.methods.toNat
  interface : state.classes.overrides.interface.toNat ≤ state.totals.methods.toNat
  superclass : state.classes.overrides.superclass.toNat ≤
    state.totals.methods.toNat * (state.classes.size - 1)
  size : state.classes.size - 1 ≤ state.totals.classes.toNat
  noMethods : Report.IsNull summary.averageOverrides → summary.overrides = 0
  noEntries : Report.IsNull summary.fieldsAverage ↔ entries = []
  nothing : Report.IsNull summary.fieldsAverage →
    summary.assignments = 0 ∧ summary.branches = 0 ∧ summary.conditions = 0 ∧
      summary.methods = 0 ∧ summary.overrides = 0 ∧ summary.maxDepth = -1
  noDepths : Report.IsNull summary.averageDepth ↔ summary.maxDepth = -1

/-- The entries are recorded, and what an analysis of them finds is consistent. -/
theorem report_consistent {entries : List ClassEntry}
    (hdecodes : ∀ entry ∈ entries, ∃ compiled, ClassFile.decode entry.data = .ok compiled)
    (hsize : (entries.map (·.data.length)).sum < 2 ^ 32) :
    ∃ state, ScanState.initial.recordAll entries = .ok state ∧ ∀ path,
      Consistent entries state (Summary.ofTable path state.classes state.totals) ∧
        ∀ reader input, Listing.ofInput reader path input = entries.map .ok →
          (Analysis.run reader path input).result =
            .ok ⟨state, Summary.ofTable path state.classes state.totals⟩ := by
  have hrecord := recordAll_eq hdecodes
  refine ⟨_, hrecord, fun path => ⟨?_, fun _ _ => Analysis.run_of_recordAll hrecord⟩⟩
  have hbytes : ((entries.map (·.data)).map List.length).sum < 2 ^ 64 := by
    rw [sum_lengths]
    exact hsize.trans (by decide)
  have hbooks := books_foldl_add ((sum_classCost_le _).trans_lt hbytes)
  have hdeclared := declaredCount_le (entries.map (·.data))
  rw [← hbooks.totals.methods] at hdeclared
  generalize hstate :
    (decodedClasses (entries.map (·.data))).foldl ScanState.add .initial = state at *
  have hnoMethods : state.totals.methods = 0 → state.classes.overrides.total = 0 := by
    intro hzero
    rw [hzero] at hdeclared
    exact ClassTable.total_overrides_eq_zero (Nat.le_zero.1 hdeclared)
  have hnoEntries : state.totals.classes = 0 ↔ entries = [] := by
    rw [← UInt64.toNat_inj, hbooks.totals.classes, length_decodedClasses hdecodes]
    exact List.length_eq_zero_iff
  have hdepths : (ClassGraph.ofTable state.classes).depths.size < 2 ^ 64 := by
    have hdepths := state.classes.depths_size_le
    have hcost := sum_classCost_le (entries.map (·.data))
    rw [sum_classCost, sum_lengths] at hcost
    have hbound := hbooks.size
    have hcount := hbooks.entries
    omega
  have hsizes := hbooks.size
  have hentries := hbooks.entries
  have hclasses := hbooks.totals.classes
  constructor
  case declared => exact hdeclared
  case interface => exact state.classes.interface_le.trans hdeclared
  case superclass => exact state.classes.superclass_le.trans (Nat.mul_le_mul_right _ hdeclared)
  case size => omega
  case noMethods => exact fun h => hnoMethods (isNull_ratio_iff.1 h)
  case noEntries => exact isNull_ratio_iff.trans hnoEntries
  case nothing =>
    intro h
    obtain rfl := hnoEntries.1 (isNull_ratio_iff.1 h)
    subst hstate
    exact ⟨rfl, rfl, rfl, rfl, hnoMethods rfl, Depths.maximum_eq_neg_one_iff.2 depths_initial⟩
  case noDepths =>
    exact (Depths.isNull_average_iff hdepths).trans Depths.maximum_eq_neg_one_iff.symm

/-- A class with a method, and a class of the same name without one that replaces it. -/
def replacedMethod : List ClassEntry :=
  [⟨"A.class", ClassFile.twoCodesFile [0xb1] [0xb1]⟩, bareEntry 65 oneField]

theorem replacedMethod_decodes :
    ∀ entry ∈ replacedMethod, ∃ compiled, ClassFile.decode entry.data = .ok compiled := by
  have hmethod : ClassFile.decode (ClassFile.twoCodesFile [0xb1] [0xb1]) =
      .ok ⟨⟨"A", none, .empty, [⟨"f", "()"⟩]⟩, 0, [⟨"f", "()V", 0, [⟨0, 0xb1, .other⟩]⟩]⟩ := by cbv
  have hbare : ClassFile.decode (bareEntry 65 oneField).data =
      .ok ⟨⟨"A", none, .empty, []⟩, 1, []⟩ := by cbv
  intro entry hentry
  rcases List.mem_pair.1 hentry with rfl | rfl
  · exact ⟨_, hmethod⟩
  · exact ⟨_, hbare⟩

/-- The method is counted, although the class that declares it is no longer in the table. -/
theorem replacedMethod_consistent :
    (∀ entry ∈ replacedMethod, ∃ compiled, ClassFile.decode entry.data = .ok compiled) ∧
      (replacedMethod.map (·.data.length)).sum < 2 ^ 32 ∧
      ∃ state, ScanState.initial.recordAll replacedMethod = .ok state ∧ ∀ path,
        Consistent replacedMethod state (Summary.ofTable path state.classes state.totals) ∧
          ∀ reader input, Listing.ofInput reader path input = replacedMethod.map .ok →
            (Analysis.run reader path input).result =
              .ok ⟨state, Summary.ofTable path state.classes state.totals⟩ := by
  have hsize : (replacedMethod.map (·.data.length)).sum < 2 ^ 32 := by decide
  exact ⟨replacedMethod_decodes, hsize, report_consistent replacedMethod_decodes hsize⟩

end ClassMetrics
