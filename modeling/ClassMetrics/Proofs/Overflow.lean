import Mathlib
import ClassMetrics.Proofs.Consistency
import ClassMetrics.Proofs.DepthPaths

/-!
The additions of a run against the widths of their results. All that is added up is bounded by the
size of the files: the counters by the bytes that the readers take, the depths and the tallies by
the number of classes and of methods. Main statement: if the files have less than 2^32 bytes, none
of the additions overflows.
-/

namespace ClassMetrics

section Counting

/-- What the code of classes adds to one of its counters, in the order of the additions: of each
method the handlers and then what the instructions contribute. -/
def codeAmounts (part : Abc → Nat) (classes : List CompiledClass) : List Nat :=
  classes.flatMap fun compiled => compiled.methods.flatMap fun method =>
    part ⟨0, 0, method.handlers⟩ :: method.instructions.map fun instruction =>
      part instruction.kind.abc

theorem sum_codeAmounts (part : Abc → Nat) (hzero : part .zero = 0)
    (hadd : ∀ first second, part (first + second) = part first + part second)
    (classes : List CompiledClass) :
    (codeAmounts part classes).sum = (classes.map fun compiled => part compiled.abc).sum := by
  have hmethod : ∀ method : MethodBody,
      (part ⟨0, 0, method.handlers⟩ :: method.instructions.map fun instruction =>
        part instruction.kind.abc).sum = part method.abc := by
    intro method
    rw [MethodBody.abc, codeAbc, hadd, Abc.part_sum part hzero hadd, List.map_map, List.sum_cons]
    rfl
  have hclass : ∀ compiled : CompiledClass,
      (compiled.methods.map fun method => part method.abc).sum = part compiled.abc := by
    intro compiled
    rw [CompiledClass.abc, Abc.part_sum part hzero hadd, List.map_map]
    rfl
  rw [codeAmounts, List.flatMap, List.sum_flatten, List.map_map]
  congr 1
  apply List.map_congr_left
  intro compiled _
  rw [Function.comp_apply, List.flatMap, List.sum_flatten, List.map_map, ← hclass]
  congr 1
  exact List.map_congr_left fun method _ => hmethod method

/-- Each of the counters takes what is added to it. -/
structure CountersFit (made : List CompiledClass) (totals : Totals) : Prop where
  classes : Counter.addAll? 0 (made.map fun _ => 1) = some totals.classes
  fields : Counter.addAll? 0 (made.map (·.fieldCount)) = some totals.fields
  methods : Counter.addAll? 0 (made.map (·.methods.length)) = some totals.methods
  assignments : Counter.addAll? 0 (codeAmounts Abc.assignments made) = some totals.assignments
  branches : Counter.addAll? 0 (codeAmounts Abc.branches made) = some totals.branches
  conditions : Counter.addAll? 0 (codeAmounts Abc.conditions made) = some totals.conditions

theorem countersFit {classes : List CompiledClass}
    (h : (classes.map ClassFile.classCost).sum < 2 ^ 64) :
    CountersFit classes (classes.foldl Totals.record .zero) := by
  have hfits : ∀ amounts : List Nat, amounts.sum ≤ (classes.map ClassFile.classCost).sum →
      Counter.addAll? 0 amounts = some (UInt64.ofNat amounts.sum) :=
    fun amounts hle => Counter.addAll?_zero (hle.trans_lt h)
  have hones : (classes.map fun _ => 1).sum = classes.length := by simp
  have hassignments := sum_codeAmounts Abc.assignments rfl (fun _ _ => rfl) classes
  have hbranches := sum_codeAmounts Abc.branches rfl (fun _ _ => rfl) classes
  have hconditions := sum_codeAmounts Abc.conditions rfl (fun _ _ => rfl) classes
  rw [sum_classCost] at hfits
  rw [Totals.foldl_record_zero, ← hones, ← hassignments, ← hbranches, ← hconditions]
  constructor
  all_goals
    apply hfits
    omega

end Counting

section Tallies

/-- The tallies take what is added to them, and so does their sum. -/
structure TalliesFit (table : ClassTable) : Prop where
  perClass : ∀ header ∈ table.nonRoot,
    Counter.addAll? 0 (header.declared.map fun signature =>
        (table.superclassChain header).countP (·.declares signature)) =
      some (UInt64.ofNat (table.superclassMatches header))
  superclass : Counter.addAll? 0 (table.nonRoot.map table.superclassMatches) =
    some table.overrides.superclass
  interface : Counter.addAll? 0 (table.nonRoot.map table.interfaceMatches) =
    some table.overrides.interface
  total : table.overrides.superclass.toNat + table.overrides.interface.toNat < 2 ^ 64

/-- The tallies fit if there are few enough pairs of a declared method and a class. -/
theorem talliesFit {table : ClassTable} (h : table.declaredCount * table.size < 2 ^ 64) :
    TalliesFit table := by
  have hsize : table.size = table.size - 1 + 1 := by
    have hpositive := table.size_pos
    omega
  rw [hsize, Nat.mul_succ] at h
  have hsuperclass := table.superclassOverrides_le
  have hinterface := table.interfaceOverrides_le
  rw [ClassTable.superclassOverrides_eq] at hsuperclass
  rw [ClassTable.interfaceOverrides_eq] at hinterface
  constructor
  case perClass =>
    intro header hheader
    have hle : table.superclassMatches header ≤ (table.nonRoot.map table.superclassMatches).sum :=
      List.le_sum_of_mem (List.mem_map_of_mem hheader)
    rw [ClassTable.superclassMatches, ← List.sum_eq_foldr] at hle ⊢
    apply Counter.addAll?_zero
    omega
  case superclass =>
    rw [ClassTable.overrides, ← List.sum_eq_foldr]
    apply Counter.addAll?_zero
    omega
  case interface =>
    rw [ClassTable.overrides, ← List.sum_eq_foldr]
    apply Counter.addAll?_zero
    omega
  case total =>
    have hfirst := table.superclass_le
    have hsecond := table.interface_le
    omega

end Tallies

section Depths

theorem Depths.total_le_mul_size {depths : Depths} {greatest : Nat}
    (h : ∀ depth ∈ depths.toList.map Prod.snd, depth ≤ greatest) :
    depths.total ≤ greatest * depths.size := by
  have hsum := List.sum_le_card_nsmul _ greatest h
  rw [List.length_map, smul_eq_mul, Nat.mul_comm] at hsum
  rw [total, ← List.sum_eq_foldr]
  exact hsum

namespace ClassTable

variable {table : ClassTable}

theorem depth_le_size {name : String} {depth : Nat}
    (h : (name, depth) ∈ (ClassGraph.ofTable table).depths.toList) : depth ≤ table.size := by
  obtain ⟨path, hpath, rfl⟩ := exists_leastPath_of_recorded h
  exact length_le_size hpath.1

/-- A class is reached by one step from a class on a simple path. -/
theorem pending_le_size (table : ClassTable) (count : Nat) :
    let graph := ClassGraph.ofTable table
    ∀ reached ∈ ((ClassGraph.Walk.turn graph)^[count] (.start graph)).pending,
      reached.2 ≤ table.size + 1 := by
  intro graph reached hreached
  obtain ⟨visited, pending, hkeeps, hexplored⟩ :=
    ClassGraph.keeps_turns (ClassGraph.children_ascending table) count
  rw [hkeeps.pending] at hreached
  obtain ⟨trail, htrail, rfl⟩ := List.mem_map.1 hreached
  obtain ⟨parent, hparent, -, hextends⟩ := hexplored.grown trail htrail
  have hpath := hexplored.reached parent hparent
  rw [ClassGraph.leads_ofTable] at hpath
  rw [hextends, ClassGraph.Trail.stamp_extend]
  exact Nat.succ_le_succ (length_le_size hpath)

theorem depths_total_le (table : ClassTable) :
    (ClassGraph.ofTable table).depths.total ≤ table.size * table.size := by
  have hdepths : ∀ depth ∈ (ClassGraph.ofTable table).depths.toList.map Prod.snd,
      depth ≤ table.size := by
    intro depth hdepth
    obtain ⟨record, hrecord, rfl⟩ := List.mem_map.1 hdepth
    exact depth_le_size hrecord
  apply (Depths.total_le_mul_size hdepths).trans
  exact Nat.mul_le_mul_left _ table.depths_size_le

end ClassTable

/-- The depths that the walk comes upon are numbers of 32 bits, and their sum takes all of those that
are recorded. -/
structure DepthsFit (table : ClassTable) : Prop where
  reached : ∀ count,
    ∀ reached ∈ ((ClassGraph.Walk.turn (.ofTable table))^[count] (.start (.ofTable table))).pending,
      reached.2 < 2 ^ 32
  total : Counter.addAll? 0 ((ClassGraph.ofTable table).depths.toList.map Prod.snd) =
    some (UInt64.ofNat (ClassGraph.ofTable table).depths.total)

theorem depthsFit {table : ClassTable} (h : table.size + 1 < 2 ^ 32) : DepthsFit table where
  reached := by
    intro count reached hreached
    exact (table.pending_le_size count reached hreached).trans_lt h
  total := by
    have hsquare : table.size * table.size < 2 ^ 32 * 2 ^ 32 :=
      Nat.mul_lt_mul'' (by omega) (by omega)
    have htotal := table.depths_total_le.trans_lt hsquare
    rw [Depths.total, ← List.sum_eq_foldr] at htotal ⊢
    exact Counter.addAll?_zero htotal

end Depths

section Runs

/-- Every counter and every recorded depth is at most the given size. -/
structure Within (size : Nat) (state : ScanState) : Prop where
  classes : state.totals.classes.toNat ≤ size
  fields : state.totals.fields.toNat ≤ size
  methods : state.totals.methods.toNat ≤ size
  assignments : state.totals.assignments.toNat ≤ size
  branches : state.totals.branches.toNat ≤ size
  conditions : state.totals.conditions.toNat ≤ size
  depths : ∀ record ∈ (ClassGraph.ofTable state.classes).depths.toList, record.2 ≤ size

/-- No addition of a run overflows that takes these classes in. -/
structure RunFits (made : List CompiledClass) (state : ScanState) : Prop where
  counters : CountersFit made state.totals
  tallies : TalliesFit state.classes
  depths : DepthsFit state.classes

variable (classes : List CompiledClass)

theorem size_foldl_add_le : (classes.foldl ScanState.add .initial).classes.size ≤
    1 + classes.length := by
  have hsize : (classes.foldl ScanState.add .initial).classes.size +
      (classes.foldl ScanState.add .initial).replaced = 1 + classes.length :=
    ScanState.size_foldl_add .initial classes
  omega

/-- A depth is recorded only if a class was taken in, and that was paid for with more bytes than the
table has grown by. -/
theorem depth_le_cost {record : String × Nat}
    (h : record ∈ (ClassGraph.ofTable (classes.foldl ScanState.add .initial).classes).depths.toList) :
    record.2 ≤ (classes.map ClassFile.classCost).sum := by
  have hdepth : record.2 ≤ (classes.foldl ScanState.add .initial).classes.size :=
    ClassTable.depth_le_size h
  have hsize := size_foldl_add_le classes
  have hsome : classes ≠ [] := by
    rintro rfl
    exact absurd depths_initial (List.length_pos_of_mem h).ne'
  have hlength := List.length_pos_iff.2 hsome
  rw [sum_classCost]
  omega

theorem within_cost :
    Within (classes.map ClassFile.classCost).sum (classes.foldl ScanState.add .initial) := by
  have hheld : ∀ amount ≤ (classes.map ClassFile.classCost).sum,
      (UInt64.ofNat amount).toNat ≤ (classes.map ClassFile.classCost).sum :=
    fun amount hle => (Counter.toNat_ofNat_le amount).trans hle
  have htotals : (classes.foldl ScanState.add .initial).totals = _ :=
    (ScanState.totals_foldl_add .initial classes).trans (Totals.foldl_record_zero classes)
  have hcost := sum_classCost classes
  constructor
  case depths => exact fun record => depth_le_cost classes
  all_goals
    rw [htotals]
    apply hheld
    omega

theorem runFits {files : List Bytes} (h : (files.map List.length).sum < 2 ^ 32) :
    RunFits (decodedClasses files)
      ((decodedClasses files).foldl ScanState.add .initial) := by
  have hcost := (sum_classCost_le files).trans_lt h
  have hsize := size_foldl_add_le (decodedClasses files)
  have hdeclared := declaredCount_le files
  have hparts := sum_classCost (decodedClasses files)
  constructor
  case counters =>
    rw [ScanState.totals_foldl_add]
    exact countersFit (hcost.trans (by decide))
  case tallies =>
    -- the declared methods and the classes of the table were all counted, and paid for in bytes
    apply talliesFit
    have hpairs : ((decodedClasses files).foldl ScanState.add .initial).classes.declaredCount *
        ((decodedClasses files).foldl ScanState.add .initial).classes.size < 2 ^ 32 * 2 ^ 32 :=
      Nat.mul_lt_mul'' (by omega) (by omega)
    exact hpairs
  case depths =>
    apply depthsFit
    omega

theorem Within.mono {size larger : Nat} {state : ScanState} (h : Within size state)
    (hle : size ≤ larger) : Within larger state where
  classes := h.classes.trans hle
  fields := h.fields.trans hle
  methods := h.methods.trans hle
  assignments := h.assignments.trans hle
  branches := h.branches.trans hle
  conditions := h.conditions.trans hle
  depths := fun record hrecord => (h.depths record hrecord).trans hle

end Runs

/-- What either reader accepts has at least 24 bytes, and one more for each field, method,
assignment, branch and condition. Hence what a run counts is bounded by the size of its files. If
that is less than 2^64, no counter overflows, and if it is less than 2^32, no addition does. -/
theorem file_size_bounds_run :
    (∀ data compiled,
        ClassFile.decode data = .ok compiled ∨ ClassFile.Framed.decode data = .ok compiled →
          24 + compiled.fieldCount + compiled.methods.length +
            (compiled.abc.assignments + compiled.abc.branches + compiled.abc.conditions) ≤
              data.length) ∧
      ∀ entries : List ClassEntry,
        (∀ entry ∈ entries, ∃ compiled, ClassFile.decode entry.data = .ok compiled) →
          ∃ state, ScanState.initial.recordAll entries = .ok state ∧
            Within (entries.map (·.data.length)).sum state ∧
            ((entries.map (·.data.length)).sum < 2 ^ 64 →
              CountersFit (decodedClasses (entries.map (·.data))) state.totals) ∧
            ((entries.map (·.data.length)).sum < 2 ^ 32 →
              RunFits (decodedClasses (entries.map (·.data))) state) := by
  constructor
  · rintro data compiled (hdecode | hframed)
    · exact ClassFile.classCost_le hdecode
    · exact ClassFile.classCost_le_of_framed hframed
  · intro entries hdecodes
    rw [← sum_lengths]
    have hcost := sum_classCost_le (entries.map (·.data))
    refine ⟨_, recordAll_eq hdecodes, (within_cost _).mono hcost, ?_, runFits⟩
    intro hsize
    rw [ScanState.totals_foldl_add]
    exact countersFit (hcost.trans_lt hsize)

/-- The class without a method keeps to the bound, and the two classes to those of a run. -/
theorem replacedMethod_fits :
    ClassFile.Framed.decode (bareEntry 65 oneField).data =
        .ok ⟨⟨"A", none, .empty, []⟩, 1, []⟩ ∧
      24 + 1 + 0 + (0 + 0 + 0) ≤ (bareEntry 65 oneField).data.length ∧
      (replacedMethod.map (·.data.length)).sum < 2 ^ 32 ∧
      ∃ state, ScanState.initial.recordAll replacedMethod = .ok state ∧
        Within (replacedMethod.map (·.data.length)).sum state ∧
        CountersFit (decodedClasses (replacedMethod.map (·.data))) state.totals ∧
        RunFits (decodedClasses (replacedMethod.map (·.data))) state := by
  have hframed : ClassFile.Framed.decode (bareEntry 65 oneField).data =
      .ok ⟨⟨"A", none, .empty, []⟩, 1, []⟩ := by cbv
  have hsize : (replacedMethod.map (·.data.length)).sum < 2 ^ 32 := by decide
  obtain ⟨state, hrecord, hwithin, hcounters, hfits⟩ :=
    file_size_bounds_run.2 replacedMethod replacedMethod_decodes
  exact ⟨hframed, file_size_bounds_run.1 _ _ (Or.inr hframed), hsize, state, hrecord, hwithin,
    hcounters (hsize.trans (by decide)), hfits hsize⟩

end ClassMetrics
