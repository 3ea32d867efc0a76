import Mathlib
import ClassMetrics.Hierarchy.Overrides
import ClassMetrics.Proofs.Ancestors

/-!
What the override tallies count. A declared method counts once for every superclass that declares
its signature, and once if any interface does. Main statement: the tallies are these counts, summed
up over all classes but the root, if the sums fit into the counters.
-/

namespace ClassMetrics.ClassTable

/-- The superclasses of a class, itself left out, that declare a signature. -/
def overridden (table : ClassTable) (header : ClassHeader) (signature : Signature) :
    Set ClassHeader :=
  {ancestor | ancestor ∈ table.toList ∧ ancestor ≠ header ∧
    Relation.TransGen table.SuperStep header ancestor ∧ signature ∈ ancestor.declared}

/-- Some interface of a class declares a signature. -/
def Implements (table : ClassTable) (header : ClassHeader) (signature : Signature) : Prop :=
  ∃ interface ∈ table.toList,
    Relation.TransGen table.InterfaceStep header interface ∧ signature ∈ interface.declared

/-- The number of pairs of a declared method and a superclass that declares it. -/
noncomputable def superclassOverrides (table : ClassTable) : Nat :=
  (table.nonRoot.map fun header =>
    (header.declared.map fun signature => (table.overridden header signature).ncard).sum).sum

open Classical in
/-- The number of declared methods that some interface declares. -/
noncomputable def interfaceOverrides (table : ClassTable) : Nat :=
  (table.nonRoot.map fun header =>
    header.declared.countP fun signature => decide (table.Implements header signature)).sum

variable {table : ClassTable} {header : ClassHeader}

theorem mem_toList_of_mem_nonRoot (h : header ∈ table.nonRoot) : header ∈ table.toList :=
  (List.mem_filter.1 h).1

theorem ncard_overridden (hheader : header ∈ table.toList) (signature : Signature) :
    (table.overridden header signature).ncard =
      (table.superclassChain header).countP (·.declares signature) := by
  have hset : table.overridden header signature =
      ((table.superclassChain header).filter (·.declares signature)).toFinset := by
    ext ancestor
    rw [List.coe_toFinset, Set.mem_ofPred_eq, List.mem_filter, mem_superclassChain hheader,
      ClassHeader.declares, List.contains_iff_mem]
    constructor
    · rintro ⟨-, hother, hsteps, hdeclared⟩
      exact ⟨⟨hother, hsteps⟩, hdeclared⟩
    · rintro ⟨⟨hother, hsteps⟩, hdeclared⟩
      have hmem := mem_toList_of_transGen (fun _ _ => mem_toList_of_superStep) hsteps
      exact ⟨hmem, hother, hsteps, hdeclared⟩
  rw [hset, Set.ncard_coe_finset, List.countP_eq_length_filter]
  exact List.toFinset_card_of_nodup ((table.superclassChain_nodup header).filter _)

theorem superclassOverrides_eq (table : ClassTable) :
    table.superclassOverrides = (table.nonRoot.map table.superclassMatches).sum := by
  rw [superclassOverrides]
  congr 1
  apply List.map_congr_left
  intro header hheader
  have hmem := mem_toList_of_mem_nonRoot hheader
  rw [superclassMatches, ← List.sum_eq_foldr]
  congr 1
  apply List.map_congr_left
  intro signature _
  exact ncard_overridden hmem signature

theorem implements_iff (table : ClassTable) (header : ClassHeader) (signature : Signature) :
    table.Implements header signature ↔ signature ∈ table.interfaceSignatures header := by
  rw [mem_interfaceSignatures]
  constructor
  · rintro ⟨interface, -, hsteps, hdeclared⟩
    exact ⟨interface, hsteps, hdeclared⟩
  · rintro ⟨interface, hsteps, hdeclared⟩
    have hmem := mem_toList_of_transGen (fun _ _ => mem_toList_of_interfaceStep) hsteps
    exact ⟨interface, hmem, hsteps, hdeclared⟩

theorem interfaceOverrides_eq (table : ClassTable) :
    table.interfaceOverrides = (table.nonRoot.map table.interfaceMatches).sum := by
  rw [interfaceOverrides]
  congr 1
  apply List.map_congr_left
  intro header _
  rw [interfaceMatches]
  apply List.countP_congr
  intro signature _
  simp [implements_iff]

section Bounds

/-- The methods that the classes other than the root declare. -/
def declaredCount (table : ClassTable) : Nat :=
  (table.nonRoot.map (·.declared.length)).sum

/-- A method overrides at most one method of each other class. -/
theorem superclassOverrides_le (table : ClassTable) :
    table.superclassOverrides ≤ table.declaredCount * (table.size - 1) := by
  rw [superclassOverrides_eq, declaredCount, ← List.sum_map_mul_right]
  apply List.sum_le_sum
  intro header hheader
  have hlength := superclassChain_length_lt (mem_toList_of_mem_nonRoot hheader)
  rw [superclassMatches, ← List.sum_eq_foldr, ← smul_eq_mul]
  refine (List.sum_le_card_nsmul _ (table.size - 1) ?_).trans_eq (by rw [List.length_map])
  intro count hcount
  obtain ⟨signature, -, rfl⟩ := List.mem_map.1 hcount
  have hle : (table.superclassChain header).countP (·.declares signature) ≤
      (table.superclassChain header).length := List.countP_le_length
  omega

theorem interfaceOverrides_le (table : ClassTable) :
    table.interfaceOverrides ≤ table.declaredCount := by
  apply List.sum_le_sum
  intro header _
  exact List.countP_le_length

end Bounds

/-- The tallies are the numbers of overriding methods, if these can be held. -/
theorem overrides_eq_counts (table : ClassTable) (hsuper : table.superclassOverrides < 2 ^ 64)
    (hinterface : table.interfaceOverrides < 2 ^ 64) :
    table.overrides.superclass.toNat = table.superclassOverrides ∧
      table.overrides.interface.toNat = table.interfaceOverrides := by
  rw [superclassOverrides_eq] at hsuper ⊢
  rw [interfaceOverrides_eq] at hinterface ⊢
  constructor
  · exact Nat.mod_eq_of_lt hsuper
  · exact Nat.mod_eq_of_lt hinterface

/-- Two classes that are each other's superclass, two interfaces that name each other, and methods
that are declared more than once. -/
def cyclicTable : ClassTable :=
  initial
    |>.insert ⟨"A", some "B", .ofList ["I", "absent"],
      [⟨"m", "()"⟩, ⟨"m", "()"⟩, ⟨"i", "()"⟩]⟩
    |>.insert ⟨"B", some "A", .empty, [⟨"m", "()"⟩, ⟨"m", "()"⟩]⟩
    |>.insert ⟨"I", some rootName, .ofList ["J"], [⟨"i", "()"⟩, ⟨"toString", "()"⟩]⟩
    |>.insert ⟨"J", some rootName, .ofList ["I"], [⟨"j", "()"⟩]⟩

theorem overrides_cyclicTable :
    cyclicTable.superclassOverrides < 2 ^ 64 ∧ cyclicTable.interfaceOverrides < 2 ^ 64 ∧
      cyclicTable.overrides.superclass.toNat = cyclicTable.superclassOverrides ∧
      cyclicTable.overrides.interface.toNat = cyclicTable.interfaceOverrides := by
  have hdeclared : cyclicTable.declaredCount = 8 := by cbv
  have hsize : cyclicTable.size = 5 := by cbv
  have hsuper := cyclicTable.superclassOverrides_le
  have hinterface := cyclicTable.interfaceOverrides_le
  rw [hdeclared] at hsuper hinterface
  rw [hsize] at hsuper
  have hfirst : cyclicTable.superclassOverrides < 2 ^ 64 := by omega
  have hsecond : cyclicTable.interfaceOverrides < 2 ^ 64 := by omega
  exact ⟨hfirst, hsecond, overrides_eq_counts cyclicTable hfirst hsecond⟩

end ClassMetrics.ClassTable
