import Mathlib
import ClassMetrics.Metrics.Totals

/-!
Counters of 64 bits and what is added to them. As long as the amounts taken together can be held, no
single addition overflows, and a counter holds their sum. The counters of a run hold the sums of
what the classes contribute, up to multiples of 2^64.
-/

namespace ClassMetrics

namespace Counter

theorem toNat_ofNat_le (number : Nat) : (UInt64.ofNat number).toNat ≤ number := by
  rw [UInt64.toNat_ofNat']
  exact Nat.mod_le _ _

theorem toNat_add {counter : UInt64} {amount : Nat} (h : counter.toNat + amount < 2 ^ 64) :
    (counter + UInt64.ofNat amount).toNat = counter.toNat + amount := by
  have hamount : amount < 2 ^ 64 := by omega
  rw [UInt64.toNat_add, UInt64.toNat_ofNat_of_lt' hamount]
  exact Nat.mod_eq_of_lt h

/-- Adds amounts to a counter one after another, as long as it can hold what they come to. -/
def addAll? (counter : UInt64) : List Nat → Option UInt64
  | [] => some counter
  | amount :: rest =>
      if counter.toNat + amount < 2 ^ 64 then addAll? (counter + UInt64.ofNat amount) rest
      else none

/-- No addition overflows if the last one does not. -/
theorem addAll?_eq_some {counter : UInt64} {amounts : List Nat}
    (h : counter.toNat + amounts.sum < 2 ^ 64) :
    addAll? counter amounts = some (counter + UInt64.ofNat amounts.sum) := by
  induction amounts generalizing counter with
  | nil => simp [addAll?]
  | cons amount rest ih =>
      rw [List.sum_cons, ← Nat.add_assoc] at h
      have hfirst : counter.toNat + amount < 2 ^ 64 := by omega
      have hrest : (counter + UInt64.ofNat amount).toNat + rest.sum < 2 ^ 64 := by
        rwa [toNat_add hfirst]
      rw [addAll?, if_pos hfirst, ih hrest, List.sum_cons, UInt64.ofNat_add, UInt64.add_assoc]

/-- A counter that starts at zero holds the sum of what is added to it. -/
theorem addAll?_zero {amounts : List Nat} (h : amounts.sum < 2 ^ 64) :
    addAll? 0 amounts = some (UInt64.ofNat amounts.sum) := by
  have hzero : (0 : UInt64).toNat + amounts.sum < 2 ^ 64 := by simpa using h
  rw [addAll?_eq_some hzero, UInt64.zero_add]

end Counter

namespace Abc

@[simp]
theorem add_eq (first second : Abc) :
    first + second =
      ⟨first.assignments + second.assignments, first.branches + second.branches,
        first.conditions + second.conditions⟩ :=
  rfl

theorem sum_cons (first : Abc) (others : List Abc) : sum (first :: others) = first + sum others :=
  rfl

/-- A measure that adds up over two parts adds up over all. -/
theorem part_sum (part : Abc → Nat) (hzero : part zero = 0)
    (hadd : ∀ first second, part (first + second) = part first + part second) (parts : List Abc) :
    part (sum parts) = (parts.map part).sum := by
  induction parts with
  | nil => exact hzero
  | cons first others ih => rw [sum_cons, hadd, ih, List.map_cons, List.sum_cons]

theorem sum_eq (parts : List Abc) :
    sum parts =
      ⟨(parts.map assignments).sum, (parts.map branches).sum, (parts.map conditions).sum⟩ := by
  rw [← part_sum assignments rfl fun _ _ => rfl, ← part_sum branches rfl fun _ _ => rfl,
    ← part_sum conditions rfl fun _ _ => rfl]

/-- Assignments, branches and conditions taken together. -/
def total (abc : Abc) : Nat :=
  abc.assignments + abc.branches + abc.conditions

theorem total_add (first second : Abc) : (first + second).total = first.total + second.total := by
  simp only [add_eq, total]
  omega

theorem total_sum (parts : List Abc) : (sum parts).total = (parts.map total).sum :=
  part_sum total rfl total_add parts

end Abc

/-- Counting classes one after another adds up what each of them contributes. -/
theorem Totals.foldl_record (totals : Totals) (classes : List CompiledClass) :
    classes.foldl record totals =
      ⟨totals.assignments + UInt64.ofNat (classes.map (·.abc.assignments)).sum,
        totals.branches + UInt64.ofNat (classes.map (·.abc.branches)).sum,
        totals.conditions + UInt64.ofNat (classes.map (·.abc.conditions)).sum,
        totals.fields + UInt64.ofNat (classes.map (·.fieldCount)).sum,
        totals.classes + UInt64.ofNat classes.length,
        totals.methods + UInt64.ofNat (classes.map (·.methods.length)).sum⟩ := by
  induction classes generalizing totals with
  | nil => simp
  | cons first others ih =>
      rw [List.foldl_cons, ih]
      simp only [record, addAbc, List.map_cons, List.sum_cons, List.length_cons, UInt64.ofNat_add,
        UInt64.add_assoc, Totals.mk.injEq, true_and, and_true]
      rw [UInt64.add_comm (UInt64.ofNat others.length)]
      rfl

/-- The counters of a run hold what its classes contribute. -/
theorem Totals.foldl_record_zero (classes : List CompiledClass) :
    classes.foldl record zero =
      ⟨UInt64.ofNat (classes.map (·.abc.assignments)).sum,
        UInt64.ofNat (classes.map (·.abc.branches)).sum,
        UInt64.ofNat (classes.map (·.abc.conditions)).sum,
        UInt64.ofNat (classes.map (·.fieldCount)).sum, UInt64.ofNat classes.length,
        UInt64.ofNat (classes.map (·.methods.length)).sum⟩ := by
  rw [foldl_record]
  simp [zero]

end ClassMetrics
