import ClassMetrics.ClassHeader

/-!
Complexity by assignments, branches and conditions. A method contributes natural numbers; what a
run adds up is kept in counters of 64 bits.
-/

namespace ClassMetrics

/-- How many assignments, branches and conditions there are. -/
structure Abc where
  assignments : Nat
  branches : Nat
  conditions : Nat
  deriving DecidableEq, Repr

namespace Abc

def zero : Abc := ⟨0, 0, 0⟩

def add (first second : Abc) : Abc :=
  ⟨first.assignments + second.assignments, first.branches + second.branches,
    first.conditions + second.conditions⟩

instance : Add Abc := ⟨add⟩

def sum (parts : List Abc) : Abc :=
  parts.foldr (· + ·) zero

end Abc

/-- What an instruction contributes. A jump without a condition counts as a condition too, and of
the two switches only the one with listed keys counts, once per key. -/
def InstructionKind.abc : InstructionKind → Abc
  | .store _ => ⟨1, 0, 0⟩
  | .invoke _ | .allocate _ => ⟨0, 1, 0⟩
  | .jump => ⟨0, 0, 1⟩
  | .lookupSwitch keys => ⟨0, 0, keys.length⟩
  | .tableSwitch _ _ | .other => .zero

/-- What a code array with this many exception handlers contributes. -/
def codeAbc (handlers : Nat) (instructions : List Instruction) : Abc :=
  ⟨0, 0, handlers⟩ + Abc.sum (instructions.map (·.kind.abc))

def MethodBody.abc (method : MethodBody) : Abc :=
  codeAbc method.handlers method.instructions

def CompiledClass.abc (compiled : CompiledClass) : Abc :=
  Abc.sum (compiled.methods.map (·.abc))

/-- The counters of a run. -/
structure Totals where
  assignments : UInt64
  branches : UInt64
  conditions : UInt64
  fields : UInt64
  classes : UInt64
  methods : UInt64
  deriving DecidableEq, Repr

namespace Totals

def zero : Totals := ⟨0, 0, 0, 0, 0, 0⟩

def addAbc (totals : Totals) (abc : Abc) : Totals :=
  { totals with
    assignments := totals.assignments + UInt64.ofNat abc.assignments
    branches := totals.branches + UInt64.ofNat abc.branches
    conditions := totals.conditions + UInt64.ofNat abc.conditions }

/-- Counts a class with its fields, its methods, constructors included, and their code. -/
def record (totals : Totals) (compiled : CompiledClass) : Totals :=
  { totals.addAbc compiled.abc with
    fields := totals.fields + UInt64.ofNat compiled.fieldCount
    classes := totals.classes + 1
    methods := totals.methods + UInt64.ofNat compiled.methods.length }

end Totals

end ClassMetrics
