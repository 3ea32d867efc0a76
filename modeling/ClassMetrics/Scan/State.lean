import ClassMetrics.ClassFile.Decode
import ClassMetrics.Hierarchy.ClassTable
import ClassMetrics.Metrics.Totals

/-!
What a scan has gathered. Recording an entry decodes it; a class that has the name of an earlier one
takes its place in the table, but both have been counted.
-/

namespace ClassMetrics

/-- The classes and counters of a scan. -/
structure ScanState where
  classes : ClassTable
  totals : Totals
  entries : Nat
  replaced : Nat

namespace ScanState

def initial : ScanState :=
  ⟨.initial, .zero, 0, 0⟩

/-- Takes a decoded class in. -/
def add (state : ScanState) (compiled : CompiledClass) : ScanState where
  classes := state.classes.insert compiled.header
  totals := state.totals.record compiled
  entries := state.entries + 1
  replaced :=
    if state.classes.contains compiled.header.name then state.replaced + 1 else state.replaced

/-- Decodes an entry and takes it in. -/
def record (state : ScanState) (data : Bytes) : Except DecodeFault ScanState :=
  (ClassFile.decode data).map state.add

end ScanState

end ClassMetrics
