import ClassMetrics.Hierarchy.ClassGraph
import ClassMetrics.Hierarchy.Overrides
import ClassMetrics.Metrics.Totals

/-!
The metrics of an input, put together from the counters, the depths and the overrides. An average
over nothing is not a number.
-/

namespace ClassMetrics

structure Summary where
  archiveName : String
  fieldsAverage : Float
  assignments : UInt64
  branches : UInt64
  conditions : UInt64
  abcMagnitude : Float
  maxDepth : Int
  averageDepth : Float
  averageOverrides : Float
  methods : UInt64
  overrides : UInt64

/-- What an average over nothing is. -/
def notANumber : Float :=
  .ofBits 0x7ff8000000000000

/-- The quotient of two counters, each rounded to a float first. -/
def ratio (numerator denominator : UInt64) : Float :=
  if denominator = 0 then notANumber else numerator.toFloat / denominator.toFloat

/-- The length of the vector of assignments, branches and conditions. -/
def abcMagnitude (assignments branches conditions : UInt64) : Float :=
  let a := assignments.toFloat
  let b := branches.toFloat
  let c := conditions.toFloat
  (a * a + b * b + c * c).sqrt

def Depths.average (depths : Depths) : Float :=
  if depths.size = 0 then notANumber
  else (UInt64.ofNat depths.total).toFloat / (UInt64.ofNat depths.size).toFloat

namespace Summary

def of (archiveName : String) (totals : Totals) (depths : Depths) (tally : OverrideTally) :
    Summary where
  archiveName := archiveName
  fieldsAverage := ratio totals.fields totals.classes
  assignments := totals.assignments
  branches := totals.branches
  conditions := totals.conditions
  abcMagnitude := ClassMetrics.abcMagnitude totals.assignments totals.branches totals.conditions
  maxDepth := depths.maximum
  averageDepth := depths.average
  averageOverrides := ratio tally.total totals.methods
  methods := totals.methods
  overrides := tally.total

/-- The metrics of a class table and the counters that go with it. -/
def ofTable (archiveName : String) (table : ClassTable) (totals : Totals) : Summary :=
  of archiveName totals (ClassGraph.ofTable table).depths table.overrides

end Summary

end ClassMetrics
