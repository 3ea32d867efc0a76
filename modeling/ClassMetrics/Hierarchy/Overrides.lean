import ClassMetrics.Hierarchy.Ancestry

/-!
Methods that override others. A declared method is matched with every superclass that declares its
signature, and with the interfaces taken together. The two tallies are independent of each other.
-/

namespace ClassMetrics

/-- The number of matches through superclasses and through interfaces. -/
structure OverrideTally where
  superclass : UInt64
  interface : UInt64
  deriving DecidableEq, Repr

def OverrideTally.total (tally : OverrideTally) : UInt64 :=
  tally.superclass + tally.interface

namespace ClassTable

/-- One match for every declared method and superclass that declares it too. -/
def superclassMatches (table : ClassTable) (header : ClassHeader) : Nat :=
  let ancestors := table.superclassChain header
  (header.declared.map fun signature => ancestors.countP (·.declares signature)).foldr (· + ·) 0

/-- One match for every declared method that some interface declares. -/
def interfaceMatches (table : ClassTable) (header : ClassHeader) : Nat :=
  let inherited := table.interfaceSignatures header
  header.declared.countP inherited.contains

/-- The matches of all classes but the root. -/
def overrides (table : ClassTable) : OverrideTally where
  superclass := UInt64.ofNat ((table.nonRoot.map table.superclassMatches).foldr (· + ·) 0)
  interface := UInt64.ofNat ((table.nonRoot.map table.interfaceMatches).foldr (· + ·) 0)

end ClassTable

end ClassMetrics
