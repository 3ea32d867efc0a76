import ClassMetrics.Hierarchy.ClassTable
import ClassMetrics.Hierarchy.Remaining

/-!
The classes that a class inherits from: the chain of its superclasses, and the interfaces that it
names, with those that they name in turn. Both walks stay inside the table and stop at a class that
they have met, so cycles do no harm.
-/

namespace ClassMetrics.ClassTable

/-- The superclasses from the given name on, nearest first, until one is absent or has been
seen. -/
def chainFrom (table : ClassTable) (seen : List String) : Option String → List ClassHeader
  | none => []
  | some name =>
      match _h : table.find? name with
      | none => []
      | some ancestor =>
          if ancestor.name ∈ seen then []
          else ancestor :: chainFrom table (ancestor.name :: seen) ancestor.super?
termination_by remaining table.names seen
decreasing_by
  next hseen => exact remaining_cons_lt (mem_names_of_find? _h) hseen

/-- The superclasses of a class, nearest first. -/
def superclassChain (table : ClassTable) (header : ClassHeader) : List ClassHeader :=
  table.chainFrom [header.name] header.super?

/-- The interfaces of the given names and, in turn, of those that they name. -/
def interfacesFrom (table : ClassTable) (seen : List String) : List String → List ClassHeader
  | [] => []
  | name :: pending =>
      match _h : table.find? name with
      | none => interfacesFrom table seen pending
      | some interface =>
          if interface.name ∈ seen then interfacesFrom table seen pending
          else
            interface :: interfacesFrom table (interface.name :: seen)
              (interface.interfaces.toList ++ pending)
termination_by pending => (remaining table.names seen, pending.length)
decreasing_by
  · exact Prod.Lex.right _ (Nat.lt_succ_self _)
  · exact Prod.Lex.right _ (Nat.lt_succ_self _)
  · next hseen => exact Prod.Lex.left _ _ (remaining_cons_lt (mem_names_of_find? _h) hseen)

/-- The interfaces of a class. -/
def interfaceClosure (table : ClassTable) (header : ClassHeader) : List ClassHeader :=
  table.interfacesFrom [] header.interfaces.toList

/-- Whether one signature comes before another: by name, then by parameters. -/
def signatureLe (signature other : Signature) : Bool :=
  signature.name < other.name ||
    (signature.name == other.name && decide (signature.parameters ≤ other.parameters))

/-- The signatures that the interfaces of a class declare, in order and each once. -/
def interfaceSignatures (table : ClassTable) (header : ClassHeader) : List Signature :=
  (((table.interfaceClosure header).flatMap (·.declared)).mergeSort signatureLe).eraseReps

end ClassMetrics.ClassTable
