/-!
The instructions of a method body, as far as the metrics tell them apart: assignments to local
variables, calls, allocations and the several ways to branch. Everything else is one kind.
-/

namespace ClassMetrics

/-- How a call selects its target. -/
inductive Invocation where
  | virtual
  | special
  | static
  | interface
  deriving DecidableEq, Repr

/-- What an allocation creates. -/
inductive Allocation where
  | object
  | primitiveArray
  | referenceArray
  | multiArray
  deriving DecidableEq, Repr

/-- What an instruction does. -/
inductive InstructionKind where
  /-- Assigns the local variable of this index. -/
  | store (index : Nat)
  | invoke (how : Invocation)
  | allocate (what : Allocation)
  /-- A conditional or unconditional jump. -/
  | jump
  /-- A jump table over the keys `low` to `high`. -/
  | tableSwitch (low high : Int)
  /-- A jump by comparison with the listed keys. -/
  | lookupSwitch (keys : List Int)
  | other
  deriving DecidableEq, Repr

/-- One instruction of a method body, with the byte offset it starts at. The offset is kept in 32
bits, which is as much as the code of a method can need. -/
structure Instruction where
  offset : Nat
  opcode : UInt8
  kind : InstructionKind
  deriving DecidableEq, Repr

end ClassMetrics
