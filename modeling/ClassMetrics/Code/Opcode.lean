/-!
The opcode table. Every opcode either has a fixed number of operand bytes or one of the three
forms whose length depends on what follows: the two switches and the `wide` modifier.
-/

namespace ClassMetrics

/-- What follows an opcode. -/
inductive OperandForm where
  | fixed (operands : Nat)
  | tableSwitch
  | lookupSwitch
  | wide
  deriving DecidableEq, Repr

namespace Opcode

def iinc : UInt8 := 0x84
def tableSwitch : UInt8 := 0xaa
def lookupSwitch : UInt8 := 0xab
def wide : UInt8 := 0xc4

/-- Whether an opcode lies between two others, both included. -/
def within (first last opcode : UInt8) : Bool :=
  first ≤ opcode && opcode ≤ last

/-- Ranges of opcodes with the number of operand bytes that each of them takes. -/
def fixedForms : List (UInt8 × UInt8 × Nat) :=
  [(0x00, 0x0f, 0), (0x10, 0x10, 1), (0x11, 0x11, 2), (0x12, 0x12, 1), (0x13, 0x14, 2),
    (0x15, 0x19, 1), (0x1a, 0x35, 0), (0x36, 0x3a, 1), (0x3b, 0x83, 0), (0x84, 0x84, 2),
    (0x85, 0x98, 0), (0x99, 0xa8, 2), (0xa9, 0xa9, 1), (0xac, 0xb1, 0), (0xb2, 0xb8, 2),
    (0xb9, 0xba, 4), (0xbb, 0xbb, 2), (0xbc, 0xbc, 1), (0xbd, 0xbd, 2), (0xbe, 0xbf, 0),
    (0xc0, 0xc1, 2), (0xc2, 0xc3, 0), (0xc5, 0xc5, 3), (0xc6, 0xc7, 2), (0xc8, 0xc9, 4),
    (0xca, 0xca, 0), (0xfe, 0xff, 0)]

/-- The operand form of an opcode, for the opcodes that exist. -/
def form? (opcode : UInt8) : Option OperandForm :=
  if opcode = tableSwitch then some .tableSwitch
  else if opcode = lookupSwitch then some .lookupSwitch
  else if opcode = wide then some .wide
  else (fixedForms.find? fun (first, last, _) => within first last opcode).map
    fun (_, _, operands) => .fixed operands

/-- Assignments whose variable index is an operand. -/
def isStore (opcode : UInt8) : Bool :=
  within 0x36 0x3a opcode

/-- Assignments whose variable index, 0 to 3, is part of the opcode. -/
def isShortStore (opcode : UInt8) : Bool :=
  within 0x3b 0x4e opcode

/-- The variable that a short assignment names. -/
def shortStoreIndex (opcode : UInt8) : Nat :=
  (opcode.toNat - 0x3b) % 4

/-- Jumps with one target. -/
def isJump (opcode : UInt8) : Bool :=
  within 0x99 0xa8 opcode || within 0xc6 0xc9 opcode

end Opcode

end ClassMetrics
