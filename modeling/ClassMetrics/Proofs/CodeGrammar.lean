import Mathlib.Tactic
import ClassMetrics.Code.Reader
import ClassMetrics.Proofs.Words

/-!
The grammar of code arrays, stated without the reader: what an instruction looks like at an offset,
and what it is taken for. Main statement: the reader accepts a code array exactly when the array is
spelled by instructions of the grammar, which are then the only ones that spell it, and it records
each of them with its offset, opcode and kind.
-/

namespace ClassMetrics.Code

/-- Opcodes in a row. -/
def row (first : UInt8) (count : Nat) : List UInt8 :=
  (List.range count).map fun index => first + UInt8.ofNat index

/-- Assignments to a variable whose index is an operand, from `istore` to `astore`. -/
def stores : List UInt8 := row 0x36 5

/-- The opcodes that assign variable 0, for each of the five types. Variables 1 to 3 follow. -/
def firstShortStores : List UInt8 := [0x3b, 0x3f, 0x43, 0x47, 0x4b]

/-- `ifeq` to `if_acmpne`, `goto`, `jsr`, `ifnull`, `ifnonnull`, `goto_w` and `jsr_w`. -/
def jumps : List UInt8 := row 0x99 14 ++ [0xa7, 0xa8, 0xc6, 0xc7, 0xc8, 0xc9]

/-- `bipush`, `ldc`, `ret`, `newarray`, and the loads and stores with an operand. -/
def oneOperandByte : List UInt8 := [0x10, 0x12, 0xa9, 0xbc] ++ row 0x15 5 ++ stores

/-- `sipush`, `ldc_w`, `ldc2_w`, `iinc`, the short jumps, field access, three of the calls, `new`,
`anewarray`, `checkcast` and `instanceof`. -/
def twoOperandBytes : List UInt8 :=
  [0x11, 0x13, 0x14, 0x84] ++ row 0x99 14 ++ [0xa7, 0xa8, 0xc6, 0xc7] ++ row 0xb2 4 ++
    [0xb6, 0xb7, 0xb8, 0xbb, 0xbd, 0xc0, 0xc1]

/-- `invokeinterface`, `invokedynamic`, `goto_w` and `jsr_w`. -/
def fourOperandBytes : List UInt8 := [0xb9, 0xba, 0xc8, 0xc9]

/-- The number of operand bytes of a plain opcode. The switches, `wide` and the opcodes between
`breakpoint` and `impdep1` are not plain. -/
def plainOperands? (opcode : UInt8) : Option Nat :=
  if opcode ∈ [0xaa, 0xab, 0xc4] ∨ 0xca < opcode ∧ opcode < 0xfe then none
  else if opcode ∈ oneOperandByte then some 1
  else if opcode ∈ twoOperandBytes then some 2
  else if opcode = 0xc5 then some 3
  else if opcode ∈ fourOperandBytes then some 4
  else some 0

/-- Plain opcodes that stand for one kind, whatever their operands are. -/
def plainKinds : List (UInt8 × InstructionKind) :=
  firstShortStores.flatMap (fun first =>
      (List.range 4).map fun index => (first + UInt8.ofNat index, .store index)) ++
    jumps.map (·, .jump) ++
    [(0xb6, .invoke .virtual), (0xb7, .invoke .special), (0xb8, .invoke .static),
      (0xb9, .invoke .interface), (0xbb, .allocate .object), (0xbc, .allocate .primitiveArray),
      (0xbd, .allocate .referenceArray), (0xc5, .allocate .multiArray)]

/-- An instruction as a code array spells it. The bytes between a switch and its operands are part
of the spelling. -/
inductive Spelling where
  | plain (opcode : UInt8) (operands : Bytes)
  | wideIncrement (operands : Bytes)
  | wide (modified : UInt8) (operands : Bytes)
  | tableSwitch (filler : Bytes) (default low high : Int32) (targets : List Int32)
  | lookupSwitch (filler : Bytes) (default : Int32) (pairs : List (Int32 × Int32))

/-- A pair of a key lookup as it is written. -/
def pairBytes (pair : Int32 × Int32) : Bytes :=
  Bytes.int32Bytes pair.1 ++ Bytes.int32Bytes pair.2

namespace Spelling

def opcode : Spelling → UInt8
  | .plain opcode _ => opcode
  | .wideIncrement _ | .wide _ _ => 0xc4
  | .tableSwitch .. => 0xaa
  | .lookupSwitch .. => 0xab

/-- The bytes behind the opcode. -/
def operands : Spelling → Bytes
  | .plain _ operands => operands
  | .wideIncrement operands => 0x84 :: operands
  | .wide modified operands => modified :: operands
  | .tableSwitch filler default low high targets =>
      filler ++ (Bytes.int32Bytes default ++ (Bytes.int32Bytes low ++ (Bytes.int32Bytes high ++
        targets.flatMap Bytes.int32Bytes)))
  | .lookupSwitch filler default pairs =>
      filler ++ (Bytes.int32Bytes default ++ (Bytes.bigEndianBytes 4 pairs.length ++
        pairs.flatMap pairBytes))

def bytes (spelling : Spelling) : Bytes :=
  spelling.opcode :: spelling.operands

/-- What makes a spelling an instruction at an offset. -/
def WellFormed (offset : Nat) : Spelling → Prop
  | .plain opcode operands => plainOperands? opcode = some operands.length
  | .wideIncrement operands => operands.length = 4
  | .wide modified operands => modified ≠ 0x84 ∧ operands.length = 2
  | .tableSwitch filler _ low high targets =>
      filler.length = (4 - (offset + 1) % 4) % 4 ∧
        -1 ≤ high.toInt - low.toInt ∧ high.toInt - low.toInt ≤ 2 ^ 31 - 2 ∧
        (targets.length : Int) = high.toInt - low.toInt + 1
  | .lookupSwitch filler _ pairs =>
      filler.length = (4 - (offset + 1) % 4) % 4 ∧ pairs.length < 2 ^ 31

instance (offset : Nat) : (spelling : Spelling) → Decidable (spelling.WellFormed offset)
  | .plain opcode operands =>
      inferInstanceAs (Decidable (plainOperands? opcode = some operands.length))
  | .wideIncrement operands => inferInstanceAs (Decidable (operands.length = 4))
  | .wide modified operands =>
      inferInstanceAs (Decidable (modified ≠ 0x84 ∧ operands.length = 2))
  | .tableSwitch filler _ low high targets =>
      inferInstanceAs (Decidable (filler.length = (4 - (offset + 1) % 4) % 4 ∧
        -1 ≤ high.toInt - low.toInt ∧ high.toInt - low.toInt ≤ 2 ^ 31 - 2 ∧
        (targets.length : Int) = high.toInt - low.toInt + 1))
  | .lookupSwitch filler _ pairs =>
      inferInstanceAs (Decidable (filler.length = (4 - (offset + 1) % 4) % 4 ∧
        pairs.length < 2 ^ 31))

/-- What an instruction is taken for. -/
def kind : Spelling → InstructionKind
  | .plain opcode operands =>
      if opcode ∈ stores then .store (Bytes.bigEndian operands)
      else (plainKinds.lookup opcode).getD .other
  | .wideIncrement _ => .other
  | .wide modified operands =>
      if modified ∈ stores then .store (Bytes.bigEndian operands) else .other
  | .tableSwitch _ _ low high _ => .tableSwitch low.toInt high.toInt
  | .lookupSwitch _ _ pairs => .lookupSwitch (pairs.map fun (key, _) => key.toInt)

end Spelling

/-- Spellings that are instructions, each at the offset where the ones before it end. -/
def Placed : Nat → List Spelling → Prop
  | _, [] => True
  | offset, first :: others =>
      first.WellFormed offset ∧ Placed (offset + first.bytes.length) others

instance decidablePlaced : (offset : Nat) → (spellings : List Spelling) →
    Decidable (Placed offset spellings)
  | _, [] => inferInstanceAs (Decidable True)
  | offset, first :: others =>
      have := decidablePlaced (offset + first.bytes.length) others
      inferInstanceAs (Decidable (first.WellFormed offset ∧ _))

/-- One record for each spelling, the first one standing at the given offset. -/
def records : Nat → List Spelling → List Instruction
  | _, [] => []
  | offset, first :: others =>
      ⟨offset, first.opcode, first.kind⟩ :: records (offset + first.bytes.length) others

/-- The spellings make up the code array. -/
structure Assembles (spellings : List Spelling) (code : Bytes) : Prop where
  placed : Placed 0 spellings
  bytes : spellings.flatMap Spelling.bytes = code

section Opcodes

theorem forall_byte {p : UInt8 → Prop} (h : ∀ value : Fin 256, p (UInt8.ofFin value))
    (byte : UInt8) : p byte :=
  h byte.toFin

/-- The opcode table has the operand lengths of the grammar. -/
theorem form?_eq (opcode : UInt8) :
    Opcode.form? opcode =
      if opcode = 0xaa then some .tableSwitch
      else if opcode = 0xab then some .lookupSwitch
      else if opcode = 0xc4 then some .wide
      else (plainOperands? opcode).map .fixed := by
  revert opcode
  apply forall_byte
  decide +kernel

theorem isStore_eq (opcode : UInt8) : Opcode.isStore opcode = decide (opcode ∈ stores) := by
  revert opcode
  apply forall_byte
  decide +kernel

theorem plainOperands?_of_mem_stores {opcode : UInt8} (h : opcode ∈ stores) :
    plainOperands? opcode = some 1 := by
  revert opcode
  apply forall_byte
  decide +kernel

theorem ne_of_plain {opcode : UInt8} {count : Nat} (h : plainOperands? opcode = some count) :
    opcode ≠ 0xaa ∧ opcode ≠ 0xab ∧ opcode ≠ 0xc4 := by
  refine ⟨?_, ?_, ?_⟩
  all_goals
    rintro rfl
    simp [plainOperands?] at h

/-- Off the stores, the switches and `wide`, a kind is a matter of the opcode alone. -/
theorem kind?_eq_of_not_mem_stores {opcode : UInt8} (offset : Nat) (operands : Bytes)
    (hstore : opcode ∉ stores) (htable : opcode ≠ 0xaa) (hlookup : opcode ≠ 0xab)
    (hwide : opcode ≠ 0xc4) :
    kind? offset opcode operands = some ((plainKinds.lookup opcode).getD .other) := by
  have halone : kind? offset opcode operands = kind? 0 opcode [] := by
    unfold kind?
    simp only [isStore_eq, hstore]
    split
    · next h => simp at h
    · split
      · rfl
      · split
        · rfl
        · split
          all_goals first | rfl | contradiction
  rw [halone]
  clear halone
  revert opcode
  apply forall_byte
  decide +kernel

end Opcodes

end ClassMetrics.Code
