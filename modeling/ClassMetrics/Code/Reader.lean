import ClassMetrics.Bytes
import ClassMetrics.Code.Instruction
import ClassMetrics.Code.Opcode

/-!
Reading a code array as a sequence of instructions. Only the switches look at where they stand:
their operands are aligned to four bytes from the start of the array. Every other reading depends
on the bytes from the opcode on, so a reader is given the offset and those bytes.
-/

namespace ClassMetrics

/-- Why the bytes at an offset are no instruction. -/
inductive CodeFault.Reason where
  | unsupportedOpcode (opcode : UInt8)
  | missingOperand
  | tableRange
  | lookupPairs
  | missingWideOpcode
  | pastEnd
  deriving DecidableEq, Repr

/-- A place in a code array where no instruction can be read. -/
structure CodeFault where
  offset : Nat
  reason : CodeFault.Reason
  deriving DecidableEq, Repr

/-- Two lower-case hexadecimal digits. -/
def hexByte (byte : UInt8) : String :=
  String.ofList [Nat.digitChar (byte.toNat / 16), Nat.digitChar (byte.toNat % 16)]

def CodeFault.Reason.message : CodeFault.Reason → String
  | .unsupportedOpcode opcode => "unsupported opcode 0x" ++ hexByte opcode
  | .missingOperand => "i32 operand out of bounds"
  | .tableRange => "invalid tableswitch range"
  | .lookupPairs => "invalid lookupswitch pairs"
  | .missingWideOpcode => "missing wide opcode"
  | .pastEnd => "instruction runs past end of code"

namespace Code

/-- Bytes between a switch opcode and its aligned operands. -/
def padding (offset : Nat) : Nat :=
  (4 - (offset + 1) % 4) % 4

/-- The signed word that stands `skip` bytes behind the opcode at `offset`. -/
def operand (offset : Nat) (rest : Bytes) (skip : Nat) : Except CodeFault Int :=
  match Bytes.int32? (rest.drop skip) with
  | some value => .ok value
  | none => .error ⟨offset + 1 + skip, .missingOperand⟩

/-- Operand bytes of a jump table: padding, the default target, the bounds and one target per key.
The number of keys has to be a 32-bit number from 0 on. -/
def tableSwitchOperands (offset : Nat) (rest : Bytes) : Except CodeFault Nat := do
  let low ← operand offset rest (padding offset + 4)
  let high ← operand offset rest (padding offset + 8)
  if -1 ≤ high - low ∧ high - low + 1 < 0x80000000 then
    return padding offset + 12 + 4 * (high - low + 1).toNat
  else
    throw ⟨offset, .tableRange⟩

/-- Operand bytes of a key lookup: padding, the default target, the number of pairs and the
pairs. -/
def lookupSwitchOperands (offset : Nat) (rest : Bytes) : Except CodeFault Nat := do
  let pairs ← operand offset rest (padding offset + 4)
  if 0 ≤ pairs then
    return padding offset + 8 + 8 * pairs.toNat
  else
    throw ⟨offset, .lookupPairs⟩

/-- Operand bytes of a widened instruction, whose own opcode comes first. -/
def wideOperands (offset : Nat) : Bytes → Except CodeFault Nat
  | [] => .error ⟨offset, .missingWideOpcode⟩
  | modified :: _ => .ok (if modified = Opcode.iinc then 5 else 3)

/-- The number of operand bytes of the instruction with this opcode at this offset, `rest` being
what follows the opcode. The operands may run past the end. -/
def operandCount (offset : Nat) (opcode : UInt8) (rest : Bytes) : Except CodeFault Nat :=
  match Opcode.form? opcode with
  | some (.fixed operands) => .ok operands
  | some .tableSwitch => tableSwitchOperands offset rest
  | some .lookupSwitch => lookupSwitchOperands offset rest
  | some .wide => wideOperands offset rest
  | none => .error ⟨offset, .unsupportedOpcode opcode⟩

/-- The keys of a key lookup, each followed by the target it stands for. -/
def keys? : Nat → Bytes → Option (List Int)
  | 0, _ => some []
  | count + 1, bytes => do
      let key ← Bytes.int32? bytes
      let others ← keys? count (bytes.drop 8)
      return key :: others

/-- The kind of an instruction, from its opcode and its operand bytes. It is undefined only if
operands are missing. -/
def kind? (offset : Nat) (opcode : UInt8) (operands : Bytes) : Option InstructionKind :=
  if Opcode.isStore opcode then
    operands.head?.map fun index => .store index.toNat
  else if Opcode.isShortStore opcode then
    some (.store (Opcode.shortStoreIndex opcode))
  else if Opcode.isJump opcode then
    some .jump
  else match opcode with
    | 0xb6 => some (.invoke .virtual)
    | 0xb7 => some (.invoke .special)
    | 0xb8 => some (.invoke .static)
    | 0xb9 => some (.invoke .interface)
    | 0xbb => some (.allocate .object)
    | 0xbc => some (.allocate .primitiveArray)
    | 0xbd => some (.allocate .referenceArray)
    | 0xc5 => some (.allocate .multiArray)
    | 0xaa => do
        let low ← Bytes.int32? (operands.drop (padding offset + 4))
        let high ← Bytes.int32? (operands.drop (padding offset + 8))
        return .tableSwitch low high
    | 0xab => do
        let pairs ← Bytes.int32? (operands.drop (padding offset + 4))
        let keys ← keys? pairs.toNat (operands.drop (padding offset + 8))
        return .lookupSwitch keys
    | 0xc4 =>
        match operands with
        | [] => none
        | modified :: index =>
            if Opcode.isStore modified then
              (Bytes.word16? index).map .store
            else
              some .other
    | _ => some .other

/-- An instruction, the number of bytes it takes and the bytes behind it. -/
structure Item where
  instruction : Instruction
  length : Nat
  next : Bytes

/-- The instruction at an offset. -/
def readItem (offset : Nat) (opcode : UInt8) (rest : Bytes) : Except CodeFault Item := do
  let count ← operandCount offset opcode rest
  match Bytes.split? count rest with
  | none => throw ⟨offset, .pastEnd⟩
  | some (operands, next) =>
      match kind? offset opcode operands with
      | none => throw ⟨offset, .pastEnd⟩
      | some kind => return ⟨⟨offset % 0x100000000, opcode, kind⟩, 1 + count, next⟩

/-- What an instruction that could be read consists of. -/
theorem readItem_ok {offset : Nat} {opcode : UInt8} {rest : Bytes} {item : Item}
    (h : readItem offset opcode rest = .ok item) :
    ∃ operands kind, rest = operands ++ item.next ∧
      operandCount offset opcode rest = .ok operands.length ∧
      kind? offset opcode operands = some kind ∧
      item = ⟨⟨offset % 0x100000000, opcode, kind⟩, 1 + operands.length, item.next⟩ := by
  unfold readItem at h
  cases hcount : operandCount offset opcode rest with
  | error fault => simp [hcount, bind, Except.bind] at h
  | ok count =>
      simp only [hcount, bind, Except.bind] at h
      cases hsplit : Bytes.split? count rest with
      | none => simp [hsplit, throw, throwThe, MonadExceptOf.throw] at h
      | some parts =>
          obtain ⟨operands, next⟩ := parts
          obtain ⟨happend, rfl⟩ := Bytes.split?_eq_some_iff.1 hsplit
          cases hkind : kind? offset opcode operands with
          | none => simp [hsplit, hkind, throw, throwThe, MonadExceptOf.throw] at h
          | some kind =>
              simp only [hsplit, hkind, pure, Except.pure, Except.ok.injEq] at h
              subst h
              exact ⟨operands, kind, happend.symm, rfl, hkind, rfl⟩

theorem readItem_next_length {offset : Nat} {opcode : UInt8} {rest : Bytes} {item : Item}
    (h : readItem offset opcode rest = .ok item) : item.next.length ≤ rest.length := by
  obtain ⟨operands, _, happend, _⟩ := readItem_ok h
  simp [happend]

/-- What reading a code array gives: the instructions up to the first fault, and that fault. -/
structure Trace where
  instructions : List Instruction
  fault? : Option CodeFault
  deriving DecidableEq, Repr

/-- Reads instructions until the bytes end or one cannot be read. -/
def trace (offset : Nat) : Bytes → Trace
  | [] => ⟨[], none⟩
  | opcode :: rest =>
      match _h : readItem offset opcode rest with
      | .error fault => ⟨[], some fault⟩
      | .ok item =>
          let later := trace (offset + item.length) item.next
          ⟨item.instruction :: later.instructions, later.fault?⟩
termination_by bytes => bytes.length
decreasing_by
  have := readItem_next_length _h
  simp only [List.length_cons]
  omega

/-- All instructions of a code array, if it consists of instructions. -/
def decode (code : Bytes) : Except CodeFault (List Instruction) :=
  let reading := trace 0 code
  match reading.fault? with
  | none => .ok reading.instructions
  | some fault => .error fault

/-- For every offset of a code array, the alignment of a switch there and the length of an
instruction there. -/
def lengths (offset : Nat) : Bytes → List (Nat × Except CodeFault Nat)
  | [] => []
  | opcode :: rest =>
      (padding offset, (operandCount offset opcode rest).map (1 + ·)) :: lengths (offset + 1) rest

end Code

end ClassMetrics
