import Mathlib
import ClassMetrics.Proofs.Counters
import ClassMetrics.Proofs.ReaderTurns

/-!
Code arrays put one behind the other. An instruction is read in the same way wherever the alignment
is the same, so a code array keeps its instructions, or its fault, behind another one whose length is
a multiple of four. Main statement: the array as a whole then has the instructions of both parts, or
the fault of the second, and the counts of both parts taken together.
-/

namespace ClassMetrics

/-- The fault, so many bytes further on. -/
def CodeFault.shift (distance : Nat) (fault : CodeFault) : CodeFault :=
  { fault with offset := fault.offset + distance }

/-- The instruction, so many bytes further on. -/
def Instruction.shift (distance : Nat) (instruction : Instruction) : Instruction :=
  { instruction with offset := instruction.offset + distance }

namespace Code

def Item.shift (distance : Nat) (item : Item) : Item :=
  { item with instruction := item.instruction.shift distance }

def Trace.shift (distance : Nat) (trace : Trace) : Trace :=
  ⟨trace.instructions.map (·.shift distance), trace.fault?.map (·.shift distance)⟩

theorem operand_shift (distance offset : Nat) (rest : Bytes) (skip : Nat) :
    operand (offset + distance) rest skip =
      (operand offset rest skip).mapError (·.shift distance) := by
  rw [operand, operand]
  cases Bytes.int32? (rest.drop skip) with
  | some value => rfl
  | none =>
      rw [Nat.add_right_comm offset, Nat.add_right_comm (offset + 1)]
      rfl

section Shift

variable {distance : Nat} (haligned : 4 ∣ distance)
include haligned

theorem padding_shift (offset : Nat) : padding (offset + distance) = padding offset := by
  rw [padding, padding]
  omega

theorem tableSwitchOperands_shift (offset : Nat) (rest : Bytes) :
    tableSwitchOperands (offset + distance) rest =
      (tableSwitchOperands offset rest).mapError (·.shift distance) := by
  simp only [tableSwitchOperands, padding_shift haligned, operand_shift]
  cases operand offset rest (padding offset + 4) with
  | error fault => rfl
  | ok low =>
      cases operand offset rest (padding offset + 8) with
      | error fault => rfl
      | ok high =>
          simp only [Except.mapError, bind, Except.bind]
          split
          · rfl
          · rfl

theorem lookupSwitchOperands_shift (offset : Nat) (rest : Bytes) :
    lookupSwitchOperands (offset + distance) rest =
      (lookupSwitchOperands offset rest).mapError (·.shift distance) := by
  simp only [lookupSwitchOperands, padding_shift haligned, operand_shift]
  cases operand offset rest (padding offset + 4) with
  | error fault => rfl
  | ok pairs =>
      simp only [Except.mapError, bind, Except.bind]
      split
      · rfl
      · rfl

theorem operandCount_shift (offset : Nat) (opcode : UInt8) (rest : Bytes) :
    operandCount (offset + distance) opcode rest =
      (operandCount offset opcode rest).mapError (·.shift distance) := by
  rw [operandCount, operandCount]
  cases Opcode.form? opcode with
  | none => rfl
  | some form =>
      cases form with
      | fixed operands => rfl
      | tableSwitch => exact tableSwitchOperands_shift haligned offset rest
      | lookupSwitch => exact lookupSwitchOperands_shift haligned offset rest
      | wide => cases rest <;> rfl

theorem kind?_shift (offset : Nat) (opcode : UInt8) (operands : Bytes) :
    kind? (offset + distance) opcode operands = kind? offset opcode operands := by
  simp only [kind?, padding_shift haligned]

/-- Where the alignment is the same, the same instruction or the same fault is read. -/
theorem readItem_shift (offset : Nat) (hbound : offset + distance < 2 ^ 32) (opcode : UInt8)
    (rest : Bytes) :
    readItem (offset + distance) opcode rest =
      ((readItem offset opcode rest).map (·.shift distance)).mapError (·.shift distance) := by
  have hplace : (offset + distance) % 0x100000000 = offset % 0x100000000 + distance := by omega
  rw [readItem, readItem, operandCount_shift haligned]
  cases operandCount offset opcode rest with
  | error fault => rfl
  | ok count =>
      simp only [Except.mapError, bind, Except.bind, kind?_shift haligned, hplace]
      cases Bytes.split? count rest with
      | none => rfl
      | some parts =>
          simp only
          cases kind? offset opcode parts.1 with
          | none => rfl
          | some kind => rfl

theorem trace_shift {offset : Nat} {bytes : Bytes}
    (hbound : offset + distance + bytes.length ≤ 2 ^ 32) :
    trace (offset + distance) bytes = (trace offset bytes).shift distance := by
  -- The bound keeps the moved offsets within 32 bits, all along the reading.
  fun_induction trace offset bytes with
  | case1 offset =>
      rw [trace]
      rfl
  | case2 offset opcode rest fault hitem =>
      rw [List.length_cons] at hbound
      have hshifted := readItem_shift haligned offset (by omega) opcode rest
      rw [hitem] at hshifted
      rw [trace_of_error hshifted]
      rfl
  | case3 offset opcode rest item hitem later ih =>
      rw [List.length_cons] at hbound
      have hshifted := readItem_shift haligned offset (by omega) opcode rest
      rw [hitem] at hshifted
      have hlength := length_of_readItem hitem
      have hlater := ih (by omega)
      rw [Nat.add_right_comm] at hlater
      rw [trace_cons hshifted]
      change Trace.mk (_ :: (trace (offset + distance + item.length) item.next).instructions)
        (trace (offset + distance + item.length) item.next).fault? = _
      rw [hlater]
      rfl

end Shift

/-- Behind instructions the code is read as it is read on its own at their end. -/
theorem trace_append {offset : Nat} {spellings : List Spelling} (h : Placed offset spellings)
    (later : Bytes) :
    trace offset (spellings.flatMap Spelling.bytes ++ later) =
      ⟨(trace offset (spellings.flatMap Spelling.bytes)).instructions ++
          (trace (offset + (spellings.flatMap Spelling.bytes).length) later).instructions,
        (trace (offset + (spellings.flatMap Spelling.bytes).length) later).fault?⟩ := by
  induction spellings generalizing offset with
  | nil => simp [trace]
  | cons first others ih =>
      obtain ⟨hfirst, hothers⟩ := h
      rw [List.flatMap_cons, List.append_assoc, List.length_append, ← Nat.add_assoc]
      rw [Spelling.bytes, List.cons_append, List.cons_append, trace_cons (first.readItem_eq hfirst _),
        trace_cons (first.readItem_eq hfirst _)]
      simp only [ih hothers]
      rfl

/-- Behind code whose length is a multiple of four, code keeps its instructions and its fault. -/
theorem trace_join {first second : Bytes} (hsize : (first ++ second).length ≤ 2 ^ 32)
    (haligned : 4 ∣ first.length) (hfirst : (trace 0 first).fault? = none) :
    trace 0 (first ++ second) =
      ⟨(trace 0 first).instructions ++ (trace 0 second).instructions.map (·.shift first.length),
        (trace 0 second).fault?.map (·.shift first.length)⟩ := by
  obtain ⟨spellings, hplaced, rfl⟩ := exists_spellings_of_trace hfirst
  rw [List.length_append] at hsize
  rw [trace_append hplaced, trace_shift haligned (by omega)]
  rfl

theorem trace_of_decode {code : Bytes} {instructions : List Instruction}
    (h : decode code = .ok instructions) : trace 0 code = ⟨instructions, none⟩ := by
  rw [decode] at h
  cases hfault : (trace 0 code).fault? with
  | some fault => simp [hfault] at h
  | none =>
      simp only [hfault, Except.ok.injEq] at h
      rw [← h, ← hfault]

theorem fault?_of_decode {code : Bytes} {fault : CodeFault} (h : decode code = .error fault) :
    (trace 0 code).fault? = some fault := by
  rw [decode] at h
  cases hfault : (trace 0 code).fault? with
  | none => simp [hfault] at h
  | some other =>
      simp only [hfault, Except.error.injEq] at h
      rw [h]

end Code

namespace Abc

theorem sum_append (first second : List Abc) : sum (first ++ second) = sum first + sum second := by
  simp [sum_eq]

end Abc

/-- Moving instructions does not change what they contribute. -/
theorem codeAbc_join (first second : List Instruction) (distance : Nat) :
    codeAbc 0 (first ++ second.map (·.shift distance)) = codeAbc 0 first + codeAbc 0 second := by
  have hmoved : (second.map (·.shift distance)).map (·.kind.abc) = second.map (·.kind.abc) := by
    rw [List.map_map]
    rfl
  rw [codeAbc, codeAbc, codeAbc, List.map_append, hmoved, Abc.sum_append]
  simp

namespace Totals

theorem addAbc_add (totals : Totals) (first second : Abc) :
    totals.addAbc (first + second) = (totals.addAbc first).addAbc second := by
  simp [addAbc, UInt64.ofNat_add, UInt64.add_assoc]

/-- Counters that start at zero hold what is counted. -/
theorem addAbc_zero (abc : Abc) (h : abc.total < 2 ^ 64) :
    (zero.addAbc abc).assignments.toNat = abc.assignments ∧
      (zero.addAbc abc).branches.toNat = abc.branches ∧
      (zero.addAbc abc).conditions.toNat = abc.conditions := by
  rw [Abc.total] at h
  have hcounter {amount : Nat} (hamount : amount < 2 ^ 64) :
      ((0 : UInt64) + UInt64.ofNat amount).toNat = amount := by
    rw [UInt64.zero_add, UInt64.toNat_ofNat_of_lt' hamount]
  exact ⟨hcounter (by omega), hcounter (by omega), hcounter (by omega)⟩

end Totals

namespace Code

/-- A method without exception handlers that has these instructions. -/
def Runs (method : MethodBody) (instructions : List Instruction) : Prop :=
  method.handlers = 0 ∧ method.instructions = instructions

/-- The counts of a method are those of two others taken together. -/
structure CountsBoth (front back joined : MethodBody) : Prop where
  counters : ∀ counter ∈ [Totals.assignments, Totals.branches, Totals.conditions],
    (counter (Totals.zero.addAbc joined.abc)).toNat =
      (counter (Totals.zero.addAbc front.abc)).toNat + (counter (Totals.zero.addAbc back.abc)).toNat
  run : ∀ totals : Totals, totals.addAbc joined.abc = (totals.addAbc front.abc).addAbc back.abc

theorem Runs.abc_eq {method : MethodBody} {instructions : List Instruction}
    (h : Runs method instructions) : method.abc = codeAbc 0 instructions := by
  rw [MethodBody.abc, h.1, h.2]

theorem countsBoth_of_abc {front back joined : MethodBody} (habc : joined.abc = front.abc + back.abc)
    (hsmall : joined.abc.total < 2 ^ 64) : CountsBoth front back joined := by
  have htotal : joined.abc.total = front.abc.total + back.abc.total := by
    rw [habc, Abc.total_add]
  have hjoined := Totals.addAbc_zero joined.abc hsmall
  have hfront := Totals.addAbc_zero front.abc (by omega)
  have hback := Totals.addAbc_zero back.abc (by omega)
  constructor
  case counters =>
    simp only [List.forall_mem_cons, hjoined, hfront, hback]
    simp [habc]
  case run =>
    intro totals
    rw [habc, Totals.addAbc_add]

/-- Code whose length is a multiple of four can be put in front of other code: the instructions of
both follow each other, and a fault of the second stays what it is. -/
theorem decode_join (first second : Bytes) (instructions : List Instruction)
    (hsize : (first ++ second).length < 2 ^ 32) (haligned : 4 ∣ first.length)
    (hfirst : decode first = .ok instructions) :
    (∀ others, decode second = .ok others →
      decode (first ++ second) = .ok (instructions ++ others.map (·.shift first.length)) ∧
        ∀ front back joined, Runs front instructions → Runs back others →
          Runs joined (instructions ++ others.map (·.shift first.length)) →
          CountsBoth front back joined) ∧
      ∀ fault, decode second = .error fault →
        decode (first ++ second) = .error (fault.shift first.length) := by
  have htrace := trace_of_decode hfirst
  have hjoin := trace_join hsize.le haligned (by rw [htrace])
  rw [htrace] at hjoin
  constructor
  · intro others hsecond
    have hdecode : decode (first ++ second) =
        .ok (instructions ++ others.map (·.shift first.length)) := by
      rw [decode, hjoin, trace_of_decode hsecond]
      rfl
    refine ⟨hdecode, ?_⟩
    intro front back joined hfront hback hjoined
    have habc : joined.abc = front.abc + back.abc := by
      rw [hjoined.abc_eq, hfront.abc_eq, hback.abc_eq, codeAbc_join]
    have hbytes := total_codeAbc_le hdecode 0
    rw [← hjoined.abc_eq] at hbytes
    exact countsBoth_of_abc habc (by omega)
  · intro fault hsecond
    rw [decode, hjoin, fault?_of_decode hsecond]
    rfl

/-- An assignment and a key lookup with two bytes of padding and one pair. -/
def lookupFront : Bytes :=
  [0x3b, 0xab, 0, 0, 0, 0, 0, 0, 0, 0, 0, 1, 0, 0, 0, 7, 0, 0, 0, 0]

/-- A jump table with three bytes of padding and one target, and a call. -/
def tableBack : Bytes :=
  [0xaa, 0, 0, 0, 0, 0, 0, 20, 0, 0, 0, 5, 0, 0, 0, 5, 0, 0, 0, 20, 0xb8, 0, 1]

def frontMethod : MethodBody :=
  ⟨"front", "()V", 0, [⟨0, 0x3b, .store 0⟩, ⟨1, 0xab, .lookupSwitch [7]⟩]⟩

def backMethod : MethodBody :=
  ⟨"back", "()V", 0, [⟨0, 0xaa, .tableSwitch 5 5⟩, ⟨20, 0xb8, .invoke .static⟩]⟩

def joinedMethod : MethodBody :=
  ⟨"joined", "()V", 0, [⟨0, 0x3b, .store 0⟩, ⟨1, 0xab, .lookupSwitch [7]⟩,
    ⟨20, 0xaa, .tableSwitch 5 5⟩, ⟨40, 0xb8, .invoke .static⟩]⟩

/-- A whole table behind a lookup, and one that is cut off inside its lower bound. -/
theorem decode_lookupFront_tableBack :
    decode lookupFront = .ok frontMethod.instructions ∧
      decode tableBack = .ok backMethod.instructions ∧
      decode (lookupFront ++ tableBack) = .ok joinedMethod.instructions ∧
      CountsBoth frontMethod backMethod joinedMethod ∧
      decode (tableBack.take 10) = .error ⟨8, .missingOperand⟩ ∧
      decode (lookupFront ++ tableBack.take 10) = .error ⟨28, .missingOperand⟩ := by
  have hfront : decode lookupFront = .ok frontMethod.instructions := by cbv
  have hback : decode tableBack = .ok backMethod.instructions := by cbv
  have htorn : decode (tableBack.take 10) = .error ⟨8, .missingOperand⟩ := by cbv
  have haligned : 4 ∣ lookupFront.length := by decide
  obtain ⟨hjoin, hcounts⟩ :=
    (decode_join lookupFront tableBack _ (by decide) haligned hfront).1 _ hback
  have hfault := (decode_join lookupFront _ _ (by decide) haligned hfront).2 _ htorn
  exact ⟨hfront, hback, hjoin, hcounts frontMethod backMethod joinedMethod ⟨rfl, rfl⟩ ⟨rfl, rfl⟩
    ⟨rfl, rfl⟩, htorn, hfault⟩

end Code

end ClassMetrics
