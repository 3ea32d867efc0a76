import Mathlib
import ClassMetrics.Proofs.InstructionStarts

/-!
The code reader, turn by turn. A reader stands at an offset and answers with the instruction there
or with a fault, which takes it to the end of the code. Main statement: the instructions answered
lie side by side from the start on; the first fault is the last answer, and it names the place where
the instructions end, or the word that is cut off behind a switch there.
-/

namespace ClassMetrics.Code

section Turns

/-- A reader on its way through a code array. -/
structure Reader where
  code : Bytes
  offset : Nat

namespace Reader

/-- What a reader answers when it is asked for the next instruction, and where it stands then. -/
def next (reader : Reader) : Option (Except CodeFault Instruction) × Reader :=
  match reader.code.drop reader.offset with
  | [] => (none, reader)
  | opcode :: rest =>
      match readItem reader.offset opcode rest with
      | .error fault => (some (.error fault), ⟨reader.code, reader.code.length⟩)
      | .ok item => (some (.ok item.instruction), ⟨reader.code, reader.offset + item.length⟩)

def advance (reader : Reader) : Reader :=
  reader.next.2

/-- The answer to a question that comes after the given number of others. -/
def answer (reader : Reader) (turn : Nat) : Option (Except CodeFault Instruction) :=
  (advance^[turn] reader).next.1

end Reader

/-- The answers that a trace stands for. -/
def Trace.answers (trace : Trace) : List (Except CodeFault Instruction) :=
  trace.instructions.map .ok ++ trace.fault?.toList.map .error

variable {offset : Nat} {opcode : UInt8} {rest : Bytes}

theorem trace_of_error {fault : CodeFault} (h : readItem offset opcode rest = .error fault) :
    trace offset (opcode :: rest) = ⟨[], some fault⟩ := by
  rw [trace]
  split
  · next other hother =>
      obtain rfl : fault = other := Except.error.inj (h.symm.trans hother)
      rfl
  · next item hitem => rw [h] at hitem; cases hitem

theorem length_of_drop {code : Bytes} (h : code.drop offset = opcode :: rest) :
    code.length = offset + 1 + rest.length := by
  have hlength := congrArg List.length h
  rw [List.length_drop, List.length_cons] at hlength
  omega

theorem length_of_readItem {item : Item} (h : readItem offset opcode rest = .ok item) :
    item.length + item.next.length = rest.length + 1 := by
  obtain ⟨operands, kind, hrest, -, -, hitem⟩ := readItem_ok h
  have hlength : item.length = 1 + operands.length := by rw [hitem]
  rw [hrest, hlength, List.length_append]
  omega

/-- Behind an instruction the code goes on where the instruction ends. -/
theorem drop_of_readItem {code : Bytes} {item : Item} (hcode : code.drop offset = opcode :: rest)
    (h : readItem offset opcode rest = .ok item) :
    code.drop (offset + item.length) = item.next := by
  obtain ⟨operands, kind, hrest, -, -, hitem⟩ := readItem_ok h
  rw [hitem, ← List.drop_drop, hcode, hrest, Nat.add_comm, List.drop_succ_cons, List.drop_left]

namespace Reader

/-- What is still to be answered. -/
def remaining (reader : Reader) : List (Except CodeFault Instruction) :=
  (trace reader.offset (reader.code.drop reader.offset)).answers

variable {reader : Reader}

theorem remaining_of_end (h : reader.code.drop reader.offset = []) : reader.remaining = [] := by
  rw [remaining, h, trace]
  rfl

/-- A turn takes the first of the answers that remain. -/
theorem next_takes_head (reader : Reader) :
    reader.next.1 = reader.remaining.head? ∧ reader.advance.remaining = reader.remaining.tail := by
  cases hcode : reader.code.drop reader.offset with
  | nil =>
      have hnext : reader.next = (none, reader) := by simp only [next, hcode]
      rw [advance, hnext, remaining_of_end hcode]
      exact ⟨rfl, rfl⟩
  | cons opcode rest =>
      cases hitem : readItem reader.offset opcode rest with
      | error fault =>
          have hnext : reader.next = (some (.error fault), ⟨reader.code, reader.code.length⟩) := by
            simp only [next, hcode, hitem]
          have hremaining : reader.remaining = [.error fault] := by
            rw [remaining, hcode, trace_of_error hitem]
            rfl
          rw [advance, hnext, hremaining]
          exact ⟨rfl, remaining_of_end List.drop_length⟩
      | ok item =>
          have hnext : reader.next =
              (some (.ok item.instruction), ⟨reader.code, reader.offset + item.length⟩) := by
            simp only [next, hcode, hitem]
          have hremaining : reader.remaining =
              .ok item.instruction :: (trace (reader.offset + item.length) item.next).answers := by
            rw [remaining, hcode, trace_cons hitem]
            rfl
          rw [advance, hnext, hremaining, ← drop_of_readItem hcode hitem]
          exact ⟨rfl, rfl⟩

theorem answer_eq (reader : Reader) (turn : Nat) :
    reader.answer turn = reader.remaining[turn]? := by
  induction turn generalizing reader with
  | zero => rw [answer, Function.iterate_zero_apply, reader.next_takes_head.1, List.head?_eq_getElem?]
  | succ turn ih =>
      calc
        reader.answer (turn + 1) = reader.advance.answer turn := by
          rw [answer, answer, Function.iterate_succ_apply]
        _ = reader.remaining.tail[turn]? := by rw [ih, reader.next_takes_head.2]
        _ = reader.remaining[turn + 1]? := List.getElem?_tail

end Reader

end Turns

section Extents

/-- The length of the instruction at an offset, or why it has none. -/
def opcodeLength? (code : Bytes) (offset : Nat) : Option (Except CodeFault Nat) :=
  (lengths 0 code)[offset]?.map Prod.snd

/-- Instructions that lie side by side, from the first of two offsets to the second. -/
def Tiles (code : Bytes) : Nat → List Instruction → Nat → Prop
  | start, [], stop => start = stop
  | start, record :: others, stop =>
      record.offset = start ∧ ∃ length > 0, opcodeLength? code start = some (.ok length) ∧
        Tiles code (start + length) others stop

/-- The instruction takes the byte at a place. -/
def TakesByte (code : Bytes) (record : Instruction) (place : Nat) : Prop :=
  ∃ length, opcodeLength? code record.offset = some (.ok length) ∧
    record.offset ≤ place ∧ place < record.offset + length

theorem getElem?_lengths (start : Nat) {code : Bytes} {offset : Nat} {opcode : UInt8} {rest : Bytes}
    (h : code.drop offset = opcode :: rest) :
    (lengths start code)[offset]? =
      some (padding (start + offset),
        (operandCount (start + offset) opcode rest).map (1 + ·)) := by
  induction code generalizing start offset with
  | nil => simp at h
  | cons first others ih =>
      cases offset with
      | zero =>
          obtain ⟨rfl, rfl⟩ := List.cons.inj h
          rfl
      | succ offset =>
          rw [lengths, List.getElem?_cons_succ, ih (start + 1) h, Nat.add_right_comm,
            Nat.add_assoc]

theorem opcodeLength?_eq {code : Bytes} {offset : Nat} {opcode : UInt8} {rest : Bytes}
    (h : code.drop offset = opcode :: rest) :
    opcodeLength? code offset = some ((operandCount offset opcode rest).map (1 + ·)) := by
  rw [opcodeLength?, getElem?_lengths 0 h, Nat.zero_add]
  rfl

theorem opcodeLength?_of_readItem {code : Bytes} {offset : Nat} {opcode : UInt8} {rest : Bytes}
    {item : Item} (hcode : code.drop offset = opcode :: rest)
    (h : readItem offset opcode rest = .ok item) :
    opcodeLength? code offset = some (.ok item.length) := by
  obtain ⟨operands, kind, -, hcount, -, hitem⟩ := readItem_ok h
  rw [opcodeLength?_eq hcode, hcount, hitem]
  rfl

namespace Tiles

variable {code : Bytes} {start stop place : Nat} {records : List Instruction}

theorem start_le (h : Tiles code start records stop) : ∀ record ∈ records, start ≤ record.offset := by
  induction records generalizing start with
  | nil => simp
  | cons first others ih =>
      obtain ⟨hfirst, length, -, -, hothers⟩ := h
      intro record hrecord
      rcases List.mem_cons.1 hrecord with rfl | hother
      · exact hfirst.ge
      · have hle := ih hothers record hother
        omega

/-- Every byte between the two offsets is taken by one of the instructions. -/
theorem existsUnique_takesByte (h : Tiles code start records stop) (hstart : start ≤ place)
    (hstop : place < stop) : ∃! record, record ∈ records ∧ TakesByte code record place := by
  induction records generalizing start with
  | nil =>
      have hsame : start = stop := h
      omega
  | cons first others ih =>
      obtain ⟨hfirst, length, -, hlength, hothers⟩ := h
      subst hfirst
      by_cases hinside : place < first.offset + length
      · refine ⟨first, ⟨List.mem_cons_self, length, hlength, hstart, hinside⟩, ?_⟩
        rintro record ⟨hrecord, -, -, hbefore, -⟩
        rcases List.mem_cons.1 hrecord with rfl | hother
        · rfl
        · have hle := hothers.start_le record hother
          omega
      · obtain ⟨found, ⟨hfound, htakes⟩, hunique⟩ := ih hothers (by omega)
        refine ⟨found, ⟨List.mem_cons_of_mem _ hfound, htakes⟩, ?_⟩
        rintro record ⟨hrecord, htaken⟩
        rcases List.mem_cons.1 hrecord with rfl | hother
        · obtain ⟨size, hsize, -, hbehind⟩ := htaken
          rw [hlength, Option.some.injEq, Except.ok.injEq] at hsize
          omega
        · exact hunique record ⟨hother, htaken⟩

end Tiles

/-- What is read lies side by side, up to the end of the code or to a place where nothing can be
read. -/
theorem exists_reach {code : Bytes} (hcode : code.length ≤ 2 ^ 32) (offset : Nat)
    (hoffset : offset ≤ code.length) :
    ∃ reach ≤ code.length, Tiles code offset (trace offset (code.drop offset)).instructions reach ∧
      ((trace offset (code.drop offset)).fault? = none ∧ reach = code.length ∨
        ∃ opcode rest fault, code.drop reach = opcode :: rest ∧
          readItem reach opcode rest = .error fault ∧
          (trace offset (code.drop offset)).fault? = some fault) := by
  generalize hbytes : code.drop offset = bytes
  fun_induction trace offset bytes with
  | case1 offset =>
      have hend := List.drop_eq_nil_iff.1 hbytes
      exact ⟨offset, hoffset, rfl, Or.inl ⟨rfl, by omega⟩⟩
  | case2 offset opcode rest fault hitem =>
      exact ⟨offset, hoffset, rfl, Or.inr ⟨opcode, rest, fault, hbytes, hitem, rfl⟩⟩
  | case3 offset opcode rest item hitem later ih =>
      obtain ⟨operands, kind, -, -, -, hparts⟩ := readItem_ok hitem
      have hlength : item.length = 1 + operands.length := by rw [hparts]
      have hsize := length_of_readItem hitem
      have hrest := length_of_drop hbytes
      have hstart : item.instruction.offset = offset := by
        rw [hparts]
        exact Nat.mod_eq_of_lt (by omega)
      obtain ⟨reach, hreach, htiles, hends⟩ := ih (by omega) (drop_of_readItem hbytes hitem)
      have htile := opcodeLength?_of_readItem hbytes hitem
      exact ⟨reach, hreach, ⟨hstart, item.length, by omega, htile, htiles⟩, hends⟩

end Extents

section Faults

/-- Where the words stand that say how long the switch at an offset is: the bounds of a jump table,
or the number of pairs of a key lookup. -/
def switchWords (code : Bytes) (offset : Nat) : List Nat :=
  if code[offset]? = some Opcode.tableSwitch then [aligned offset + 4, aligned offset + 8]
  else if code[offset]? = some Opcode.lookupSwitch then [aligned offset + 4]
  else []

/-- The first of these words of which a byte is missing. -/
def cutWord? (code : Bytes) (offset : Nat) : Option Nat :=
  (switchWords code offset).find? fun place => code.length < place + 4

theorem aligned_eq_padding (offset : Nat) : aligned offset = offset + 1 + padding offset := by
  rw [aligned, padding]
  omega

theorem cutWord?_bounds {code : Bytes} {offset place : Nat} (h : cutWord? code offset = some place) :
    offset < place ∧ place ≤ offset + 12 := by
  have hplace := List.mem_of_find?_eq_some h
  have haligned : offset < aligned offset ∧ aligned offset ≤ offset + 4 := by
    rw [aligned]
    omega
  rw [switchWords] at hplace
  split at hplace
  · simp only [List.mem_cons, List.not_mem_nil, or_false] at hplace
    omega
  · split at hplace
    · simp only [List.mem_cons, List.not_mem_nil, or_false] at hplace
      omega
    · cases hplace

variable {offset skip : Nat} {opcode : UInt8} {rest : Bytes}

theorem int32?_eq_none {bytes : Bytes} (h : bytes.length < 4) : Bytes.int32? bytes = none := by
  rw [Bytes.int32?.eq_def]
  split
  · simp only [List.length_cons] at h
    omega
  · rfl

theorem operand_of_cut (h : rest.length < skip + 4) :
    operand offset rest skip = .error ⟨offset + 1 + skip, .missingOperand⟩ := by
  have hshort : (rest.drop skip).length < 4 := by
    rw [List.length_drop]
    omega
  rw [operand, int32?_eq_none hshort]

theorem exists_operand (offset : Nat) (h : skip + 4 ≤ rest.length) :
    ∃ value, operand offset rest skip = .ok value := by
  have hlong : 4 ≤ (rest.drop skip).length := by
    rw [List.length_drop]
    omega
  obtain ⟨number, back, hwords⟩ := Bytes.exists_int32Bytes_append hlong
  exact ⟨number.toInt, by rw [operand, hwords, Bytes.int32?_int32Bytes]⟩

section Place

variable {code : Bytes}

theorem getElem?_of_drop (h : code.drop offset = opcode :: rest) : code[offset]? = some opcode := by
  rw [← List.head?_drop, h]
  rfl

/-- Whether a word is cut off can be told from the number of bytes behind the switch. -/
theorem cutWord?_eq (h : code.drop offset = opcode :: rest) :
    cutWord? code offset =
      if opcode = Opcode.tableSwitch then
        if rest.length < padding offset + 4 + 4 then some (offset + 1 + (padding offset + 4))
        else if rest.length < padding offset + 8 + 4 then some (offset + 1 + (padding offset + 8))
        else none
      else if opcode = Opcode.lookupSwitch then
        if rest.length < padding offset + 4 + 4 then some (offset + 1 + (padding offset + 4))
        else none
      else none := by
  have hsize := length_of_drop h
  have hcut (size : Nat) :
      code.length < aligned offset + size + 4 ↔ rest.length < padding offset + size + 4 := by
    rw [aligned_eq_padding]
    omega
  have hplace (size : Nat) : aligned offset + size = offset + 1 + (padding offset + size) := by
    rw [aligned_eq_padding, Nat.add_assoc]
  simp only [cutWord?, switchWords, getElem?_of_drop h, Option.some.injEq]
  split
  · simp only [List.find?_cons, hcut, List.find?_nil]
    by_cases hlow : rest.length < padding offset + 4 + 4
    · simp only [hlow, decide_true, if_true, hplace]
    · by_cases hhigh : rest.length < padding offset + 8 + 4
      · simp only [hlow, hhigh, decide_true, decide_false, if_true, if_false, hplace]
      · simp only [hlow, hhigh, decide_false, if_false]
  · split
    · simp only [List.find?_cons, hcut, List.find?_nil]
      by_cases hlow : rest.length < padding offset + 4 + 4
      · simp only [hlow, decide_true, if_true, hplace]
      · simp only [hlow, decide_false, if_false]
    · rfl

/-- A switch with a word cut off has no length. -/
theorem operandCount_of_cut {place : Nat} (hcode : code.drop offset = opcode :: rest)
    (h : cutWord? code offset = some place) :
    operandCount offset opcode rest = .error ⟨place, .missingOperand⟩ := by
  rw [cutWord?_eq hcode] at h
  split at h
  · next htable =>
      subst htable
      change tableSwitchOperands offset rest = _
      rw [tableSwitchOperands]
      split at h
      · next hcut =>
          obtain rfl := Option.some.inj h
          rw [operand_of_cut hcut]
          rfl
      · next hlow =>
          split at h
          · next hcut =>
              obtain rfl := Option.some.inj h
              obtain ⟨low, hread⟩ := exists_operand offset (Nat.le_of_not_lt hlow)
              rw [hread, operand_of_cut hcut]
              rfl
          · cases h
  · split at h
    · next hlookup =>
        subst hlookup
        change lookupSwitchOperands offset rest = _
        rw [lookupSwitchOperands]
        split at h
        · next hcut =>
            obtain rfl := Option.some.inj h
            rw [operand_of_cut hcut]
            rfl
        · cases h
    · cases h

theorem tableSwitchOperands_error {fault : CodeFault} (hlow : padding offset + 4 + 4 ≤ rest.length)
    (hhigh : padding offset + 8 + 4 ≤ rest.length)
    (h : tableSwitchOperands offset rest = .error fault) : fault.offset = offset := by
  obtain ⟨low, hreadLow⟩ := exists_operand offset hlow
  obtain ⟨high, hreadHigh⟩ := exists_operand offset hhigh
  simp only [tableSwitchOperands, hreadLow, hreadHigh, bind, Except.bind] at h
  split at h
  · cases h
  · cases h
    rfl

theorem lookupSwitchOperands_error {fault : CodeFault}
    (hlong : padding offset + 4 + 4 ≤ rest.length)
    (h : lookupSwitchOperands offset rest = .error fault) : fault.offset = offset := by
  obtain ⟨pairs, hread⟩ := exists_operand offset hlong
  simp only [lookupSwitchOperands, hread, bind, Except.bind] at h
  split at h
  · cases h
  · cases h
    rfl

/-- Where no word is cut off, a fault in the length is that of the opcode. -/
theorem offset_of_operandCount {fault : CodeFault} (hcode : code.drop offset = opcode :: rest)
    (hwhole : cutWord? code offset = none) (h : operandCount offset opcode rest = .error fault) :
    fault.offset = offset := by
  rw [cutWord?_eq hcode] at hwhole
  rw [operandCount] at h
  by_cases htable : opcode = Opcode.tableSwitch
  · subst htable
    rw [if_pos rfl] at hwhole
    split at hwhole
    · cases hwhole
    · next hlow =>
        split at hwhole
        · cases hwhole
        · next hhigh =>
            exact tableSwitchOperands_error (Nat.le_of_not_lt hlow) (Nat.le_of_not_lt hhigh) h
  by_cases hlookup : opcode = Opcode.lookupSwitch
  · subst hlookup
    rw [if_neg htable, if_pos rfl] at hwhole
    split at hwhole
    · cases hwhole
    · next hlong => exact lookupSwitchOperands_error (Nat.le_of_not_lt hlong) h
  by_cases hwide : opcode = Opcode.wide
  · subst hwide
    change wideOperands offset rest = .error fault at h
    cases rest with
    | nil =>
        cases h
        rfl
    | cons modified others => cases h
  · have hform : Opcode.form? opcode = (plainOperands? opcode).map .fixed := by
      rw [form?_eq, if_neg (show opcode ≠ 0xaa from htable),
        if_neg (show opcode ≠ 0xab from hlookup), if_neg (show opcode ≠ 0xc4 from hwide)]
    rw [hform] at h
    cases hplain : plainOperands? opcode with
    | none =>
        rw [hplain] at h
        cases h
        rfl
    | some count =>
        rw [hplain] at h
        cases h

/-- A fault names the place where the instruction should start, or the word that is cut off. -/
theorem offset_of_readItem {fault : CodeFault} (hcode : code.drop offset = opcode :: rest)
    (h : readItem offset opcode rest = .error fault) :
    fault.offset = (cutWord? code offset).getD offset := by
  cases hcut : cutWord? code offset with
  | some place =>
      rw [readItem, operandCount_of_cut hcode hcut] at h
      cases h
      rfl
  | none =>
      rw [readItem] at h
      cases hcount : operandCount offset opcode rest with
      | error other =>
          rw [hcount] at h
          cases h
          exact offset_of_operandCount hcode hcut hcount
      | ok count =>
          simp only [hcount, bind, Except.bind] at h
          split at h
          · cases h
            rfl
          · split at h
            · cases h
              rfl
            · cases h

end Place

end Faults

/-- How a code array is read, turn by turn: what the answers are, how far the instructions among them
reach, and which place a fault names. -/
structure Reads (code : Bytes) (read : Trace) (reach : Nat) : Prop where
  answers : ∀ turn, Reader.answer ⟨code, 0⟩ turn = read.answers[turn]?
  bounded : reach ≤ code.length
  tiles : Tiles code 0 read.instructions reach
  covers : ∀ place < reach, ∃! record, record ∈ read.instructions ∧ TakesByte code record place
  ended : read.fault? = none ↔ reach = code.length
  decoded : decode code = read.fault?.elim (.ok read.instructions) .error
  place : ∀ fault, read.fault? = some fault → fault.offset = (cutWord? code reach).getD reach
  behind : ∀ word, cutWord? code reach = some word → reach < word ∧ word ≤ reach + 12

/-- A code array is read instruction by instruction from its start on, to its end or to the first
place where nothing can be read, which the only fault names. -/
theorem exists_reads (code : Bytes) (hcode : code.length < 2 ^ 32) :
    ∃ reach, Reads code (trace 0 code) reach := by
  obtain ⟨reach, hreach, htiles, hends⟩ := exists_reach hcode.le 0 (Nat.zero_le _)
  rw [List.drop_zero] at htiles hends
  refine ⟨reach, ?_⟩
  constructor
  case answers => exact Reader.answer_eq ⟨code, 0⟩
  case bounded => exact hreach
  case tiles => exact htiles
  case covers =>
    intro place hplace
    exact htiles.existsUnique_takesByte (Nat.zero_le _) hplace
  case ended =>
    rcases hends with ⟨hnone, hend⟩ | ⟨opcode, rest, fault, hrest, -, hfault⟩
    · simp [hnone, hend]
    · have hlength := length_of_drop hrest
      simp only [hfault, reduceCtorEq, false_iff]
      omega
  case decoded =>
    rw [decode]
    cases (trace 0 code).fault? <;> rfl
  case place =>
    intro fault hfault
    rcases hends with ⟨hnone, -⟩ | ⟨opcode, rest, other, hrest, hitem, hother⟩
    · rw [hnone] at hfault
      cases hfault
    · rw [hfault] at hother
      cases hother
      exact offset_of_readItem hrest hitem
  case behind =>
    intro word hword
    exact cutWord?_bounds hword

/-- A jump table behind one other instruction, cut off inside its upper bound. -/
def tornSwitch : Bytes :=
  [0x00, 0xaa, 0, 0, 0, 0, 0, 24, 0, 0, 0, 1, 0, 0]

theorem reads_tornSwitch :
    tornSwitch.length < 2 ^ 32 ∧
      Reads tornSwitch ⟨[⟨0, 0x00, .other⟩], some ⟨12, .missingOperand⟩⟩ 1 := by
  have hsmall : tornSwitch.length < 2 ^ 32 := by decide
  have htrace : trace 0 tornSwitch = ⟨[⟨0, 0x00, .other⟩], some ⟨12, .missingOperand⟩⟩ := by cbv
  obtain ⟨reach, hreads⟩ := exists_reads tornSwitch hsmall
  rw [htrace] at hreads
  obtain ⟨-, length, -, hlength, hreach⟩ := hreads.tiles
  have hone : opcodeLength? tornSwitch 0 = some (.ok 1) := by cbv
  obtain rfl : 1 = length := by
    rw [hone] at hlength
    exact Except.ok.inj (Option.some.inj hlength)
  obtain rfl : 1 = reach := hreach
  exact ⟨hsmall, hreads⟩

end ClassMetrics.Code
