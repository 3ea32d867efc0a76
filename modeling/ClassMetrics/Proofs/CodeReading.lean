import Mathlib.Tactic
import ClassMetrics.Proofs.CodeGrammar

/-!
The code reader meets the grammar of code arrays. One instruction is dealt with first: a spelling is
read as itself, and what is read as an instruction is spelled by one. Code arrays follow by
induction on their instructions.
-/

namespace ClassMetrics.Code

variable {offset : Nat}

@[simp]
theorem pairBytes_length (pair : Int32 × Int32) : (pairBytes pair).length = 8 := by
  simp [pairBytes]

theorem exists_pairBytes {block : Bytes} (h : block.length = 8) :
    ∃ pair, pairBytes pair = block := by
  obtain ⟨key, back, rfl⟩ := Bytes.exists_int32Bytes_append (show 4 ≤ block.length by omega)
  rw [List.length_append, Bytes.int32Bytes_length] at h
  obtain ⟨target, rfl⟩ := Bytes.exists_int32Bytes (show back.length = 4 by omega)
  exact ⟨(key, target), rfl⟩

theorem pairBytes_injective : Function.Injective pairBytes := by
  intro first second hsame
  obtain ⟨hkey, htarget⟩ := List.append_inj hsame (by simp)
  exact Prod.ext (Bytes.int32Bytes_injective hkey) (Bytes.int32Bytes_injective htarget)

/-- A word behind a filler is read there. -/
theorem operand_append (offset : Nat) (filler rest : Bytes) (number : Int32) :
    operand offset (filler ++ (Bytes.int32Bytes number ++ rest)) filler.length =
      .ok number.toInt := by
  rw [operand, List.drop_left, Bytes.int32?_int32Bytes]

theorem keys?_pairBytes (pairs : List (Int32 × Int32)) :
    keys? pairs.length (pairs.flatMap pairBytes) = some (pairs.map fun (key, _) => key.toInt) := by
  induction pairs with
  | nil => rfl
  | cons first others ih =>
      have hdrop : ((first :: others).flatMap pairBytes).drop 8 = others.flatMap pairBytes := by
        rw [List.flatMap_cons, List.drop_left' (pairBytes_length first)]
      rw [List.length_cons, keys?, hdrop, ih, List.flatMap_cons, pairBytes, List.append_assoc,
        Bytes.int32?_int32Bytes]
      rfl

theorem tableSwitchOperands_eq {filler : Bytes} {low high : Int32} (default : Int32) (rest : Bytes)
    (hfiller : filler.length = padding offset) (hlow : -1 ≤ high.toInt - low.toInt)
    (hhigh : high.toInt - low.toInt ≤ 2 ^ 31 - 2) :
    tableSwitchOperands offset (filler ++ (Bytes.int32Bytes default ++ (Bytes.int32Bytes low ++
        (Bytes.int32Bytes high ++ rest)))) =
      .ok (padding offset + 12 + 4 * (high.toInt - low.toInt + 1).toNat) := by
  have hreadLow := operand_append offset (filler ++ Bytes.int32Bytes default)
    (Bytes.int32Bytes high ++ rest) low
  have hreadHigh := operand_append offset
    (filler ++ Bytes.int32Bytes default ++ Bytes.int32Bytes low) rest high
  simp only [List.append_assoc, List.length_append, hfiller, Bytes.int32Bytes_length]
    at hreadLow hreadHigh
  have hrange : -1 ≤ high.toInt - low.toInt ∧ high.toInt - low.toInt + 1 < 0x80000000 := by omega
  simp only [tableSwitchOperands, hreadLow, hreadHigh, bind, Except.bind, hrange, and_self,
    if_true]
  rfl

/-- Behind the padding of a switch and some of its words stand the others. -/
theorem drop_padding {filler : Bytes} (hfiller : filler.length = padding offset)
    (words rest : Bytes) {size : Nat} (hwords : words.length = size) :
    (filler ++ (words ++ rest)).drop (padding offset + size) = rest := by
  rw [← List.append_assoc, List.drop_left' (by simp [hfiller, hwords])]

theorem lookupSwitchOperands_eq {filler : Bytes} {pairs : Nat} (default : Int32) (rest : Bytes)
    (hfiller : filler.length = padding offset) (hpairs : pairs < 2 ^ 31) :
    lookupSwitchOperands offset (filler ++ (Bytes.int32Bytes default ++
        (Bytes.bigEndianBytes 4 pairs ++ rest))) =
      .ok (padding offset + 8 + 8 * pairs) := by
  have hread : operand offset (filler ++ (Bytes.int32Bytes default ++
      (Bytes.bigEndianBytes 4 pairs ++ rest))) (padding offset + 4) = .ok (pairs : Int) := by
    rw [operand, drop_padding hfiller _ _ (Bytes.int32Bytes_length default),
      Bytes.int32?_bigEndianBytes hpairs]
  simp [lookupSwitchOperands, hread, bind, Except.bind, pure, Except.pure]

theorem kind?_tableSwitch {filler : Bytes} (hfiller : filler.length = padding offset)
    (default low high : Int32) (rest : Bytes) :
    kind? offset 0xaa (filler ++ (Bytes.int32Bytes default ++ (Bytes.int32Bytes low ++
        (Bytes.int32Bytes high ++ rest)))) =
      some (.tableSwitch low.toInt high.toInt) := by
  have hlow := drop_padding hfiller (Bytes.int32Bytes default)
    (Bytes.int32Bytes low ++ (Bytes.int32Bytes high ++ rest)) (Bytes.int32Bytes_length default)
  have hhigh := drop_padding hfiller (Bytes.int32Bytes default ++ Bytes.int32Bytes low)
    (Bytes.int32Bytes high ++ rest) (show _ = 8 by simp)
  rw [List.append_assoc] at hhigh
  change (do
    let low ← Bytes.int32? (List.drop (padding offset + 4) _)
    let high ← Bytes.int32? (List.drop (padding offset + 8) _)
    return InstructionKind.tableSwitch low high) = _
  rw [hlow, hhigh, Bytes.int32?_int32Bytes, Bytes.int32?_int32Bytes]
  rfl

theorem kind?_lookupSwitch {filler : Bytes} (hfiller : filler.length = padding offset)
    (default : Int32) {pairs : List (Int32 × Int32)} (hpairs : pairs.length < 2 ^ 31) :
    kind? offset 0xab (filler ++ (Bytes.int32Bytes default ++
        (Bytes.bigEndianBytes 4 pairs.length ++ pairs.flatMap pairBytes))) =
      some (.lookupSwitch (pairs.map fun (key, _) => key.toInt)) := by
  have hcount := drop_padding hfiller (Bytes.int32Bytes default)
    (Bytes.bigEndianBytes 4 pairs.length ++ pairs.flatMap pairBytes)
    (Bytes.int32Bytes_length default)
  have hkeys := drop_padding hfiller
    (Bytes.int32Bytes default ++ Bytes.bigEndianBytes 4 pairs.length)
    (pairs.flatMap pairBytes) (show _ = 8 by simp)
  rw [List.append_assoc] at hkeys
  change (do
    let count ← Bytes.int32? (List.drop (padding offset + 4) _)
    let keys ← keys? count.toNat (List.drop (padding offset + 8) _)
    return InstructionKind.lookupSwitch keys) = _
  rw [hcount, hkeys, Bytes.int32?_bigEndianBytes hpairs]
  change (do
    let keys ← keys? pairs.length _
    return InstructionKind.lookupSwitch keys) = _
  rw [keys?_pairBytes]
  rfl

namespace Spelling

/-- The operands of a spelling are as long as the reader expects, whatever follows them. -/
theorem operandCount_eq {spelling : Spelling} (h : spelling.WellFormed offset) (next : Bytes) :
    operandCount offset spelling.opcode (spelling.operands ++ next) =
      .ok spelling.operands.length := by
  cases spelling with
  | plain opcode operands =>
      obtain ⟨htable, hlookup, hwide⟩ := ne_of_plain h
      have hform : Opcode.form? opcode = some (.fixed operands.length) := by
        rw [form?_eq, if_neg htable, if_neg hlookup, if_neg hwide]
        simp [show plainOperands? opcode = some operands.length from h]
      simp [operandCount, Spelling.opcode, Spelling.operands, hform]
  | wideIncrement operands =>
      have hlength : operands.length = 4 := h
      simp [operandCount, Spelling.opcode, Spelling.operands, form?_eq, wideOperands, Opcode.iinc,
        hlength]
  | wide modified operands =>
      obtain ⟨hmodified, hlength⟩ : modified ≠ 0x84 ∧ operands.length = 2 := h
      simp [operandCount, Spelling.opcode, Spelling.operands, form?_eq, wideOperands, Opcode.iinc,
        hmodified, hlength]
  | tableSwitch filler default low high targets =>
      obtain ⟨hfiller, hlow, hhigh, htargets⟩ := h
      have hcount :=
        tableSwitchOperands_eq default (targets.flatMap Bytes.int32Bytes ++ next) hfiller
          hlow hhigh
      simp only [operandCount, Spelling.opcode, Spelling.operands, form?_eq, if_true,
        List.append_assoc, hcount, List.length_append, Bytes.int32Bytes_length,
        Bytes.flatMap_length Bytes.int32Bytes_length, ← htargets, hfiller]
      congr 1
      change padding offset + 12 + 4 * targets.length = padding offset + _
      omega
  | lookupSwitch filler default pairs =>
      obtain ⟨hfiller, hpairs⟩ := h
      have hcount :=
        lookupSwitchOperands_eq default (pairs.flatMap pairBytes ++ next) hfiller hpairs
      have hform : Opcode.form? 0xab = some .lookupSwitch := form?_eq 0xab
      simp only [operandCount, Spelling.opcode, Spelling.operands, hform, List.append_assoc, hcount,
        List.length_append, Bytes.int32Bytes_length, Bytes.bigEndianBytes_length,
        Bytes.flatMap_length pairBytes_length, hfiller]
      congr 1
      change padding offset + 8 + 8 * pairs.length = padding offset + _
      omega

/-- The reader takes a spelling for the kind that the grammar gives it. -/
theorem kind?_eq {spelling : Spelling} (h : spelling.WellFormed offset) :
    kind? offset spelling.opcode spelling.operands = some spelling.kind := by
  cases spelling with
  | plain opcode operands =>
      obtain ⟨htable, hlookup, hwide⟩ := ne_of_plain h
      by_cases hstore : opcode ∈ stores
      · have hlength : operands.length = 1 := by
          have hone := (plainOperands?_of_mem_stores hstore).symm.trans h
          exact (Option.some.inj hone).symm
        obtain ⟨index, rfl⟩ := List.length_eq_one_iff.1 hlength
        simp [kind?, Spelling.opcode, Spelling.operands, Spelling.kind, isStore_eq, hstore,
          Bytes.bigEndian]
      · simp only [Spelling.opcode, Spelling.operands, Spelling.kind, if_neg hstore]
        exact kind?_eq_of_not_mem_stores offset operands hstore htable hlookup hwide
  | wideIncrement operands => rfl
  | wide modified operands =>
      obtain ⟨hmodified, hlength⟩ : modified ≠ 0x84 ∧ operands.length = 2 := h
      obtain ⟨high, low, rfl⟩ := List.length_eq_two.1 hlength
      change (if Opcode.isStore modified then _ else _) = _
      simp only [isStore_eq, Spelling.kind]
      by_cases hstore : modified ∈ stores
      · simp [hstore, Bytes.word16?]
      · simp [hstore]
  | tableSwitch filler default low high targets =>
      exact kind?_tableSwitch h.1 default low high (targets.flatMap Bytes.int32Bytes)
  | lookupSwitch filler default pairs => exact kind?_lookupSwitch h.1 default h.2

/-- A spelling is read as one instruction, whatever follows it. -/
theorem readItem_eq {spelling : Spelling} (h : spelling.WellFormed offset) (next : Bytes) :
    readItem offset spelling.opcode (spelling.operands ++ next) =
      .ok ⟨⟨offset % 0x100000000, spelling.opcode, spelling.kind⟩, spelling.bytes.length,
        next⟩ := by
  have hsplit : Bytes.split? spelling.operands.length (spelling.operands ++ next) =
      some (spelling.operands, next) := Bytes.split?_eq_some_iff.2 ⟨rfl, rfl⟩
  simp only [readItem, operandCount_eq h, bind, Except.bind, hsplit, kind?_eq h, pure, Except.pure,
    bytes, List.length_cons, Nat.add_comm 1]

end Spelling

section Converse

theorem tableSwitchOperands_ok {rest : Bytes} {count : Nat}
    (h : tableSwitchOperands offset rest = .ok count) :
    ∃ low high, operand offset rest (padding offset + 4) = .ok low ∧
      operand offset rest (padding offset + 8) = .ok high ∧ -1 ≤ high - low ∧
      high - low ≤ 2 ^ 31 - 2 ∧ count = padding offset + 12 + 4 * (high - low + 1).toNat := by
  unfold tableSwitchOperands at h
  cases hlow : operand offset rest (padding offset + 4) with
  | error fault => simp [hlow, bind, Except.bind] at h
  | ok low =>
      cases hhigh : operand offset rest (padding offset + 8) with
      | error fault => simp [hlow, hhigh, bind, Except.bind] at h
      | ok high =>
          simp only [hlow, hhigh, bind, Except.bind] at h
          split at h
          · next hrange =>
              refine ⟨low, high, rfl, rfl, hrange.1, by omega, ?_⟩
              exact (Except.ok.inj h).symm
          · cases h

theorem lookupSwitchOperands_ok {rest : Bytes} {count : Nat}
    (h : lookupSwitchOperands offset rest = .ok count) :
    ∃ pairs : Nat, operand offset rest (padding offset + 4) = .ok (pairs : Int) ∧
      count = padding offset + 8 + 8 * pairs := by
  unfold lookupSwitchOperands at h
  cases hpairs : operand offset rest (padding offset + 4) with
  | error fault => simp [hpairs, bind, Except.bind] at h
  | ok pairs =>
      simp only [hpairs, bind, Except.bind] at h
      split at h
      · next hpositive =>
          obtain ⟨number, rfl⟩ := Int.eq_ofNat_of_zero_le hpositive
          exact ⟨number, rfl, (Except.ok.inj h).symm⟩
      · cases h

theorem exists_tableSwitch {operands next : Bytes} {count : Nat}
    (hcount : tableSwitchOperands offset (operands ++ next) = .ok count)
    (hlength : operands.length = count) :
    ∃ filler default low high targets,
      (Spelling.tableSwitch filler default low high targets).WellFormed offset ∧
        (Spelling.tableSwitch filler default low high targets).operands = operands := by
  obtain ⟨lowValue, highValue, hlow, hhigh, hmin, hmax, hsize⟩ := tableSwitchOperands_ok hcount
  obtain ⟨filler, back, rfl, hfiller⟩ := Bytes.exists_front
    (show padding offset ≤ operands.length by omega)
  rw [List.length_append, hfiller] at hlength
  obtain ⟨default, back, rfl⟩ := Bytes.exists_int32Bytes_append (show 4 ≤ back.length by omega)
  rw [List.length_append, Bytes.int32Bytes_length] at hlength
  obtain ⟨low, back, rfl⟩ := Bytes.exists_int32Bytes_append (show 4 ≤ back.length by omega)
  rw [List.length_append, Bytes.int32Bytes_length] at hlength
  obtain ⟨high, back, rfl⟩ := Bytes.exists_int32Bytes_append (show 4 ≤ back.length by omega)
  rw [List.length_append, Bytes.int32Bytes_length] at hlength
  obtain ⟨targets, htargets, rfl⟩ := Bytes.exists_flatMap
    (fun _ hblock => Bytes.exists_int32Bytes hblock)
    (show back.length = 4 * (highValue - lowValue + 1).toNat by omega)
  have hreadLow := operand_append offset (filler ++ Bytes.int32Bytes default)
    (Bytes.int32Bytes high ++ (targets.flatMap Bytes.int32Bytes ++ next)) low
  have hreadHigh := operand_append offset
    (filler ++ Bytes.int32Bytes default ++ Bytes.int32Bytes low)
    (targets.flatMap Bytes.int32Bytes ++ next) high
  simp only [List.append_assoc, List.length_append, hfiller, Bytes.int32Bytes_length]
    at hreadLow hreadHigh hlow hhigh
  obtain rfl : lowValue = low.toInt := Except.ok.inj (hlow.symm.trans hreadLow)
  obtain rfl : highValue = high.toInt := Except.ok.inj (hhigh.symm.trans hreadHigh)
  refine ⟨filler, default, low, high, targets, ⟨hfiller, hmin, hmax, ?_⟩, rfl⟩
  rw [htargets]
  omega

theorem exists_lookupSwitch {operands next : Bytes} {count : Nat}
    (hcount : lookupSwitchOperands offset (operands ++ next) = .ok count)
    (hlength : operands.length = count) :
    ∃ filler default pairs, (Spelling.lookupSwitch filler default pairs).WellFormed offset ∧
      (Spelling.lookupSwitch filler default pairs).operands = operands := by
  obtain ⟨pairCount, hpairs, hsize⟩ := lookupSwitchOperands_ok hcount
  obtain ⟨filler, back, rfl, hfiller⟩ := Bytes.exists_front
    (show padding offset ≤ operands.length by omega)
  rw [List.length_append, hfiller] at hlength
  obtain ⟨default, back, rfl⟩ := Bytes.exists_int32Bytes_append (show 4 ≤ back.length by omega)
  rw [List.length_append, Bytes.int32Bytes_length] at hlength
  obtain ⟨written, back, rfl⟩ := Bytes.exists_int32Bytes_append (show 4 ≤ back.length by omega)
  rw [List.length_append, Bytes.int32Bytes_length] at hlength
  obtain ⟨pairs, rfl, rfl⟩ := Bytes.exists_flatMap (fun _ hblock => exists_pairBytes hblock)
    (show back.length = 8 * pairCount by omega)
  have hread := operand_append offset (filler ++ Bytes.int32Bytes default)
    (pairs.flatMap pairBytes ++ next) written
  simp only [List.append_assoc, List.length_append, hfiller, Bytes.int32Bytes_length]
    at hread hpairs
  obtain ⟨hwritten, hbound⟩ := Bytes.int32Bytes_eq_of_toInt
    (Except.ok.inj (hread.symm.trans hpairs))
  refine ⟨filler, default, pairs, ⟨hfiller, hbound⟩, ?_⟩
  rw [Spelling.operands, hwritten]

/-- Bytes that have the length the reader expects are the operands of a spelling. -/
theorem exists_spelling {opcode : UInt8} {operands next : Bytes} {count : Nat}
    (hcount : operandCount offset opcode (operands ++ next) = .ok count)
    (hlength : operands.length = count) :
    ∃ spelling : Spelling, spelling.WellFormed offset ∧ spelling.opcode = opcode ∧
      spelling.operands = operands := by
  rw [operandCount, form?_eq] at hcount
  by_cases htable : opcode = 0xaa
  · subst htable
    obtain ⟨filler, default, low, high, targets, hwell, hoperands⟩ :=
      exists_tableSwitch hcount hlength
    exact ⟨_, hwell, rfl, hoperands⟩
  by_cases hlookup : opcode = 0xab
  · subst hlookup
    obtain ⟨filler, default, pairs, hwell, hoperands⟩ := exists_lookupSwitch hcount hlength
    exact ⟨_, hwell, rfl, hoperands⟩
  by_cases hwide : opcode = 0xc4
  · subst hwide
    change wideOperands offset (operands ++ next) = .ok count at hcount
    cases operands with
    | nil =>
        -- without operands the length would be 0, but a widened instruction has 3 or 5
        obtain rfl : 0 = count := hlength
        cases next with
        | nil => cases hcount
        | cons modified next =>
            have hzero := Except.ok.inj hcount
            split at hzero <;> omega
    | cons modified operands =>
        have hsize := Except.ok.inj hcount
        rw [List.length_cons] at hlength
        by_cases hmodified : modified = Opcode.iinc
        · subst hmodified
          have hfive : 5 = count := hsize
          exact ⟨.wideIncrement operands, show operands.length = 4 by omega, rfl, rfl⟩
        · have hthree : 3 = count := by
            rw [← hsize, if_neg hmodified]
          exact ⟨.wide modified operands, ⟨hmodified, by omega⟩, rfl, rfl⟩
  · simp only [if_neg htable, if_neg hlookup, if_neg hwide] at hcount
    cases hplain : plainOperands? opcode with
    | none => simp [hplain] at hcount
    | some size =>
        simp only [hplain, Option.map_some] at hcount
        obtain rfl : size = count := Except.ok.inj hcount
        exact ⟨.plain opcode operands, by simp [Spelling.WellFormed, hplain, hlength], rfl, rfl⟩

/-- What is read as an instruction is spelled by one, and is read as that. -/
theorem exists_spelling_of_readItem {opcode : UInt8} {rest : Bytes} {item : Item}
    (h : readItem offset opcode rest = .ok item) :
    ∃ spelling : Spelling, spelling.WellFormed offset ∧
      opcode :: rest = spelling.bytes ++ item.next ∧ item.length = spelling.bytes.length := by
  obtain ⟨operands, kind, hrest, hcount, -, hitem⟩ := readItem_ok h
  rw [hrest] at hcount
  obtain ⟨spelling, hwell, rfl, rfl⟩ := exists_spelling hcount rfl
  refine ⟨spelling, hwell, by rw [hrest]; rfl, ?_⟩
  rw [hitem, Spelling.bytes, List.length_cons, Nat.add_comm]

end Converse

theorem Spelling.bytes_length_pos (spelling : Spelling) : 0 < spelling.bytes.length := by
  simp [Spelling.bytes]

theorem trace_cons {opcode : UInt8} {rest : Bytes} {item : Item}
    (h : readItem offset opcode rest = .ok item) :
    trace offset (opcode :: rest) =
      ⟨item.instruction :: (trace (offset + item.length) item.next).instructions,
        (trace (offset + item.length) item.next).fault?⟩ := by
  rw [trace]
  split
  · next fault herror => rw [h] at herror; cases herror
  · next other hother =>
      obtain rfl : item = other := Except.ok.inj (h.symm.trans hother)
      rfl

/-- Spelled code is read without a fault. Offsets that fit in 32 bits are recorded as they are. -/
theorem trace_flatMap_bytes {spellings : List Spelling} (h : Placed offset spellings)
    (hbound : offset + (spellings.flatMap Spelling.bytes).length ≤ 2 ^ 32) :
    trace offset (spellings.flatMap Spelling.bytes) = ⟨records offset spellings, none⟩ := by
  induction spellings generalizing offset with
  | nil => simp [trace, records]
  | cons first others ih =>
      obtain ⟨hfirst, hothers⟩ := h
      have hpos := first.bytes_length_pos
      simp only [List.flatMap_cons, List.length_append] at hbound ⊢
      have hlater := ih hothers (by omega)
      have hoffset : offset % 0x100000000 = offset := Nat.mod_eq_of_lt (by omega)
      rw [Spelling.bytes, List.cons_append, trace_cons (first.readItem_eq hfirst _), hlater,
        hoffset, records]

/-- Code that is read without a fault is spelled. -/
theorem exists_spellings_of_trace {code : Bytes} (h : (trace offset code).fault? = none) :
    ∃ spellings, Placed offset spellings ∧ spellings.flatMap Spelling.bytes = code := by
  fun_induction trace offset code with
  | case1 offset => exact ⟨[], trivial, rfl⟩
  | case2 offset opcode rest fault hitem => cases h
  | case3 offset opcode rest item hitem later ih =>
      obtain ⟨spelling, hwell, hbytes, hlength⟩ := exists_spelling_of_readItem hitem
      obtain ⟨others, hothers, hnext⟩ := ih h
      rw [hlength] at hothers
      exact ⟨spelling :: others, ⟨hwell, hothers⟩, by rw [List.flatMap_cons, hnext, hbytes]⟩

namespace Spelling

theorem tableSwitch_inj {filler filler' : Bytes} {default default' low low' high high' : Int32}
    {targets targets' : List Int32}
    (hfirst : (tableSwitch filler default low high targets).WellFormed offset)
    (hsecond : (tableSwitch filler' default' low' high' targets').WellFormed offset)
    (hoperands : (tableSwitch filler default low high targets).operands =
      (tableSwitch filler' default' low' high' targets').operands) :
    tableSwitch filler default low high targets =
      tableSwitch filler' default' low' high' targets' := by
  obtain ⟨hfiller, -, -, htargets⟩ := hfirst
  obtain ⟨hfiller', -, -, htargets'⟩ := hsecond
  obtain ⟨rfl, hwords⟩ := List.append_inj hoperands (hfiller.trans hfiller'.symm)
  obtain ⟨hdefault, hbounds⟩ := List.append_inj hwords (by simp)
  obtain ⟨hlow, hupper⟩ := List.append_inj hbounds (by simp)
  obtain ⟨hhigh, hsame⟩ := List.append_inj hupper (by simp)
  obtain rfl := Bytes.int32Bytes_injective hdefault
  obtain rfl := Bytes.int32Bytes_injective hlow
  obtain rfl := Bytes.int32Bytes_injective hhigh
  rw [Bytes.flatMap_inj Bytes.int32Bytes_length Bytes.int32Bytes_injective (by omega) hsame]

theorem lookupSwitch_inj {filler filler' : Bytes} {default default' : Int32}
    {pairs pairs' : List (Int32 × Int32)}
    (hfirst : (lookupSwitch filler default pairs).WellFormed offset)
    (hsecond : (lookupSwitch filler' default' pairs').WellFormed offset)
    (hoperands : (lookupSwitch filler default pairs).operands =
      (lookupSwitch filler' default' pairs').operands) :
    lookupSwitch filler default pairs = lookupSwitch filler' default' pairs' := by
  obtain ⟨hfiller, hpairs⟩ := hfirst
  obtain ⟨hfiller', hpairs'⟩ := hsecond
  obtain ⟨rfl, hwords⟩ := List.append_inj hoperands (hfiller.trans hfiller'.symm)
  obtain ⟨hdefault, hcounted⟩ := List.append_inj hwords (by simp)
  obtain ⟨hcount, hsame⟩ := List.append_inj hcounted (by simp)
  obtain rfl := Bytes.int32Bytes_injective hdefault
  have hlength : pairs.length = pairs'.length := by
    have hvalue := congrArg Bytes.bigEndian hcount
    rwa [Bytes.bigEndian_bigEndianBytes (by omega),
      Bytes.bigEndian_bigEndianBytes (by omega)] at hvalue
  rw [Bytes.flatMap_inj pairBytes_length pairBytes_injective hlength hsame]

/-- At an offset, an instruction is known by its opcode and operands. -/
theorem eq_of_operands {first second : Spelling} (hfirst : first.WellFormed offset)
    (hsecond : second.WellFormed offset) (hopcode : first.opcode = second.opcode)
    (hoperands : first.operands = second.operands) : first = second := by
  cases first with
  | plain opcode operands =>
      obtain ⟨htable, hlookup, hwide⟩ := ne_of_plain hfirst
      cases second with
      | plain other others =>
          obtain rfl : opcode = other := hopcode
          obtain rfl : operands = others := hoperands
          rfl
      | wideIncrement others => exact absurd hopcode hwide
      | wide modified others => exact absurd hopcode hwide
      | tableSwitch => exact absurd hopcode htable
      | lookupSwitch => exact absurd hopcode hlookup
  | wideIncrement operands =>
      cases second with
      | plain other others => exact absurd hopcode.symm (ne_of_plain hsecond).2.2
      | wideIncrement others => rw [(List.cons.inj hoperands).2]
      | wide modified others => exact absurd (List.cons.inj hoperands).1.symm hsecond.1
      | tableSwitch => cases hopcode
      | lookupSwitch => cases hopcode
  | wide modified operands =>
      cases second with
      | plain other others => exact absurd hopcode.symm (ne_of_plain hsecond).2.2
      | wideIncrement others => exact absurd (List.cons.inj hoperands).1 hfirst.1
      | wide other others =>
          rw [(List.cons.inj hoperands).1, (List.cons.inj hoperands).2]
      | tableSwitch => cases hopcode
      | lookupSwitch => cases hopcode
  | tableSwitch filler default low high targets =>
      cases second with
      | plain other others => exact absurd hopcode.symm (ne_of_plain hsecond).1
      | wideIncrement others => cases hopcode
      | wide modified others => cases hopcode
      | tableSwitch => exact tableSwitch_inj hfirst hsecond hoperands
      | lookupSwitch => cases hopcode
  | lookupSwitch filler default pairs =>
      cases second with
      | plain other others => exact absurd hopcode.symm (ne_of_plain hsecond).2.1
      | wideIncrement others => cases hopcode
      | wide modified others => cases hopcode
      | tableSwitch => cases hopcode
      | lookupSwitch => exact lookupSwitch_inj hfirst hsecond hoperands

end Spelling

/-- Code is spelled in one way only: the first instruction is known by the bytes at the front,
whatever follows, and the others follow by induction. -/
theorem spellings_unique {first second : List Spelling} (hfirst : Placed offset first)
    (hsecond : Placed offset second)
    (h : first.flatMap Spelling.bytes = second.flatMap Spelling.bytes) : first = second := by
  induction first generalizing offset second with
  | nil =>
      cases second with
      | nil => rfl
      | cons other others => simp [Spelling.bytes] at h
  | cons spelling spellings ih =>
      cases second with
      | nil => simp [Spelling.bytes] at h
      | cons other others =>
          obtain ⟨hspelling, hspellings⟩ := hfirst
          obtain ⟨hother, hothers⟩ := hsecond
          rw [List.flatMap_cons, List.flatMap_cons, Spelling.bytes, Spelling.bytes,
            List.cons_append, List.cons_append] at h
          obtain ⟨hopcode, htail⟩ := List.cons.inj h
          have hcount := Spelling.operandCount_eq hspelling (spellings.flatMap Spelling.bytes)
          rw [hopcode, htail, Spelling.operandCount_eq hother] at hcount
          obtain ⟨hoperands, hrest⟩ := List.append_inj htail (Except.ok.inj hcount).symm
          obtain rfl := Spelling.eq_of_operands hspelling hother hopcode hoperands
          rw [ih hspellings hothers hrest]

/-- The reader accepts a code array exactly when instructions of the grammar spell it, records each
of them where it stands, and no other instructions spell the same array. -/
theorem decode_eq_ok_iff_assembles (code : Bytes) (hcode : code.length < 2 ^ 32) :
    (∀ instructions, decode code = .ok instructions ↔
      ∃ spellings, Assembles spellings code ∧ records 0 spellings = instructions) ∧
    ∀ spellings others, Assembles spellings code → Assembles others code → spellings = others := by
  constructor
  · intro instructions
    constructor
    · intro h
      rw [decode] at h
      cases hfault : (trace 0 code).fault? with
      | some fault => simp [hfault] at h
      | none =>
          obtain ⟨spellings, hplaced, rfl⟩ := exists_spellings_of_trace hfault
          rw [trace_flatMap_bytes hplaced (by omega)] at h
          exact ⟨spellings, ⟨hplaced, rfl⟩, Except.ok.inj h⟩
    · rintro ⟨spellings, ⟨hplaced, rfl⟩, rfl⟩
      rw [decode, trace_flatMap_bytes hplaced (by omega)]
  · intro spellings others hspellings hothers
    exact spellings_unique hspellings.placed hothers.placed
      (hspellings.bytes.trans hothers.bytes.symm)

/-- A widened store, both switches at their paddings, and a return. -/
def sampleSpellings : List Spelling :=
  [.wide 0x36 [0x01, 0x02], .tableSwitch [0, 0, 0] 24 (-1) 0 [24, 24],
    .lookupSwitch [0xff, 0xff, 0xff] 20 [(7, 20)], .plain 0xb1 []]

theorem decode_sampleSpellings :
    (sampleSpellings.flatMap Spelling.bytes).length < 2 ^ 32 ∧
      decode (sampleSpellings.flatMap Spelling.bytes) =
        .ok [⟨0, 0xc4, .store 0x0102⟩, ⟨4, 0xaa, .tableSwitch (-1) 0⟩,
          ⟨28, 0xab, .lookupSwitch [7]⟩, ⟨48, 0xb1, .other⟩] :=
  ⟨by decide, ((decode_eq_ok_iff_assembles _ (by decide)).1 _).2
    ⟨sampleSpellings, ⟨by decide, rfl⟩, by decide⟩⟩

end ClassMetrics.Code
