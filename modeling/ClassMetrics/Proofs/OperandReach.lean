import Mathlib
import ClassMetrics.Proofs.ReaderTurns

/-!
Which bytes of a code array an instruction is read from. The kind of an instruction is stated once
more over the whole array, by places, with a record of the places that are looked at. Main
statement: an instruction can be read at an offset exactly if the length that its first bytes
announce fits in the array; then every place that is looked at lies within that length, and the
bytes in front of it and behind it play no part.
-/

namespace ClassMetrics.Code

section Probing

/-- A reading by places: which places are looked at, and what is found, which is nothing once a
place does not exist. -/
structure Probe (α : Type) where
  places : List Nat
  value? : Option α

namespace Probe

variable {α β : Type}

def bind (probe : Probe α) (next : α → Probe β) : Probe β :=
  match probe.value? with
  | none => ⟨probe.places, none⟩
  | some value => ⟨probe.places ++ (next value).places, (next value).value?⟩

instance : Monad Probe where
  pure value := ⟨[], some value⟩
  bind := bind

/-- A value is found, and no place outside the given ones is looked at for it. -/
structure Finds (probe : Probe α) (value : α) (first last : Nat) : Prop where
  found : probe.value? = some value
  inside : ∀ place ∈ probe.places, first ≤ place ∧ place < last

variable {first last : Nat}

theorem finds_pure (value : α) (first last : Nat) :
    (pure value : Probe α).Finds value first last :=
  ⟨rfl, fun _ hplace => absurd hplace List.not_mem_nil⟩

theorem Finds.bind {probe : Probe α} {next : α → Probe β} {value : α} {result : β}
    (hprobe : probe.Finds value first last) (hnext : (next value).Finds result first last) :
    (probe >>= next).Finds result first last := by
  have hbind : probe >>= next = ⟨probe.places ++ (next value).places, (next value).value?⟩ := by
    change Probe.bind probe next = _
    rw [Probe.bind, hprobe.found]
  rw [hbind]
  constructor
  case found => exact hnext.found
  case inside =>
    intro place hplace
    rcases List.mem_append.1 hplace with hold | hnew
    · exact hprobe.inside place hold
    · exact hnext.inside place hnew

end Probe

variable (code : Bytes)

def byteAt (place : Nat) : Probe UInt8 :=
  ⟨[place], code[place]?⟩

/-- The unsigned word of two bytes at a place. -/
def shortAt (place : Nat) : Probe Nat := do
  let high ← byteAt code place
  let low ← byteAt code (place + 1)
  return Bytes.bigEndian [high, low]

/-- The signed word of four bytes at a place. -/
def signedAt (place : Nat) : Probe Int := do
  let first ← byteAt code place
  let second ← byteAt code (place + 1)
  let third ← byteAt code (place + 2)
  let fourth ← byteAt code (place + 3)
  return Bytes.signed32 (Bytes.bigEndian [first, second, third, fourth])

/-- The keys of a number of pairs, the first of which stands at a place. -/
def keysAt (place : Nat) : Nat → Probe (List Int)
  | 0 => return []
  | count + 1 => do
      let key ← signedAt code place
      let others ← keysAt (place + 8) count
      return key :: others

/-- The kind of an instruction with this opcode at this offset. The array is read wherever the
opcode asks for it, without regard to where the instruction or the array ends. -/
def operandKindAt (offset : Nat) (opcode : UInt8) : Probe InstructionKind :=
  if opcode ∈ stores then do
    let index ← byteAt code (offset + 1)
    return .store index.toNat
  else if opcode = 0xaa then do
    let low ← signedAt code (aligned offset + 4)
    let high ← signedAt code (aligned offset + 8)
    return .tableSwitch low high
  else if opcode = 0xab then do
    let pairs ← signedAt code (aligned offset + 4)
    let keys ← keysAt code (aligned offset + 8) pairs.toNat
    return .lookupSwitch keys
  else if opcode = 0xc4 then do
    let modified ← byteAt code (offset + 1)
    if modified ∈ stores then
      let index ← shortAt code (offset + 2)
      return .store index
    else return .other
  else return (plainKinds.lookup opcode).getD .other

def kindAt (offset : Nat) : Probe InstructionKind := do
  let opcode ← byteAt code offset
  operandKindAt code offset opcode

end Probing

section Places

variable {code rest : Bytes} {place first last : Nat}

theorem byteAt_finds {byte : UInt8} (h : code.drop place = byte :: rest) (hfirst : first ≤ place)
    (hlast : place < last) : (byteAt code place).Finds byte first last := by
  constructor
  case found => exact getElem?_of_drop h
  case inside =>
    intro other hother
    obtain rfl : other = place := by simpa [byteAt] using hother
    exact ⟨hfirst, hlast⟩

theorem drop_succ {byte : UInt8} (h : code.drop place = byte :: rest) :
    code.drop (place + 1) = rest := by
  rw [← List.drop_drop, h, List.drop_succ_cons, List.drop_zero]

theorem shortAt_finds {high low : UInt8} (h : code.drop place = high :: low :: rest)
    (hfirst : first ≤ place) (hlast : place + 2 ≤ last) :
    (shortAt code place).Finds (Bytes.bigEndian [high, low]) first last := by
  apply (byteAt_finds h hfirst (by omega)).bind
  apply (byteAt_finds (drop_succ h) (by omega) (by omega)).bind
  exact Probe.finds_pure _ first last

theorem signedAt_finds {number : Int32} (h : code.drop place = Bytes.int32Bytes number ++ rest)
    (hfirst : first ≤ place) (hlast : place + 4 ≤ last) :
    (signedAt code place).Finds number.toInt first last := by
  have hread := Bytes.int32?_int32Bytes number rest
  obtain ⟨a, b, c, d, hword⟩ : ∃ a b c d, Bytes.int32Bytes number = [a, b, c, d] :=
    List.length_eq_four.1 (Bytes.int32Bytes_length number)
  rw [hword] at h hread
  rw [← show Bytes.signed32 (Bytes.bigEndian [a, b, c, d]) = number.toInt from
    Option.some.inj hread]
  have hsecond := drop_succ h
  have hthird := drop_succ hsecond
  have hfourth := drop_succ hthird
  apply (byteAt_finds h hfirst (by omega)).bind
  apply (byteAt_finds hsecond (by omega) (by omega)).bind
  apply (byteAt_finds hthird (by omega) (by omega)).bind
  apply (byteAt_finds hfourth (by omega) (by omega)).bind
  exact Probe.finds_pure _ first last

/-- A count below 2^31 is found as the signed word that it is written as. -/
theorem countAt_finds {count : Nat} (hcount : count < 2 ^ 31)
    (h : code.drop place = Bytes.bigEndianBytes 4 count ++ rest) (hfirst : first ≤ place)
    (hlast : place + 4 ≤ last) : (signedAt code place).Finds (count : Int) first last := by
  obtain ⟨number, hnumber⟩ := Bytes.exists_int32Bytes (Bytes.bigEndianBytes_length 4 count)
  have hvalue : (count : Int) = number.toInt := by
    apply Option.some.inj
    rw [← Bytes.int32?_bigEndianBytes hcount rest, ← hnumber, Bytes.int32?_int32Bytes]
  rw [hvalue]
  exact signedAt_finds (hnumber ▸ h) hfirst hlast

theorem keysAt_finds {pairs : List (Int32 × Int32)}
    (h : code.drop place = pairs.flatMap pairBytes ++ rest) (hfirst : first ≤ place)
    (hlast : place + 8 * pairs.length ≤ last) :
    (keysAt code place pairs.length).Finds (pairs.map fun (key, _) => key.toInt) first last := by
  induction pairs generalizing place with
  | nil => exact Probe.finds_pure _ first last
  | cons pair others ih =>
      rw [List.length_cons] at hlast
      have hkey : code.drop place = Bytes.int32Bytes pair.1 ++
          (Bytes.int32Bytes pair.2 ++ (others.flatMap pairBytes ++ rest)) := by
        rw [h, List.flatMap_cons, pairBytes, List.append_assoc, List.append_assoc]
      have hothers : code.drop (place + 8) = others.flatMap pairBytes ++ rest := by
        rw [← List.drop_drop, h, List.flatMap_cons, List.append_assoc,
          List.drop_left' (pairBytes_length pair)]
      apply (signedAt_finds hkey hfirst (by omega)).bind
      apply (ih hothers (by omega) (by omega)).bind
      exact Probe.finds_pure _ first last

end Places

section Instructions

variable {code after : Bytes} {offset last : Nat}

theorem plain_kind_finds {opcode : UInt8} {operands : Bytes}
    (h : plainOperands? opcode = some operands.length)
    (hoperands : code.drop (offset + 1) = operands ++ after)
    (hlast : offset + 1 + operands.length ≤ last) :
    (operandKindAt code offset opcode).Finds (Spelling.plain opcode operands).kind offset last := by
  rw [operandKindAt, Spelling.kind]
  by_cases hstore : opcode ∈ stores
  · have hlength : 1 = operands.length :=
      Option.some.inj ((plainOperands?_of_mem_stores hstore).symm.trans h)
    obtain ⟨index, rfl⟩ := List.length_eq_one_iff.1 hlength.symm
    have hindex : Bytes.bigEndian [index] = index.toNat := by simp [Bytes.bigEndian]
    rw [if_pos hstore, if_pos hstore, hindex]
    apply (byteAt_finds hoperands (by omega) (by omega)).bind
    exact Probe.finds_pure _ _ _
  · obtain ⟨htable, hlookup, hwide⟩ := ne_of_plain h
    rw [if_neg hstore, if_neg hstore, if_neg htable, if_neg hlookup, if_neg hwide]
    exact Probe.finds_pure _ _ _

theorem wide_kind_finds {modified : UInt8} {operands : Bytes} (hlength : operands.length = 2)
    (hoperands : code.drop (offset + 1) = modified :: (operands ++ after))
    (hlast : offset + 4 ≤ last) :
    (operandKindAt code offset 0xc4).Finds (Spelling.wide modified operands).kind offset last := by
  obtain ⟨high, low, rfl⟩ := List.length_eq_two.1 hlength
  rw [operandKindAt, Spelling.kind]
  apply (byteAt_finds hoperands (by omega) (by omega)).bind
  by_cases hstore : modified ∈ stores
  · rw [if_pos hstore, if_pos hstore]
    apply (shortAt_finds (drop_succ hoperands) (by omega) (by omega)).bind
    exact Probe.finds_pure _ _ _
  · rw [if_neg hstore, if_neg hstore]
    exact Probe.finds_pure _ _ _

/-- The kind of an instruction is found within its bytes. -/
theorem Spelling.kindAt_finds {spelling : Spelling} {before : Bytes}
    (h : spelling.WellFormed before.length) (after : Bytes) :
    (kindAt (before ++ (spelling.bytes ++ after)) before.length).Finds spelling.kind before.length
      (before.length + spelling.bytes.length) := by
  have hpos := spelling.bytes_length_pos
  have hstart : (before ++ (spelling.bytes ++ after)).drop before.length =
      spelling.opcode :: (spelling.operands ++ after) := by
    rw [List.drop_left, Spelling.bytes, List.cons_append]
  have hsecond := drop_succ hstart
  apply (byteAt_finds hstart (Nat.le_refl _) (by omega)).bind
  have hsize : spelling.bytes.length = 1 + spelling.operands.length := by
    rw [Spelling.bytes, List.length_cons, Nat.add_comm]
  rw [hsize, ← Nat.add_assoc]
  cases spelling with
  | plain opcode operands => exact plain_kind_finds h hsecond (Nat.le_refl _)
  | wideIncrement operands =>
      apply (byteAt_finds hsecond (by omega) (by simp [Spelling.operands])).bind
      exact Probe.finds_pure _ _ _
  | wide modified operands =>
      obtain ⟨-, hlength⟩ := h
      exact wide_kind_finds hlength hsecond (by simp [Spelling.operands, hlength])
  | tableSwitch filler default low high targets =>
      obtain ⟨hfiller, -⟩ := h
      have hplace := aligned_eq hfiller
      have hlow := drop_aligned hfiller 0xaa (Bytes.int32Bytes default)
        (Bytes.int32Bytes low ++ (Bytes.int32Bytes high ++
          (targets.flatMap Bytes.int32Bytes ++ after))) (Bytes.int32Bytes_length default)
      have hhigh := drop_aligned hfiller 0xaa (Bytes.int32Bytes default ++ Bytes.int32Bytes low)
        (Bytes.int32Bytes high ++ (targets.flatMap Bytes.int32Bytes ++ after))
        (show _ = 8 by simp)
      simp only [Spelling.bytes, Spelling.opcode, Spelling.operands, List.cons_append,
        List.append_assoc, List.length_append, Bytes.int32Bytes_length] at hlow hhigh ⊢
      apply (signedAt_finds hlow (by omega) (by omega)).bind
      apply (signedAt_finds hhigh (by omega) (by omega)).bind
      exact Probe.finds_pure _ _ _
  | lookupSwitch filler default pairs =>
      obtain ⟨hfiller, hpairs⟩ := h
      have hplace := aligned_eq hfiller
      have hcount := Bytes.flatMap_length pairBytes_length pairs
      have hword := drop_aligned hfiller 0xab (Bytes.int32Bytes default)
        (Bytes.bigEndianBytes 4 pairs.length ++ (pairs.flatMap pairBytes ++ after))
        (Bytes.int32Bytes_length default)
      have hkeys := drop_aligned hfiller 0xab
        (Bytes.int32Bytes default ++ Bytes.bigEndianBytes 4 pairs.length)
        (pairs.flatMap pairBytes ++ after) (show _ = 8 by simp)
      simp only [Spelling.bytes, Spelling.opcode, Spelling.operands, List.cons_append,
        List.append_assoc, List.length_append, Bytes.int32Bytes_length,
        Bytes.bigEndianBytes_length, hcount] at hword hkeys ⊢
      apply (countAt_finds hpairs hword (by omega) (by omega)).bind
      apply (keysAt_finds hkeys (by omega) (by omega)).bind
      exact Probe.finds_pure _ _ _

end Instructions

section Extent

/-- The instruction at an offset and its length, or why there is none. Behind the end of the array
there is nothing to be read. -/
def instructionAt? (code : Bytes) (offset : Nat) : Option (Except CodeFault (Instruction × Nat)) :=
  match code.drop offset with
  | [] => none
  | opcode :: rest =>
      some ((readItem offset opcode rest).map fun item => (item.instruction, item.length))

variable {code : Bytes} {offset : Nat}

theorem exists_drop_eq_cons (h : offset < code.length) :
    ∃ opcode rest, code.drop offset = opcode :: rest := by
  rw [← List.getElem_cons_drop h]
  exact ⟨_, _, rfl⟩

/-- An instruction is read wherever it is spelled out, whatever follows it. -/
theorem instructionAt?_of_spelling {spelling : Spelling} {next : Bytes}
    (h : spelling.WellFormed offset) (hcode : code.drop offset = spelling.bytes ++ next) :
    instructionAt? code offset =
      some (.ok
        (⟨offset % 0x100000000, spelling.opcode, spelling.kind⟩, spelling.bytes.length)) := by
  rw [instructionAt?, hcode, Spelling.bytes, List.cons_append]
  change some ((readItem offset spelling.opcode (spelling.operands ++ next)).map _) = _
  rw [spelling.readItem_eq h]
  rfl

/-- A length that fits in the array is that of a spelled instruction. -/
theorem exists_spelling_of_fits {opcode : UInt8} {rest : Bytes} {length : Nat}
    (hcode : code.drop offset = opcode :: rest)
    (hlength : opcodeLength? code offset = some (.ok length))
    (hfits : offset + length ≤ code.length) :
    ∃ spelling : Spelling, spelling.WellFormed offset ∧ spelling.bytes.length = length ∧
      ∃ next, code.drop offset = spelling.bytes ++ next := by
  rw [opcodeLength?_eq hcode] at hlength
  cases hcount : operandCount offset opcode rest with
  | error fault =>
      rw [hcount] at hlength
      cases hlength
  | ok count =>
      rw [hcount] at hlength
      obtain rfl : 1 + count = length := Except.ok.inj (Option.some.inj hlength)
      have hsize := length_of_drop hcode
      obtain ⟨operands, next, rfl, hoperands⟩ :=
        Bytes.exists_front (show count ≤ rest.length by omega)
      obtain ⟨spelling, hwell, rfl, rfl⟩ := exists_spelling hcount hoperands
      refine ⟨spelling, hwell, ?_, next, hcode⟩
      rw [Spelling.bytes, List.length_cons, hoperands, Nat.add_comm]

/-- What is read as an instruction is spelled out there. -/
theorem exists_spelling_of_instructionAt? {instruction : Instruction} {length : Nat}
    (h : instructionAt? code offset = some (.ok (instruction, length))) :
    ∃ spelling : Spelling, spelling.WellFormed offset ∧ spelling.bytes.length = length ∧
      instruction = ⟨offset % 0x100000000, spelling.opcode, spelling.kind⟩ ∧
      ∃ next, code.drop offset = spelling.bytes ++ next := by
  have hread := h
  unfold instructionAt? at hread
  split at hread
  · cases hread
  · next opcode rest hcode =>
      cases hitem : readItem offset opcode rest with
      | error fault =>
          rw [hitem] at hread
          cases hread
      | ok item =>
          obtain ⟨spelling, hwell, hbytes, -⟩ := exists_spelling_of_readItem hitem
          have hspelled := hcode.trans hbytes
          rw [instructionAt?_of_spelling hwell hspelled, Option.some.injEq, Except.ok.injEq,
            Prod.mk.injEq] at h
          exact ⟨spelling, hwell, h.2, h.1.symm, item.next, hspelled⟩

/-- An instruction is read from its own bytes alone: it has the length that is announced, its kind
is found at places within that length, and it is read in the same way from any other array that has
the same bytes there. -/
structure ReadFromOwnBytes (code : Bytes) (offset : Nat) (instruction : Instruction)
    (length : Nat) : Prop where
  positive : 1 ≤ length
  announced : opcodeLength? code offset = some (.ok length)
  fits : offset + length ≤ code.length
  opcode : code[offset]? = some instruction.opcode
  kind : (kindAt code offset).Finds instruction.kind offset (offset + length)
  elsewhere : ∀ other : Bytes, (other.drop offset).take length = (code.drop offset).take length →
    instructionAt? other offset = some (.ok (instruction, length))

theorem Spelling.readFromOwnBytes {spelling : Spelling} {next : Bytes}
    (h : spelling.WellFormed offset) (hoffset : offset < code.length)
    (hcode : code.drop offset = spelling.bytes ++ next) :
    ReadFromOwnBytes code offset ⟨offset % 0x100000000, spelling.opcode, spelling.kind⟩
      spelling.bytes.length := by
  have hstart : code.drop offset = spelling.opcode :: (spelling.operands ++ next) := hcode
  have hbefore : (code.take offset).length = offset := List.length_take_of_le hoffset.le
  have hwhole : code.take offset ++ (spelling.bytes ++ next) = code := by
    rw [← hcode, List.take_append_drop]
  constructor
  case positive => exact spelling.bytes_length_pos
  case announced => exact opcodeLength?_of_readItem hstart (spelling.readItem_eq h next)
  case fits =>
    have hsize := congrArg List.length hcode
    rw [List.length_drop, List.length_append] at hsize
    omega
  case opcode => exact getElem?_of_drop hstart
  case kind =>
    rw [← hbefore] at h
    have hfinds := Spelling.kindAt_finds h next
    rwa [hwhole, hbefore] at hfinds
  case elsewhere =>
    intro other hsame
    rw [hcode, List.take_left] at hsame
    have hother := (List.take_append_drop spelling.bytes.length (other.drop offset)).symm
    rw [hsame] at hother
    exact instructionAt?_of_spelling h hother

/-- At an offset of a code array an instruction can be read if and only if the length that is
announced there fits in the array, and then it is read from its own bytes alone. -/
theorem instructionAt?_iff_fits (code : Bytes) (offset : Nat) (hoffset : offset < code.length) :
    ((∃ instruction length, instructionAt? code offset = some (.ok (instruction, length))) ↔
      ∃ length, opcodeLength? code offset = some (.ok length) ∧ offset + length ≤ code.length) ∧
    ∀ instruction length, instructionAt? code offset = some (.ok (instruction, length)) →
      ReadFromOwnBytes code offset instruction length := by
  have hown : ∀ instruction length, instructionAt? code offset = some (.ok (instruction, length)) →
      ReadFromOwnBytes code offset instruction length := by
    intro instruction length h
    obtain ⟨spelling, hwell, rfl, rfl, next, hcode⟩ := exists_spelling_of_instructionAt? h
    exact spelling.readFromOwnBytes hwell hoffset hcode
  refine ⟨⟨?_, ?_⟩, hown⟩
  · rintro ⟨instruction, length, h⟩
    have hread := hown instruction length h
    exact ⟨length, hread.announced, hread.fits⟩
  · rintro ⟨length, hlength, hfits⟩
    obtain ⟨opcode, rest, hcode⟩ := exists_drop_eq_cons hoffset
    obtain ⟨spelling, hwell, -, next, hspelled⟩ := exists_spelling_of_fits hcode hlength hfits
    exact ⟨_, _, instructionAt?_of_spelling hwell hspelled⟩

/-- A key lookup with one pair behind another instruction, and one that announces more pairs than
there are bytes. -/
def lookupPair : Bytes :=
  [0x00, 0xab, 0, 0, 0, 0, 0, 20, 0, 0, 0, 1, 255, 255, 255, 254, 0, 0, 0, 9,
    0xab, 0, 0, 0, 0, 0, 0, 0, 0, 0, 0, 5]

theorem instructionAt?_lookupPair :
    ReadFromOwnBytes lookupPair 1 ⟨1, 0xab, .lookupSwitch [-2]⟩ 19 ∧
      ¬∃ instruction length, instructionAt? lookupPair 20 = some (.ok (instruction, length)) := by
  constructor
  · have hread : instructionAt? lookupPair 1 =
        some (.ok (⟨1, 0xab, .lookupSwitch [-2]⟩, 19)) := by cbv
    exact (instructionAt?_iff_fits lookupPair 1 (by decide)).2 _ _ hread
  · have hlength : opcodeLength? lookupPair 20 = some (.ok 52) := by cbv
    rw [(instructionAt?_iff_fits lookupPair 20 (by decide)).1]
    rintro ⟨length, hother, hfits⟩
    have hsize : lookupPair.length = 32 := rfl
    rw [hlength, Option.some.injEq, Except.ok.injEq] at hother
    omega

end Extent

end ClassMetrics.Code
