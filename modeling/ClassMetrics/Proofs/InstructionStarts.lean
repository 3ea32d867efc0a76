import Mathlib
import ClassMetrics.Proofs.CodeReading
import ClassMetrics.Proofs.Counters

/-!
Assignments, branches and conditions, counted on the bytes of a code array. Where instructions start
is said by their lengths alone, from offset 0 on, and what an instruction counts for is said by its
first byte or two and by the number of pairs of a key lookup. Main statement: the code of a method
adds these numbers to the counters, whatever its operands, paddings and tables look like.
-/

namespace ClassMetrics

namespace Code

section Bytes

/-- The first multiple of four behind the opcode at an offset, where the words of a switch begin. -/
def aligned (offset : Nat) : Nat :=
  (offset + 4) / 4 * 4

/-- The signed word of four bytes at a place of a code array. -/
def word? (code : Bytes) (place : Nat) : Option Int :=
  Bytes.int32? (code.drop place)

/-- The number of bytes that the instruction at an offset takes. -/
def lengthAt? (code : Bytes) (offset : Nat) : Option Nat := do
  let opcode ← code[offset]?
  if opcode = 0xaa then
    let low ← word? code (aligned offset + 4)
    let high ← word? code (aligned offset + 8)
    return aligned offset + 12 + 4 * (high - low + 1).toNat - offset
  else if opcode = 0xab then
    let pairs ← word? code (aligned offset + 4)
    return aligned offset + 8 + 8 * pairs.toNat - offset
  else if opcode = 0xc4 then
    let modified ← code[offset + 1]?
    return if modified = 0x84 then 6 else 4
  else
    let operands ← plainOperands? opcode
    return 1 + operands

/-- The offsets that the lengths of instructions lead to, from offset 0 on. -/
inductive IsBoundary (code : Bytes) : Nat → Prop where
  | first : IsBoundary code 0
  | next {offset length : Nat} (before : IsBoundary code offset)
      (passed : lengthAt? code offset = some length) : IsBoundary code (offset + length)

open Classical in
/-- The offsets where instructions start. -/
noncomputable def starts (code : Bytes) : Finset Nat :=
  (Finset.range code.length).filter (IsBoundary code)

theorem mem_starts {code : Bytes} {offset : Nat} :
    offset ∈ starts code ↔ offset < code.length ∧ IsBoundary code offset := by
  simp [starts]

/-- A store, or a store that is widened. -/
def assignsAt (code : Bytes) (offset : Nat) : Bool :=
  code[offset]?.any (fun byte => 0x36 ≤ byte ∧ byte ≤ 0x4e) ||
    code[offset]? = some 0xc4 && code[offset + 1]?.any (fun byte => 0x36 ≤ byte ∧ byte ≤ 0x3a)

/-- A call or an allocation. -/
def branchesAt (code : Bytes) (offset : Nat) : Bool :=
  code[offset]?.any (· ∈ [0xb6, 0xb7, 0xb8, 0xb9, 0xbb, 0xbc, 0xbd, 0xc5])

/-- A jump with one target. -/
def jumpsAt (code : Bytes) (offset : Nat) : Bool :=
  code[offset]?.any fun byte => 0x99 ≤ byte ∧ byte ≤ 0xa8 ∨ 0xc6 ≤ byte ∧ byte ≤ 0xc9

/-- A key lookup. -/
def looksUpAt (code : Bytes) (offset : Nat) : Bool :=
  code[offset]? = some 0xab

/-- The number of pairs that a key lookup declares. -/
def pairsAt (code : Bytes) (offset : Nat) : Nat :=
  ((word? code (aligned offset + 4)).getD 0).toNat

noncomputable def assignmentStarts (code : Bytes) : Nat :=
  ((starts code).filter fun offset => assignsAt code offset).card

noncomputable def branchStarts (code : Bytes) : Nat :=
  ((starts code).filter fun offset => branchesAt code offset).card

noncomputable def jumpStarts (code : Bytes) : Nat :=
  ((starts code).filter fun offset => jumpsAt code offset).card

/-- The pairs of all key lookups. -/
noncomputable def lookupPairs (code : Bytes) : Nat :=
  ∑ offset ∈ (starts code).filter (fun offset => looksUpAt code offset), pairsAt code offset

/-- What the instruction at an offset counts for. -/
def abcAt (code : Bytes) (offset : Nat) : Abc where
  assignments := if assignsAt code offset then 1 else 0
  branches := if branchesAt code offset then 1 else 0
  conditions :=
    (if jumpsAt code offset then 1 else 0) + if looksUpAt code offset then pairsAt code offset else 0

end Bytes

section Spellings

variable {before after : Bytes} {spelling : Spelling}

theorem getElem?_opcode (before after : Bytes) (spelling : Spelling) :
    (before ++ (spelling.bytes ++ after))[before.length]? = some spelling.opcode := by
  simp [Spelling.bytes]

theorem aligned_eq {filler : Bytes} {offset : Nat}
    (h : filler.length = (4 - (offset + 1) % 4) % 4) :
    aligned offset = offset + 1 + filler.length := by
  rw [h, aligned]
  omega

/-- Behind the padding of a switch and some of its words stand the others. -/
theorem drop_aligned {filler : Bytes} (h : filler.length = (4 - (before.length + 1) % 4) % 4)
    (opcode : UInt8) (words rest : Bytes) {size : Nat} (hwords : words.length = size) :
    (before ++ (opcode :: (filler ++ (words ++ rest)))).drop (aligned before.length + size) =
      rest := by
  have hparts : before ++ (opcode :: (filler ++ (words ++ rest))) =
      (before ++ [opcode] ++ filler ++ words) ++ rest := by simp
  rw [hparts, aligned_eq h]
  apply List.drop_left'
  simp [hwords]
  omega

/-- The bounds of a jump table are read where they stand. -/
theorem word?_bounds {filler : Bytes} (default low high : Int32) (targets : List Int32)
    (after : Bytes) (h : filler.length = (4 - (before.length + 1) % 4) % 4) :
    word? (before ++ ((Spelling.tableSwitch filler default low high targets).bytes ++ after))
        (aligned before.length + 4) = some low.toInt ∧
      word? (before ++ ((Spelling.tableSwitch filler default low high targets).bytes ++ after))
        (aligned before.length + 8) = some high.toInt := by
  have hlow := drop_aligned h 0xaa (Bytes.int32Bytes default)
    (Bytes.int32Bytes low ++ (Bytes.int32Bytes high ++
      (targets.flatMap Bytes.int32Bytes ++ after))) (Bytes.int32Bytes_length default)
  have hhigh := drop_aligned h 0xaa (Bytes.int32Bytes default ++ Bytes.int32Bytes low)
    (Bytes.int32Bytes high ++ (targets.flatMap Bytes.int32Bytes ++ after)) (show _ = 8 by simp)
  simp only [word?, Spelling.bytes, Spelling.opcode, Spelling.operands, List.cons_append,
    List.append_assoc] at hlow hhigh ⊢
  rw [hlow, hhigh, Bytes.int32?_int32Bytes, Bytes.int32?_int32Bytes]
  exact ⟨rfl, rfl⟩

/-- The number of pairs of a key lookup is read where it stands. -/
theorem word?_pairs {filler : Bytes} {default : Int32} {pairs : List (Int32 × Int32)}
    (after : Bytes) (h : (Spelling.lookupSwitch filler default pairs).WellFormed before.length) :
    word? (before ++ ((Spelling.lookupSwitch filler default pairs).bytes ++ after))
      (aligned before.length + 4) = some (pairs.length : Int) := by
  obtain ⟨hfiller, hpairs⟩ := h
  have hread := drop_aligned hfiller 0xab (Bytes.int32Bytes default)
    (Bytes.bigEndianBytes 4 pairs.length ++ (pairs.flatMap pairBytes ++ after))
    (Bytes.int32Bytes_length default)
  simp only [word?, Spelling.bytes, Spelling.opcode, Spelling.operands, List.cons_append,
    List.append_assoc]
  rw [hread, Bytes.int32?_bigEndianBytes hpairs]

/-- An instruction is as long as its bytes say. -/
theorem Spelling.lengthAt?_eq (h : spelling.WellFormed before.length) :
    lengthAt? (before ++ (spelling.bytes ++ after)) before.length =
      some spelling.bytes.length := by
  rw [lengthAt?, getElem?_opcode]
  cases spelling with
  | plain opcode operands =>
      have hcount : plainOperands? opcode = some operands.length := h
      obtain ⟨htable, hlookup, hwide⟩ := ne_of_plain hcount
      simp [Spelling.opcode, htable, hlookup, hwide, hcount, Spelling.bytes, Spelling.operands,
        Nat.add_comm]
  | wideIncrement operands =>
      have hlength : operands.length = 4 := h
      simp [Spelling.opcode, Spelling.bytes, Spelling.operands, hlength]
  | wide modified operands =>
      obtain ⟨hmodified, hlength⟩ : modified ≠ 0x84 ∧ operands.length = 2 := h
      simp [Spelling.opcode, Spelling.bytes, Spelling.operands, hlength, hmodified]
  | tableSwitch filler default low high targets =>
      obtain ⟨hfiller, -, -, htargets⟩ := h
      obtain ⟨hlow, hhigh⟩ := word?_bounds default low high targets after hfiller
      have hcount := Bytes.flatMap_length Bytes.int32Bytes_length targets
      have hplace := aligned_eq hfiller
      simp only [Spelling.opcode, Option.bind_eq_bind, Option.bind_some, if_true, hlow, hhigh,
        Option.pure_def, ← htargets, Int.toNat_natCast, Option.some.injEq]
      simp only [Spelling.bytes, Spelling.operands, List.length_cons, List.length_append,
        Bytes.int32Bytes_length, hcount]
      omega
  | lookupSwitch filler default pairs =>
      have hpairs := word?_pairs after h
      have hcount := Bytes.flatMap_length pairBytes_length pairs
      have hplace := aligned_eq h.1
      have hother : ¬(0xab : UInt8) = 0xaa := by decide
      simp only [Spelling.opcode, Option.bind_eq_bind, Option.bind_some, if_neg hother, if_true,
        hpairs, Option.pure_def, Int.toNat_natCast, Option.some.injEq]
      simp only [Spelling.bytes, Spelling.operands, List.length_cons, List.length_append,
        Bytes.int32Bytes_length, Bytes.bigEndianBytes_length, hcount]
      omega

theorem mem_stores_iff (opcode : UInt8) : opcode ∈ stores ↔ 0x36 ≤ opcode ∧ opcode ≤ 0x3a := by
  revert opcode
  apply forall_byte
  decide +kernel

theorem plain_abc_eq (opcode : UInt8) (operands : Bytes) :
    (Spelling.plain opcode operands).kind.abc = (Spelling.plain opcode []).kind.abc := by
  simp only [Spelling.kind]
  split
  · rfl
  · rfl

/-- What a plain instruction counts for is a matter of its opcode. -/
theorem plain_abc (opcode : UInt8) (operands : Bytes) :
    (Spelling.plain opcode operands).kind.abc =
      ⟨if 0x36 ≤ opcode ∧ opcode ≤ 0x4e then 1 else 0,
        if opcode ∈ [0xb6, 0xb7, 0xb8, 0xb9, 0xbb, 0xbc, 0xbd, 0xc5] then 1 else 0,
        if 0x99 ≤ opcode ∧ opcode ≤ 0xa8 ∨ 0xc6 ≤ opcode ∧ opcode ≤ 0xc9 then 1 else 0⟩ := by
  rw [plain_abc_eq]
  revert opcode
  apply forall_byte
  decide +kernel

/-- An instruction counts for what its bytes say. -/
theorem Spelling.abcAt_eq (h : spelling.WellFormed before.length) :
    abcAt (before ++ (spelling.bytes ++ after)) before.length = spelling.kind.abc := by
  have hopcode := getElem?_opcode before after spelling
  cases spelling with
  | plain opcode operands =>
      obtain ⟨htable, hlookup, hwide⟩ := ne_of_plain h
      change _[before.length]? = some opcode at hopcode
      rw [plain_abc]
      simp [abcAt, assignsAt, branchesAt, jumpsAt, looksUpAt, hopcode, hlookup, hwide]
  | wideIncrement operands =>
      change _[before.length]? = some 0xc4 at hopcode
      have hsecond : (before ++ ((Spelling.wideIncrement operands).bytes ++ after))[
          before.length + 1]? = some 0x84 := by simp [Spelling.bytes, Spelling.operands]
      simp [abcAt, assignsAt, branchesAt, jumpsAt, looksUpAt, hopcode, hsecond, Spelling.kind,
        InstructionKind.abc, Abc.zero]
  | wide modified operands =>
      change _[before.length]? = some 0xc4 at hopcode
      have hsecond : (before ++ ((Spelling.wide modified operands).bytes ++ after))[
          before.length + 1]? = some modified := by simp [Spelling.bytes, Spelling.operands]
      have hstore : modified ∈ stores ↔ 0x36 ≤ modified ∧ modified ≤ 0x3a :=
        mem_stores_iff modified
      by_cases hmodified : modified ∈ stores
      · simp [abcAt, assignsAt, branchesAt, jumpsAt, looksUpAt, hopcode, hsecond, Spelling.kind,
          InstructionKind.abc, hmodified, hstore.1 hmodified]
      · have hrange := mt hstore.2 hmodified
        simp [abcAt, assignsAt, branchesAt, jumpsAt, looksUpAt, hopcode, hsecond, Spelling.kind,
          InstructionKind.abc, Abc.zero, hmodified]
        simpa using hrange
  | tableSwitch filler default low high targets =>
      change _[before.length]? = some 0xaa at hopcode
      simp [abcAt, assignsAt, branchesAt, jumpsAt, looksUpAt, hopcode, Spelling.kind,
        InstructionKind.abc, Abc.zero]
  | lookupSwitch filler default pairs =>
      change _[before.length]? = some 0xab at hopcode
      have hpairs := word?_pairs after h
      simp [abcAt, assignsAt, branchesAt, jumpsAt, looksUpAt, hopcode, Spelling.kind,
        InstructionKind.abc, pairsAt, hpairs]

theorem plain_total_le (opcode : UInt8) (operands : Bytes) :
    (Spelling.plain opcode operands).kind.abc.total ≤ 1 := by
  have htable : ∀ entry ∈ plainKinds, entry.2.abc.total ≤ 1 := by decide
  simp only [Spelling.kind]
  split
  · exact Nat.le_refl 1
  · cases hkind : plainKinds.lookup opcode with
    | none => exact Nat.zero_le 1
    | some kind =>
        obtain ⟨front, back, hparts, -⟩ := List.lookup_eq_some_iff.1 hkind
        exact htable (opcode, kind) (by simp [hparts])

/-- An instruction counts for no more than it takes bytes. -/
theorem Spelling.total_abc_le (spelling : Spelling) :
    spelling.kind.abc.total ≤ spelling.bytes.length := by
  have hpos := spelling.bytes_length_pos
  cases spelling with
  | plain opcode operands =>
      have hone := plain_total_le opcode operands
      omega
  | wideIncrement operands => exact Nat.zero_le _
  | wide modified operands =>
      simp only [Spelling.kind]
      split
      · exact hpos
      · exact Nat.zero_le _
  | tableSwitch filler default low high targets => exact Nat.zero_le _
  | lookupSwitch filler default pairs =>
      have hcount := Bytes.flatMap_length pairBytes_length pairs
      simp only [Spelling.kind, InstructionKind.abc, Abc.total, List.length_map, Spelling.bytes,
        Spelling.operands, List.length_cons, List.length_append, hcount]
      omega

end Spellings

section Boundaries

variable {before : Bytes} {spellings : List Spelling}

/-- The offsets of instructions that stand one after another. -/
def offsets : Nat → List Spelling → List Nat
  | _, [] => []
  | offset, first :: others => offset :: offsets (offset + first.bytes.length) others

theorem le_of_mem_offsets {offset start : Nat} (h : start ∈ offsets offset spellings) :
    offset ≤ start := by
  induction spellings generalizing offset with
  | nil => cases h
  | cons first others ih =>
      rcases List.mem_cons.1 h with rfl | hother
      · exact Nat.le_refl _
      · have hle := ih hother
        omega

theorem offsets_nodup (offset : Nat) (spellings : List Spelling) :
    (offsets offset spellings).Nodup := by
  induction spellings generalizing offset with
  | nil => exact List.nodup_nil
  | cons first others ih =>
      apply List.nodup_cons.2
      refine ⟨?_, ih _⟩
      intro hmem
      have hle := le_of_mem_offsets hmem
      have hpos := first.bytes_length_pos
      omega

theorem lt_of_mem_offsets {offset start : Nat} (h : start ∈ offsets offset spellings) :
    start < offset + (spellings.flatMap Spelling.bytes).length := by
  induction spellings generalizing offset with
  | nil => cases h
  | cons first others ih =>
      have hpos := first.bytes_length_pos
      rw [List.flatMap_cons, List.length_append]
      rcases List.mem_cons.1 h with rfl | hother
      · omega
      · have hlt := ih hother
        omega

/-- Boundaries lead from instruction to instruction. -/
theorem isBoundary_of_mem_offsets {code : Bytes} {start : Nat}
    (hplaced : Placed before.length spellings)
    (hcode : code = before ++ spellings.flatMap Spelling.bytes)
    (hbefore : IsBoundary code before.length)
    (h : start ∈ offsets before.length spellings) : IsBoundary code start := by
  induction spellings generalizing before with
  | nil => cases h
  | cons first others ih =>
      obtain ⟨hfirst, hothers⟩ := hplaced
      rcases List.mem_cons.1 h with rfl | hother
      · exact hbefore
      · have hlength : (before ++ first.bytes).length = before.length + first.bytes.length :=
          List.length_append
        rw [← hlength] at hothers hother
        refine ih hothers (by simp [hcode]) ?_ hother
        rw [hlength]
        apply hbefore.next
        rw [hcode, List.flatMap_cons]
        exact first.lengthAt?_eq hfirst

/-- Behind an instruction stands the next one, or the code ends. -/
theorem next_of_mem_offsets {code : Bytes} {start length : Nat}
    (hplaced : Placed before.length spellings)
    (hcode : code = before ++ spellings.flatMap Spelling.bytes)
    (h : start ∈ offsets before.length spellings) (hlength : lengthAt? code start = some length) :
    start + length ∈ offsets before.length spellings ∨ start + length = code.length := by
  induction spellings generalizing before with
  | nil => cases h
  | cons first others ih =>
      obtain ⟨hfirst, hothers⟩ := hplaced
      have hbehind : (before ++ first.bytes).length = before.length + first.bytes.length :=
        List.length_append
      rcases List.mem_cons.1 h with rfl | hother
      · have hown : length = first.bytes.length := by
          rw [hcode, List.flatMap_cons, first.lengthAt?_eq hfirst] at hlength
          exact (Option.some.inj hlength).symm
        rw [hown]
        cases others with
        | nil => exact Or.inr (by simp [hcode])
        | cons second later =>
            have hsecond : before.length + first.bytes.length ∈
                offsets (before.length + first.bytes.length) (second :: later) :=
              List.mem_cons_self
            exact Or.inl (List.mem_cons_of_mem _ hsecond)
      · rw [← hbehind] at hothers hother
        rcases ih hothers (by simp [hcode]) hother with hnext | hend
        · rw [hbehind] at hnext
          exact Or.inl (List.mem_cons_of_mem _ hnext)
        · exact Or.inr hend

/-- A boundary is where an instruction starts or where the last one ends. -/
theorem mem_offsets_of_isBoundary {code : Bytes} {start : Nat} (hplaced : Placed 0 spellings)
    (hcode : code = spellings.flatMap Spelling.bytes) (h : IsBoundary code start) :
    start ∈ offsets 0 spellings ∨ start = code.length := by
  induction h with
  | first =>
      cases spellings with
      | nil => exact Or.inr (by simp [hcode])
      | cons first others => exact Or.inl List.mem_cons_self
  | @next offset length _ hlength ih =>
      rcases ih with hmem | rfl
      · exact next_of_mem_offsets (show Placed ([] : Bytes).length spellings from hplaced) hcode
          hmem hlength
      · simp [lengthAt?] at hlength

/-- Instructions start where their spellings do. -/
theorem starts_eq {code : Bytes} (h : Assembles spellings code) :
    starts code = (offsets 0 spellings).toFinset := by
  have hcode : code = [] ++ spellings.flatMap Spelling.bytes := h.bytes.symm
  have hplaced : Placed ([] : Bytes).length spellings := h.placed
  ext start
  rw [mem_starts, List.mem_toFinset]
  constructor
  · rintro ⟨hlt, hboundary⟩
    rcases mem_offsets_of_isBoundary hplaced hcode hboundary with hmem | hend
    · exact hmem
    · omega
  · intro hmem
    have hlt := lt_of_mem_offsets hmem
    rw [Nat.zero_add, h.bytes] at hlt
    exact ⟨hlt, isBoundary_of_mem_offsets hplaced hcode .first hmem⟩

end Boundaries

section Counts

variable {before : Bytes} {spellings : List Spelling} {code : Bytes}

theorem map_abcAt_offsets (hplaced : Placed before.length spellings)
    (hcode : code = before ++ spellings.flatMap Spelling.bytes) :
    (offsets before.length spellings).map (abcAt code) = spellings.map (·.kind.abc) := by
  induction spellings generalizing before with
  | nil => rfl
  | cons first others ih =>
      obtain ⟨hfirst, hothers⟩ := hplaced
      have hbehind : (before ++ first.bytes).length = before.length + first.bytes.length :=
        List.length_append
      have hown : abcAt code before.length = first.kind.abc := by
        rw [hcode, List.flatMap_cons]
        exact first.abcAt_eq hfirst
      rw [← hbehind] at hothers
      have hrest := ih hothers (by simp [hcode])
      rw [offsets, List.map_cons, List.map_cons, hown, ← hbehind, hrest]

/-- The counts of a code array are those of its instructions taken together. -/
theorem abc_starts (h : Assembles spellings code) :
    Abc.sum (spellings.map (·.kind.abc)) =
      ⟨assignmentStarts code, branchStarts code, jumpStarts code + lookupPairs code⟩ := by
  have hcode : code = [] ++ spellings.flatMap Spelling.bytes := h.bytes.symm
  have hplaced : Placed ([] : Bytes).length spellings := h.placed
  have hsum (count : Abc → Nat) : ((spellings.map (·.kind.abc)).map count).sum =
      ∑ offset ∈ starts code, count (abcAt code offset) := by
    rw [starts_eq h, List.sum_toFinset _ (offsets_nodup 0 spellings),
      ← map_abcAt_offsets hplaced hcode, List.map_map]
    rfl
  rw [Abc.sum_eq, hsum, hsum, hsum, assignmentStarts, branchStarts, jumpStarts, lookupPairs,
    Finset.card_filter, Finset.card_filter, Finset.card_filter, Finset.sum_filter,
    ← Finset.sum_add_distrib]
  rfl

/-- Spelled code is read as instructions of the kinds that were spelled. -/
theorem kinds_trace {offset : Nat} (h : Placed offset spellings) :
    (trace offset (spellings.flatMap Spelling.bytes)).instructions.map (·.kind) =
      spellings.map (·.kind) := by
  induction spellings generalizing offset with
  | nil => simp [trace]
  | cons first others ih =>
      obtain ⟨hfirst, hothers⟩ := h
      have hread := first.readItem_eq hfirst (others.flatMap Spelling.bytes)
      rw [List.flatMap_cons, Spelling.bytes, List.cons_append, trace_cons hread, List.map_cons,
        List.map_cons, ih hothers]

theorem exists_spellings_of_decode {instructions : List Instruction}
    (h : decode code = .ok instructions) :
    ∃ spellings, Assembles spellings code ∧
      instructions.map (·.kind) = spellings.map (·.kind) := by
  rw [decode] at h
  cases hfault : (trace 0 code).fault? with
  | some fault => simp [hfault] at h
  | none =>
      simp only [hfault, Except.ok.injEq] at h
      obtain ⟨spellings, hplaced, hbytes⟩ := exists_spellings_of_trace hfault
      refine ⟨spellings, ⟨hplaced, hbytes⟩, ?_⟩
      rw [← h, ← hbytes]
      exact kinds_trace hplaced

theorem abc_of_kinds {instructions : List Instruction}
    (h : instructions.map (·.kind) = spellings.map (·.kind)) :
    instructions.map (·.kind.abc) = spellings.map (·.kind.abc) := by
  have hmapped := congrArg (List.map InstructionKind.abc) h
  rwa [List.map_map, List.map_map] at hmapped

/-- What code contributes can be read off its bytes. -/
theorem codeAbc_decode {instructions : List Instruction} (h : decode code = .ok instructions)
    (handlers : Nat) :
    codeAbc handlers instructions =
      ⟨assignmentStarts code, branchStarts code,
        handlers + (jumpStarts code + lookupPairs code)⟩ := by
  obtain ⟨spellings, hspellings, hkinds⟩ := exists_spellings_of_decode h
  rw [codeAbc, abc_of_kinds hkinds, abc_starts hspellings]
  simp

/-- Code contributes no more than it has bytes, apart from its handlers. -/
theorem total_codeAbc_le {instructions : List Instruction} (h : decode code = .ok instructions)
    (handlers : Nat) : (codeAbc handlers instructions).total ≤ handlers + code.length := by
  obtain ⟨spellings, hspellings, hkinds⟩ := exists_spellings_of_decode h
  have hbytes : (spellings.map (·.kind.abc.total)).sum ≤
      (spellings.map (·.bytes.length)).sum :=
    List.sum_le_sum fun spelling _ => spelling.total_abc_le
  have hlength : (spellings.map (·.bytes.length)).sum = code.length := by
    rw [← hspellings.bytes, List.length_flatMap]
  have hhandlers : Abc.total ⟨0, 0, handlers⟩ = handlers := by simp [Abc.total]
  rw [codeAbc, Abc.total_add, hhandlers, abc_of_kinds hkinds, Abc.total_sum, List.map_map]
  exact Nat.add_le_add_left (hbytes.trans hlength.le) handlers

end Counts

/-- The code of a method adds to the counters of assignments, branches and conditions what the bytes
at the starts of its instructions say, and leaves the other counters alone. -/
theorem addAbc_counts_starts (code : Bytes) (method : MethodBody) (totals : Totals)
    (hdecode : decode code = .ok method.instructions)
    (hassignments : totals.assignments.toNat + assignmentStarts code < 2 ^ 64)
    (hbranches : totals.branches.toNat + branchStarts code < 2 ^ 64)
    (hconditions : totals.conditions.toNat +
      (method.handlers + jumpStarts code + lookupPairs code) < 2 ^ 64) :
    (totals.addAbc method.abc).assignments.toNat =
        totals.assignments.toNat + assignmentStarts code ∧
      (totals.addAbc method.abc).branches.toNat = totals.branches.toNat + branchStarts code ∧
      (totals.addAbc method.abc).conditions.toNat =
        totals.conditions.toNat + (method.handlers + jumpStarts code + lookupPairs code) ∧
      (totals.addAbc method.abc).fields = totals.fields ∧
      (totals.addAbc method.abc).classes = totals.classes ∧
      (totals.addAbc method.abc).methods = totals.methods := by
  have habc : method.abc = _ := codeAbc_decode hdecode method.handlers
  rw [← Nat.add_assoc] at habc
  rw [habc]
  refine ⟨?_, ?_, ?_, rfl, rfl, rfl⟩
  · exact Counter.toNat_add hassignments
  · exact Counter.toNat_add hbranches
  · exact Counter.toNat_add hconditions

/-- Operands, paddings and a table full of bytes that would count as opcodes. -/
def decoys : List Spelling :=
  [.plain 0x10 [0x36], .wide 0x36 [0xc4, 0x3a], .wideIncrement [0x36, 0x99, 0xb6, 0xbb],
    .plain 0xb8 [0x99, 0xb6], .lookupSwitch [] 0x36363636 [(0x3b3b3b3b, 7), (0x3c3c3c3c, 8)],
    .tableSwitch [0x36, 0xb6, 0x99] 0 5 5 [0x3b3b3b3b], .plain 0x3b [], .plain 0xa7 [0x3b, 0xb6]]

def decoyCode : Bytes :=
  decoys.flatMap Spelling.bytes

def decoyMethod : MethodBody :=
  ⟨"decoy", "()V", 3, records 0 decoys⟩

def decoyTotals : Totals :=
  ⟨10, 20, 30, 40, 50, 60⟩

/-- None of the decoys is counted. -/
theorem addAbc_decoys :
    decode decoyCode = .ok decoyMethod.instructions ∧
      decoyTotals.addAbc decoyMethod.abc = ⟨12, 21, 36, 40, 50, 60⟩ ∧
      assignmentStarts decoyCode = 2 ∧ branchStarts decoyCode = 1 ∧
      jumpStarts decoyCode + lookupPairs decoyCode = 3 := by
  have hdecode : decode decoyCode = .ok decoyMethod.instructions := by
    have hplaced : Placed 0 decoys := by decide
    rw [decode, decoyCode, trace_flatMap_bytes hplaced (by decide)]
    rfl
  have hafter : decoyTotals.addAbc decoyMethod.abc = ⟨12, 21, 36, 40, 50, 60⟩ := by decide
  have hbound := total_codeAbc_le hdecode 3
  rw [codeAbc_decode hdecode, show decoyCode.length = 64 by decide] at hbound
  simp only [Abc.total] at hbound
  obtain ⟨hassignments, hbranches, hconditions, -⟩ :=
    addAbc_counts_starts decoyCode decoyMethod decoyTotals hdecode
      (show 10 + assignmentStarts decoyCode < 2 ^ 64 by omega)
      (show 20 + branchStarts decoyCode < 2 ^ 64 by omega)
      (show 30 + (3 + jumpStarts decoyCode + lookupPairs decoyCode) < 2 ^ 64 by omega)
  rw [hafter] at hassignments hbranches hconditions
  change 12 = 10 + assignmentStarts decoyCode at hassignments
  change 21 = 20 + branchStarts decoyCode at hbranches
  change 36 = 30 + (3 + jumpStarts decoyCode + lookupPairs decoyCode) at hconditions
  exact ⟨hdecode, hafter, by omega, by omega, by omega⟩

end Code

end ClassMetrics
