import Mathlib.Tactic
import ClassMetrics.Bytes

/-!
Writing the fixed-width numbers that `Bytes` reads. Writing and reading undo each other: a number
that fits its width is read back, and the digits of a number are the bytes it was read from.
-/

namespace ClassMetrics.Bytes

/-- The low bytes of a number, most significant first. -/
def bigEndianBytes : Nat → Nat → Bytes
  | 0, _ => []
  | width + 1, number => bigEndianBytes width (number / 256) ++ [UInt8.ofNat number]

/-- The two's complement form of a signed 32-bit number. -/
def int32Bytes (number : Int32) : Bytes :=
  bigEndianBytes 4 number.toUInt32.toNat

@[simp]
theorem bigEndianBytes_length (width number : Nat) :
    (bigEndianBytes width number).length = width := by
  induction width generalizing number with
  | zero => rfl
  | succ width ih => simp [bigEndianBytes, ih]

@[simp]
theorem int32Bytes_length (number : Int32) : (int32Bytes number).length = 4 := by
  simp [int32Bytes]

theorem bigEndian_concat (bytes : Bytes) (last : UInt8) :
    bigEndian (bytes ++ [last]) = bigEndian bytes * 256 + last.toNat := by
  simp [bigEndian]

theorem bigEndian_bigEndianBytes {width number : Nat} (h : number < 256 ^ width) :
    bigEndian (bigEndianBytes width number) = number := by
  induction width generalizing number with
  | zero =>
      have hzero : number = 0 := by simpa using h
      simp [bigEndianBytes, bigEndian, hzero]
  | succ width ih =>
      have hhigh : number / 256 < 256 ^ width := by
        apply Nat.div_lt_of_lt_mul
        simpa [Nat.pow_succ, Nat.mul_comm] using h
      rw [bigEndianBytes, bigEndian_concat, ih hhigh, UInt8.toNat_ofNat']
      omega

theorem bigEndian_lt (bytes : Bytes) : bigEndian bytes < 256 ^ bytes.length := by
  induction bytes using List.reverseRecOn with
  | nil => simp [bigEndian]
  | append_singleton bytes last ih =>
      have hlast := last.toNat_lt
      rw [bigEndian_concat, List.length_append, List.length_singleton, Nat.pow_succ]
      omega

theorem bigEndianBytes_bigEndian (bytes : Bytes) :
    bigEndianBytes bytes.length (bigEndian bytes) = bytes := by
  induction bytes using List.reverseRecOn with
  | nil => rfl
  | append_singleton bytes last ih =>
      have hlast := last.toNat_lt
      have hhigh : (bigEndian bytes * 256 + last.toNat) / 256 = bigEndian bytes := by omega
      have hlow : UInt8.ofNat (bigEndian bytes * 256 + last.toNat) = last := by
        apply UInt8.toNat_inj.1
        rw [UInt8.toNat_ofNat']
        omega
      rw [bigEndian_concat, List.length_append, List.length_singleton, bigEndianBytes, hhigh, ih,
        hlow]

theorem signed32_toUInt32 (number : Int32) : signed32 number.toUInt32.toNat = number.toInt := by
  have hbound := number.toUInt32.toNat_lt
  have hcases := BitVec.toInt_eq_toNat_cond number.toBitVec
  change number.toInt = _ at hcases
  change number.toBitVec.toNat < _ at hbound
  change signed32 number.toBitVec.toNat = number.toInt
  rw [hcases, signed32]
  split <;> split <;> omega

/-- A word that reads as a count is the written count. -/
theorem int32Bytes_eq_of_toInt {number : Int32} {count : Nat} (h : number.toInt = count) :
    int32Bytes number = bigEndianBytes 4 count ∧ count < 2 ^ 31 := by
  have hbound := number.toUInt32.toNat_lt
  rw [← signed32_toUInt32, signed32] at h
  split at h
  · next hsmall =>
      have hsame : number.toUInt32.toNat = count := by exact_mod_cast h
      exact ⟨by rw [int32Bytes, hsame], hsame ▸ hsmall⟩
  · omega

theorem int32?_append {word : Bytes} (h : word.length = 4) (rest : Bytes) :
    int32? (word ++ rest) = some (signed32 (bigEndian word)) := by
  match word, h with
  | [a, b, c, d], _ => rfl

/-- A written word is read back, whatever follows it. -/
theorem int32?_int32Bytes (number : Int32) (rest : Bytes) :
    int32? (int32Bytes number ++ rest) = some number.toInt := by
  have hvalue : bigEndian (int32Bytes number) = number.toUInt32.toNat :=
    bigEndian_bigEndianBytes number.toUInt32.toNat_lt
  rw [int32?_append (int32Bytes_length number), hvalue, signed32_toUInt32]

/-- A count below 2^31 is the same number as a signed word. -/
theorem int32?_bigEndianBytes {number : Nat} (h : number < 2 ^ 31) (rest : Bytes) :
    int32? (bigEndianBytes 4 number ++ rest) = some (number : Int) := by
  have hvalue : bigEndian (bigEndianBytes 4 number) = number :=
    bigEndian_bigEndianBytes (by omega)
  rw [int32?_append (bigEndianBytes_length 4 number), hvalue, signed32, if_pos (by omega)]

/-- What a word is read from is its written form. -/
theorem exists_int32Bytes {bytes : Bytes} (h : bytes.length = 4) :
    ∃ number, int32Bytes number = bytes := by
  have hbound : bigEndian bytes < 2 ^ 32 := by
    have := bigEndian_lt bytes
    simpa [h] using this
  refine ⟨(UInt32.ofNat (bigEndian bytes)).toInt32, ?_⟩
  have hvalue : (UInt32.ofNat (bigEndian bytes)).toInt32.toUInt32.toNat = bigEndian bytes := by
    simpa [UInt32.toNat_ofNat'] using hbound
  rw [int32Bytes, hvalue, ← h]
  exact bigEndianBytes_bigEndian bytes

theorem int32Bytes_injective : Function.Injective int32Bytes := by
  intro first second hsame
  have hread := int32?_int32Bytes first []
  rw [hsame, int32?_int32Bytes second []] at hread
  exact Int32.toInt_inj.1 (Option.some.inj hread).symm

section Blocks

variable {α : Type} {write : α → Bytes} {size : Nat}

/-- Items that are written in blocks of one size. -/
theorem flatMap_length (hsize : ∀ item, (write item).length = size) (items : List α) :
    (items.flatMap write).length = size * items.length := by
  induction items with
  | nil => rfl
  | cons first others ih =>
      rw [List.flatMap_cons, List.length_append, hsize, ih, List.length_cons, Nat.mul_succ]
      omega

theorem exists_front {bytes : Bytes} {count : Nat} (h : count ≤ bytes.length) :
    ∃ front back, bytes = front ++ back ∧ front.length = count :=
  ⟨bytes.take count, bytes.drop count, (List.take_append_drop count bytes).symm,
    List.length_take_of_le h⟩

/-- If every block of one size is an item, bytes that fill a number of blocks are that many
items. -/
theorem exists_flatMap (hblock : ∀ block : Bytes, block.length = size → ∃ item, write item = block)
    {bytes : Bytes} {count : Nat} (h : bytes.length = size * count) :
    ∃ items : List α, items.length = count ∧ items.flatMap write = bytes := by
  induction count generalizing bytes with
  | zero => exact ⟨[], rfl, (List.length_eq_zero_iff.1 (by simpa using h)).symm⟩
  | succ count ih =>
      have hle : size ≤ bytes.length := by rw [h, Nat.mul_succ]; omega
      obtain ⟨block, back, rfl, hsize⟩ := exists_front hle
      obtain ⟨first, rfl⟩ := hblock block hsize
      have hback : back.length = size * count := by
        rw [List.length_append, hsize, Nat.mul_succ] at h
        omega
      obtain ⟨others, hcount, hothers⟩ := ih hback
      exact ⟨first :: others, by simp [hcount], by simp [hothers]⟩

theorem flatMap_inj (hsize : ∀ item, (write item).length = size) (hinj : Function.Injective write)
    {items others : List α} (hlength : items.length = others.length)
    (h : items.flatMap write = others.flatMap write) : items = others := by
  induction items generalizing others with
  | nil => exact (List.length_eq_zero_iff.1 hlength.symm).symm
  | cons first items ih =>
      cases others with
      | nil => simp at hlength
      | cons second others =>
          rw [List.flatMap_cons, List.flatMap_cons] at h
          obtain ⟨hfirst, hrest⟩ := List.append_inj h (by rw [hsize, hsize])
          rw [hinj hfirst, ih (by simpa using hlength) hrest]

end Blocks

/-- A word of four bytes at the front. -/
theorem exists_int32Bytes_append {bytes : Bytes} (h : 4 ≤ bytes.length) :
    ∃ number back, bytes = int32Bytes number ++ back := by
  obtain ⟨word, back, rfl, hword⟩ := exists_front h
  obtain ⟨number, rfl⟩ := exists_int32Bytes hword
  exact ⟨number, back, rfl⟩

end ClassMetrics.Bytes
