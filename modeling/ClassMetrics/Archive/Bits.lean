import ClassMetrics.Bytes

/-!
Bytes as a stream of bits, the least significant bit of a byte first, and the prefix codes that
compressed data is written in.
-/

namespace ClassMetrics.Archive

abbrev Bits := List Bool

def bitsOf (bytes : Bytes) : Bits :=
  bytes.flatMap fun byte => (List.range 8).map byte.toNat.testBit

/-- The number that the first `count` bits spell, least significant bit first. -/
def takeBits? : Nat → Bits → Option (Nat × Bits)
  | 0, bits => some (0, bits)
  | _ + 1, [] => none
  | count + 1, bit :: rest =>
      (takeBits? count rest).map fun (value, after) => (bit.toNat + 2 * value, after)

theorem takeBits?_length {count value : Nat} {bits rest : Bits}
    (h : takeBits? count bits = some (value, rest)) : rest.length + count = bits.length := by
  induction count generalizing value bits with
  | zero =>
      simp only [takeBits?, Option.some.injEq, Prod.mk.injEq] at h
      simp [h.2]
  | succ count ih =>
      cases bits with
      | nil => simp [takeBits?] at h
      | cons bit bits =>
          simp only [takeBits?, Option.map_eq_some_iff, Prod.exists, Prod.mk.injEq] at h
          obtain ⟨value', rest', hrest, -, rfl⟩ := h
          have := ih hrest
          simp only [List.length_cons]
          omega

/-- A canonical prefix code: how many code words there are of each length from 1 on, and the
symbols in the order of their code words. -/
structure PrefixCode where
  counts : List Nat
  symbols : Array Nat

/-- The longest code word. -/
def maxCodeLength : Nat := 15

/-- The code whose symbols, from 0 on, have code words of the given lengths; a symbol of length 0
has none. -/
def PrefixCode.ofLengths (lengths : List Nat) : PrefixCode where
  counts := (List.range maxCodeLength).map fun length => lengths.count (length + 1)
  symbols :=
    let indexed := lengths.zipIdx
    ((List.range maxCodeLength).flatMap fun length =>
      (indexed.filter fun entry => entry.1 = length + 1).map Prod.snd).toArray

/-- Reads bits until they are a code word. Of the words of the length reached, `first` is the least
and `index` the place of its symbol. -/
def decodeFrom (symbols : Array Nat) :
    (counts : List Nat) → (word first index : Nat) → Bits → Option (Nat × Bits)
  | [], _, _, _, _ => none
  | _ :: _, _, _, _, [] => none
  | count :: counts, word, first, index, bit :: rest =>
      let word := 2 * word + bit.toNat
      if word < first + count then
        symbols[index + (word - first)]?.map fun symbol => (symbol, rest)
      else
        decodeFrom symbols counts word (2 * (first + count)) (index + count) rest

def PrefixCode.decode? (code : PrefixCode) (bits : Bits) : Option (Nat × Bits) :=
  decodeFrom code.symbols code.counts 0 0 0 bits

theorem decodeFrom_length {symbols : Array Nat} {counts : List Nat} {word first index symbol : Nat}
    {bits rest : Bits} (h : decodeFrom symbols counts word first index bits = some (symbol, rest)) :
    rest.length < bits.length := by
  induction counts generalizing word first index bits with
  | nil => simp [decodeFrom] at h
  | cons count counts ih =>
      cases bits with
      | nil => simp [decodeFrom] at h
      | cons bit bits =>
          simp only [decodeFrom] at h
          split at h
          · simp only [Option.map_eq_some_iff, Prod.mk.injEq] at h
            obtain ⟨_, _, _, rfl⟩ := h
            simp
          · have := ih h
            simp only [List.length_cons]
            omega

theorem PrefixCode.decode?_length {code : PrefixCode} {symbol : Nat} {bits rest : Bits}
    (h : code.decode? bits = some (symbol, rest)) : rest.length < bits.length :=
  decodeFrom_length h

end ClassMetrics.Archive
