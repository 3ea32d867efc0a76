/-!
Byte strings and the fixed-width integers they hold. A byte string is a list, so readers take a
field off the front and hand back what follows it.
-/

namespace ClassMetrics

/-- A string of bytes, first byte first. -/
abbrev Bytes := List UInt8

namespace Bytes

/-- The number whose base-256 digits are the given bytes, most significant first. -/
def bigEndian (bytes : Bytes) : Nat :=
  bytes.foldl (fun value byte => value * 256 + byte.toNat) 0

/-- The number whose base-256 digits are the given bytes, least significant first. -/
def littleEndian (bytes : Bytes) : Nat :=
  bytes.foldr (fun byte value => byte.toNat + 256 * value) 0

/-- The two's complement reading of a 32-bit word. -/
def signed32 (word : Nat) : Int :=
  if word < 0x80000000 then word else (word : Int) - 0x100000000

/-- The two's complement reading of a 64-bit word. -/
def signed64 (word : Nat) : Int :=
  if word < 0x8000000000000000 then word else (word : Int) - 0x10000000000000000

/-- The first `count` bytes and what follows them, if there are that many. The length is taken of
the front part alone, so the cost does not depend on what follows. -/
def split? (count : Nat) (bytes : Bytes) : Option (Bytes × Bytes) :=
  let (front, back) := bytes.splitAt count
  if front.length = count then some (front, back) else none

/-- The unsigned 16-bit word at the front. -/
def word16? : Bytes → Option Nat
  | a :: b :: _ => some (bigEndian [a, b])
  | _ => none

/-- The signed 32-bit word at the front. -/
def int32? : Bytes → Option Int
  | a :: b :: c :: d :: _ => some (signed32 (bigEndian [a, b, c, d]))
  | _ => none

theorem split?_eq_some_iff {count : Nat} {bytes front back : Bytes} :
    split? count bytes = some (front, back) ↔
      front ++ back = bytes ∧ front.length = count := by
  simp only [split?, List.splitAt_eq]
  constructor
  · intro h
    split at h
    · next hlength =>
        simp only [Option.some.injEq, Prod.mk.injEq] at h
        obtain ⟨rfl, rfl⟩ := h
        exact ⟨List.take_append_drop count bytes, hlength⟩
    · cases h
  · rintro ⟨rfl, rfl⟩
    simp

theorem split?_eq_none_iff {count : Nat} {bytes : Bytes} :
    split? count bytes = none ↔ bytes.length < count := by
  simp only [split?, List.splitAt_eq, List.length_take]
  split
  · next h => simp only [reduceCtorEq, false_iff]; omega
  · next h => simp only [true_iff]; omega

end Bytes

end ClassMetrics
