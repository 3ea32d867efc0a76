import ClassMetrics.Bytes

/-!
UTF-8. A byte string is cut into parts from the left: well-formed scalars, and malformed parts,
each the longest run that could still have begun a scalar. `decode?` refuses malformed parts,
`decodeLossy` puts the replacement character in the place of each.
-/

namespace ClassMetrics.Utf8

/-- What the first byte of a scalar of several bytes says: how many bytes follow it, the range of
the next one, and its own share of the code point. -/
structure Lead where
  following : Nat
  low : UInt8
  high : UInt8
  bits : Nat

/-- The meaning of a byte that starts a scalar of several bytes. The ranges shut out overlong
forms, surrogates and code points past the last plane. -/
def lead? (byte : UInt8) : Option Lead :=
  if 0xc2 ≤ byte ∧ byte ≤ 0xdf then some ⟨1, 0x80, 0xbf, byte.toNat - 0xc0⟩
  else if byte = 0xe0 then some ⟨2, 0xa0, 0xbf, 0⟩
  else if byte = 0xed then some ⟨2, 0x80, 0x9f, 0xd⟩
  else if 0xe1 ≤ byte ∧ byte ≤ 0xef then some ⟨2, 0x80, 0xbf, byte.toNat - 0xe0⟩
  else if byte = 0xf0 then some ⟨3, 0x90, 0xbf, 0⟩
  else if 0xf1 ≤ byte ∧ byte ≤ 0xf3 then some ⟨3, 0x80, 0xbf, byte.toNat - 0xf0⟩
  else if byte = 0xf4 then some ⟨3, 0x80, 0x8f, 4⟩
  else none

/-- Takes the continuation bytes of a scalar, as far as they fit, and what follows them. -/
def continuation : (following : Nat) → (low high : UInt8) → (bits : Nat) → Bytes →
    Option Char × Bytes
  | 0, _, _, bits, rest => (some (Char.ofNat bits), rest)
  | _ + 1, _, _, _, [] => (none, [])
  | following + 1, low, high, bits, byte :: rest =>
      if low ≤ byte ∧ byte ≤ high then
        continuation following 0x80 0xbf (bits * 64 + (byte.toNat - 0x80)) rest
      else
        (none, byte :: rest)

/-- The part that starts with the given byte: its scalar, if it is well-formed, and what follows
it. -/
def part (first : UInt8) (rest : Bytes) : Option Char × Bytes :=
  if first < 0x80 then (some (Char.ofNat first.toNat), rest)
  else match lead? first with
    | none => (none, rest)
    | some lead => continuation lead.following lead.low lead.high lead.bits rest

theorem continuation_length (following : Nat) (low high : UInt8) (bits : Nat) (rest : Bytes) :
    (continuation following low high bits rest).2.length ≤ rest.length := by
  fun_induction continuation following low high bits rest with
  | case1 => simp
  | case2 => simp
  | case3 _ _ _ _ _ _ _ ih => simp only [List.length_cons]; omega
  | case4 => simp

theorem part_length (first : UInt8) (rest : Bytes) : (part first rest).2.length ≤ rest.length := by
  unfold part
  split
  · simp
  · split
    · simp
    · exact continuation_length _ _ _ _ _

/-- The parts of a byte string: a scalar, or nothing for a malformed part. -/
def parts : Bytes → List (Option Char)
  | [] => []
  | first :: rest => (part first rest).1 :: parts (part first rest).2
termination_by bytes => bytes.length
decreasing_by
  have := part_length first rest
  simp only [List.length_cons]
  omega

/-- Decodes well-formed UTF-8. -/
def decode? (bytes : Bytes) : Option String :=
  ((parts bytes).mapM id).map String.ofList

/-- What stands for a malformed part. -/
def replacement : Char := '�'

/-- Decodes UTF-8, with a replacement character for each malformed part. -/
def decodeLossy (bytes : Bytes) : String :=
  String.ofList ((parts bytes).map (·.getD replacement))

/-- The UTF-8 form of a text. -/
def encode (text : String) : Bytes :=
  text.toUTF8.toList

end ClassMetrics.Utf8
