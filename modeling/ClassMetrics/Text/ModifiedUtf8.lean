import ClassMetrics.Text.Utf8

/-!
Constant strings. Class files write text in a variant of UTF-8 in which NUL takes two bytes and a
supplementary character is a pair of three-byte surrogates. Plain UTF-8 is accepted as well, and
text that is neither is read leniently, with a question mark for what makes no sense.
-/

namespace ClassMetrics.ModifiedUtf8

/-- Whether a byte continues a character. -/
def isContinuation (byte : UInt8) : Bool :=
  0x80 ≤ byte && byte ≤ 0xbf

/-- The low six bits, which a continuation byte adds. -/
def tailBits (byte : UInt8) : Nat :=
  byte.toNat % 64

/-- The second and third byte of a leading surrogate, whose first byte is `0xed`. -/
def isHighSurrogate (second third : UInt8) : Bool :=
  0xa0 ≤ second && second ≤ 0xaf && isContinuation third

/-- The second and third byte of a trailing surrogate, whose first byte is `0xed`. -/
def isLowSurrogate (second third : UInt8) : Bool :=
  0xb0 ≤ second && second ≤ 0xbf && isContinuation third

/-- The supplementary character of a surrogate pair, from the bytes behind each `0xed`. -/
def pairChar (high₂ high₃ low₂ low₃ : UInt8) : Char :=
  Char.ofNat (0x10000 + (high₂.toNat % 16 * 64 + tailBits high₃) * 1024 +
    (low₂.toNat % 16 * 64 + tailBits low₃))

/-- The code point of a two-byte form. -/
def twoByte (first second : UInt8) : Nat :=
  first.toNat % 32 * 64 + tailBits second

/-- The code point of a three-byte form. -/
def threeByte (first second third : UInt8) : Nat :=
  first.toNat % 16 * 4096 + tailBits second * 64 + tailBits third

/-- The second byte that may follow the first byte of a three-byte form, so that the form is
neither overlong nor a surrogate. -/
def isSecond (first second : UInt8) : Bool :=
  if first = 0xe0 then 0xa0 ≤ second && second ≤ 0xbf
  else if first = 0xed then 0x80 ≤ second && second ≤ 0x9f
  else isContinuation second

/-- The character at the front of a well-formed text, and the number of bytes it takes beyond its
first one. -/
def strictChar? (first : UInt8) (rest : Bytes) : Option (Char × Nat) :=
  if first = 0 then none
  else if first < 0x80 then some (Char.ofNat first.toNat, 0)
  else if first = 0xc0 then
    match rest with
    | 0x80 :: _ => some ('\x00', 1)
    | _ => none
  else if 0xc2 ≤ first ∧ first ≤ 0xdf then
    match rest with
    | second :: _ => if isContinuation second then some (Char.ofNat (twoByte first second), 1) else none
    | _ => none
  else if 0xe0 ≤ first ∧ first ≤ 0xef then
    match rest with
    | second :: third :: more =>
        if isSecond first second && isContinuation third then
          some (Char.ofNat (threeByte first second third), 2)
        else if first = 0xed && isHighSurrogate second third then
          match more with
          | 0xed :: low₂ :: low₃ :: _ =>
              if isLowSurrogate low₂ low₃ then some (pairChar second third low₂ low₃, 5) else none
          | _ => none
        else none
    | _ => none
  else none

/-- Decodes a well-formed text. -/
def strict? : Bytes → Option (List Char)
  | [] => some []
  | first :: rest =>
      match strictChar? first rest with
      | none => none
      | some (char, more) => (strict? (rest.drop more)).map (char :: ·)
termination_by bytes => bytes.length
decreasing_by
  simp only [List.length_drop, List.length_cons]
  omega

/-- The supplementary character of a surrogate pair at the front. -/
def pair? : Bytes → Option Char
  | 0xed :: high₂ :: high₃ :: 0xed :: low₂ :: low₃ :: _ =>
      if isHighSurrogate high₂ high₃ && isLowSurrogate low₂ low₃ then
        some (pairChar high₂ high₃ low₂ low₃)
      else none
  | _ => none

/-- The character that a code point of at most 16 bits stands for; a lone surrogate stands for
none. -/
def scalar (code : Nat) : Char :=
  if 0xd800 ≤ code ∧ code ≤ 0xdfff then '?' else Char.ofNat code

/-- The character at the front of any text, and the number of bytes it takes beyond its first one.
Overlong forms are accepted. -/
def lenientChar (first : UInt8) (rest : Bytes) : Char × Nat :=
  match pair? (first :: rest) with
  | some char => (char, 5)
  | none =>
      if 0xe0 ≤ first ∧ first ≤ 0xef then
        match rest with
        | second :: third :: _ =>
            if isContinuation second then
              if isContinuation third then (scalar (threeByte first second third), 2) else ('?', 1)
            else ('?', 0)
        | [second] => if isContinuation second then ('?', 1) else ('?', 0)
        | [] => ('?', 0)
      else if 0xc0 ≤ first ∧ first ≤ 0xdf then
        match rest with
        | second :: _ =>
            if isContinuation second then (Char.ofNat (twoByte first second), 1) else ('?', 0)
        | [] => ('?', 0)
      else if first < 0x80 then (Char.ofNat first.toNat, 0)
      else ('?', 0)

/-- Decodes any text. -/
def lenient : Bytes → List Char
  | [] => []
  | first :: rest =>
      (lenientChar first rest).1 :: lenient (rest.drop (lenientChar first rest).2)
termination_by bytes => bytes.length
decreasing_by
  simp only [List.length_drop, List.length_cons]
  omega

/-- The text of a constant: UTF-8 if it is that, else the class-file variant, else the lenient
reading. -/
def decode (bytes : Bytes) : String :=
  match Utf8.decode? bytes with
  | some text => text
  | none => String.ofList ((strict? bytes).getD (lenient bytes))

end ClassMetrics.ModifiedUtf8
