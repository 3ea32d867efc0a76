import ClassMetrics.Text.Digits
import ClassMetrics.Text.Utf8

/-!
Percent-encoding. Each part of a URL has a set of ASCII characters that are written as a percent
sign and two hexadecimal digits; characters outside ASCII always are, byte by byte.
-/

namespace ClassMetrics.Endpoint

/-- ASCII characters to be encoded, beside controls. -/
structure EncodeSet where
  chars : List Char

namespace EncodeSet

def controls : EncodeSet := ⟨[]⟩
def fragment : EncodeSet := ⟨[' ', '"', '<', '>', '\x60']⟩
def query : EncodeSet := ⟨[' ', '"', '#', '<', '>']⟩
def specialQuery : EncodeSet := ⟨'\'' :: query.chars⟩
def path : EncodeSet := ⟨fragment.chars ++ ['#', '?', '\x7b', '\x7d']⟩
def userinfo : EncodeSet := ⟨path.chars ++ ['/', ':', ';', '=', '@', '[', '\\', ']', '^', '|']⟩

def contains (set : EncodeSet) (char : Char) : Bool :=
  char.toNat < 0x20 || 0x7f ≤ char.toNat || set.chars.contains char

end EncodeSet

def upperHexDigit (value : Nat) : Char :=
  (Nat.digitChar value).toUpper

def encodedByte (byte : UInt8) : List Char :=
  ['%', upperHexDigit (byte.toNat / 16), upperHexDigit (byte.toNat % 16)]

def encodeChar (set : EncodeSet) (char : Char) : List Char :=
  if set.contains char then (Utf8.encode (String.singleton char)).flatMap encodedByte else [char]

def percentEncode (set : EncodeSet) (text : List Char) : List Char :=
  text.flatMap (encodeChar set)

/-- The bytes of a text, with percent signs that two hexadecimal digits follow decoded. -/
def percentDecode : List Char → Bytes
  | [] => []
  | '%' :: high :: low :: rest =>
      match hexValue? high, hexValue? low with
      | some high, some low => UInt8.ofNat (high * 16 + low) :: percentDecode rest
      | _, _ => 0x25 :: percentDecode (high :: low :: rest)
  | char :: rest => Utf8.encode (String.singleton char) ++ percentDecode rest

end ClassMetrics.Endpoint
