import ClassMetrics.Text.Unseen

/-!
Texts in double quotes, as messages show them. Quotes and backslashes are escaped, and characters
that cannot be seen are written by name or by code point.
-/

namespace ClassMetrics.Text

def lowerHex (number : Nat) : List Char :=
  Nat.toDigits 16 number

/-- A character as it stands between quotes. -/
def quotedChar (char : Char) : List Char :=
  match char with
  | '"' => ['\\', '"']
  | '\\' => ['\\', '\\']
  | '\x00' => ['\\', '0']
  | '\t' => ['\\', 't']
  | '\n' => ['\\', 'n']
  | '\r' => ['\\', 'r']
  | _ => if isUnseen char then ['\\', 'u', '\x7b'] ++ lowerHex char.toNat ++ ['\x7d'] else [char]

/-- A text in quotes. -/
def quoted (text : String) : String :=
  String.ofList ('"' :: text.toList.flatMap quotedChar ++ ['"'])

end ClassMetrics.Text
