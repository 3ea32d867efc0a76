/-!
Numbers in texts, by the values of their digits.
-/

namespace ClassMetrics

def hexValue? (char : Char) : Option Nat :=
  if '0' ≤ char ∧ char ≤ '9' then some (char.toNat - '0'.toNat)
  else if 'a' ≤ char ∧ char ≤ 'f' then some (char.toNat - 'a'.toNat + 10)
  else if 'A' ≤ char ∧ char ≤ 'F' then some (char.toNat - 'A'.toNat + 10)
  else none

/-- A number in the given base. -/
def numeral (base : Nat) (digits : List Char) : Nat :=
  digits.foldl (fun value digit => value * base + (hexValue? digit).getD 0) 0

def isNumeral (base : Nat) (digits : List Char) : Bool :=
  digits.all fun digit =>
    match hexValue? digit with
    | some value => value < base
    | none => false

end ClassMetrics
