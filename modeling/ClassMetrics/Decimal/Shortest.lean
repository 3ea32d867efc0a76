/-!
The shortest decimal that reads back to a binary floating-point number. All comparisons are exact:
a number, the ends of the interval that rounds to it and the points of a decimal grid are natural
numbers over a common denominator.
-/

namespace ClassMetrics.Decimal

/-- The positive number `mantissa * 2 ^ exponent`. The gap below it is half the gap above it if it
is the least number of its binade. -/
structure Binary where
  mantissa : Nat
  exponent : Int
  narrowBelow : Bool
  deriving DecidableEq, Repr

/-- A floating-point number by its bits. -/
inductive FloatValue where
  | notANumber
  | infinite (negative : Bool)
  | zero (negative : Bool)
  | finite (negative : Bool) (magnitude : Binary)
  deriving DecidableEq, Repr

/-- Field widths of a binary interchange format. -/
structure BinaryFormat where
  exponentBits : Nat
  mantissaBits : Nat

def single : BinaryFormat := ⟨8, 23⟩

def double : BinaryFormat := ⟨11, 52⟩

/-- The number that a bit pattern stands for. -/
def BinaryFormat.value (format : BinaryFormat) (bits : Nat) : FloatValue :=
  let fraction := bits % Nat.pow 2 format.mantissaBits
  let biased := bits / Nat.pow 2 format.mantissaBits % Nat.pow 2 format.exponentBits
  let negative := bits / Nat.pow 2 (format.mantissaBits + format.exponentBits) % 2 = 1
  let least : Int := 2 - (Nat.pow 2 (format.exponentBits - 1) : Nat) - format.mantissaBits
  if biased = Nat.pow 2 format.exponentBits - 1 then
    if fraction = 0 then .infinite negative else .notANumber
  else if biased = 0 then
    if fraction = 0 then .zero negative else .finite negative ⟨fraction, least, false⟩
  else
    .finite negative
      ⟨Nat.pow 2 format.mantissaBits + fraction, least + (biased - 1 : Nat),
        fraction = 0 ∧ 1 < biased⟩

/-- The number `digits * 10 ^ scale`. -/
structure ScaledDigits where
  digits : Nat
  scale : Int
  deriving DecidableEq, Repr

/-- Where a value half-way between two decimals goes. -/
inductive Tie where
  | even
  | up
  deriving DecidableEq, Repr

def digitCount (number : Nat) : Nat :=
  (Nat.toDigits 10 number).length

/-- The exponent of the power of ten that starts the decade of a positive quotient. -/
def decade (numerator denominator : Nat) : Int :=
  if denominator ≤ numerator then
    digitCount (numerator / denominator) - 1
  else
    let whole := (denominator + numerator - 1) / numerator
    Int.negOfNat (digitCount (whole - 1))

/-- The better of the two points of the grid `10 ^ scale` next to a number, of those that round
back to it. Quarters of the number's unit express the interval's ends. -/
def onGrid? (tie : Tie) (number : Binary) (scale : Int) : Option ScaledDigits :=
  let unit := Nat.pow 2 (number.exponent - 2).toNat * Nat.pow 10 (-scale).toNat
  let step := Nat.pow 2 (2 - number.exponent).toNat * Nat.pow 10 scale.toNat
  let value := 4 * number.mantissa * unit
  let low := (4 * number.mantissa - if number.narrowBelow then 1 else 2) * unit
  let high := (4 * number.mantissa + 2) * unit
  let closed := number.mantissa % 2 = 0
  let fits (point : Nat) : Bool :=
    low < point * step && point * step < high ||
      closed && (point * step = low || point * step = high)
  let below := value / step
  let above := below + 1
  let downward := value - below * step
  let upward := above * step - value
  let preferAbove :=
    upward < downward ∨ upward = downward ∧ (tie = .up ∨ above % 2 = 0)
  match fits below, fits above with
  | false, false => none
  | true, false => some ⟨below, scale⟩
  | false, true => some ⟨above, scale⟩
  | true, true => some ⟨if preferAbove then above else below, scale⟩

/-- More digits than this are never needed. -/
def maxDigits : Nat := 17

/-- The decimal with the fewest digits that rounds back to a number, and of several the nearest. -/
def shortest (tie : Tie) (number : Binary) : ScaledDigits :=
  let first := decade (number.mantissa * Nat.pow 2 number.exponent.toNat)
    (Nat.pow 2 (-number.exponent).toNat)
  ((List.range maxDigits).findSome? fun more => onGrid? tie number (first - (more : Nat))).getD
    ⟨number.mantissa, number.exponent⟩

end ClassMetrics.Decimal
