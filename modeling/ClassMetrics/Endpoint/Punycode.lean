/-!
Labels of domain names in ASCII. A label with other characters is written as its ASCII characters,
a hyphen, and numbers that say which characters go where among them. The numbers are in a base of
36, with digits that end a number below a threshold; the thresholds adapt to the numbers before.
-/

namespace ClassMetrics.Endpoint.Punycode

def digit (value : Nat) : Char :=
  Char.ofNat (if value < 26 then 'a'.toNat + value else '0'.toNat + (value - 26))

def digitValue? (char : Char) : Option Nat :=
  if 'a' ≤ char ∧ char ≤ 'z' then some (char.toNat - 'a'.toNat)
  else if 'A' ≤ char ∧ char ≤ 'Z' then some (char.toNat - 'A'.toNat)
  else if '0' ≤ char ∧ char ≤ '9' then some (char.toNat - '0'.toNat + 26)
  else none

/-- The least digit at a position that does not end a number. -/
def threshold (position bias : Nat) : Nat :=
  if position ≤ bias then 1 else min 26 (position - bias)

theorem threshold_pos (position bias : Nat) : 0 < threshold position bias := by
  unfold threshold
  split <;> omega

theorem threshold_le (position bias : Nat) : threshold position bias ≤ 26 := by
  unfold threshold
  split <;> omega

/-- Divides a difference down, counting the digits that it takes. -/
def reduce (delta shift : Nat) : Nat × Nat :=
  if 455 < delta then reduce (delta / 35) (shift + 36) else (delta, shift)
termination_by delta
decreasing_by omega

/-- The bias for the next number. -/
def adapt (delta count : Nat) (isFirst : Bool) : Nat :=
  let damped := if isFirst then delta / 700 else delta / 2
  let (rest, shift) := reduce (damped + damped / count) 0
  shift + 36 * rest / (rest + 38)

/-- The digits of a number. -/
def numberDigits (bias position number : Nat) : List Char :=
  let limit := threshold position bias
  if number < limit then [digit number]
  else
    digit (limit + (number - limit) % (36 - limit)) ::
      numberDigits bias (position + 36) ((number - limit) / (36 - limit))
termination_by number
decreasing_by
  have hpos := threshold_pos position bias
  have hle := Nat.div_le_self (number - threshold position bias) (36 - threshold position bias)
  omega

structure Encoder where
  digits : List Char
  delta : Nat
  bias : Nat
  handled : Nat

/-- Passes over a character while the code point in turn is encoded. -/
def encodeStep (point basic : Nat) (encoder : Encoder) (char : Char) : Encoder :=
  if char.toNat < point then { encoder with delta := encoder.delta + 1 }
  else if char.toNat = point then
    { digits := encoder.digits ++ numberDigits encoder.bias 36 encoder.delta
      delta := 0
      bias := adapt encoder.delta (encoder.handled + 1) (encoder.handled = basic)
      handled := encoder.handled + 1 }
  else encoder

/-- Encodes the given code points, which come in ascending order. -/
def encodePoints (label : List Char) (basic : Nat) : List Nat → Nat → Encoder → List Char
  | [], _, encoder => encoder.digits
  | point :: points, previous, encoder =>
      let start :=
        { encoder with delta := encoder.delta + (point - previous) * (encoder.handled + 1) }
      let next := label.foldl (encodeStep point basic) start
      encodePoints label basic points (point + 1) { next with delta := next.delta + 1 }

/-- The ASCII form of a label, without the mark that tells it from a plain one. -/
def encode (label : List Char) : List Char :=
  let basic := label.filter (·.toNat < 0x80)
  let points := ((label.filter (0x80 ≤ ·.toNat)).map Char.toNat).mergeSort.eraseReps
  let front := if basic.isEmpty then [] else basic ++ ['-']
  front ++ encodePoints label basic.length points 0x80 ⟨[], 0, 72, basic.length⟩

/-- Reads a number off the front of digits. -/
def number? (bias : Nat) : (position weight value : Nat) → List Char → Option (Nat × List Char)
  | _, _, _, [] => none
  | position, weight, value, char :: rest => do
      let digit ← digitValue? char
      let value := value + digit * weight
      let limit := threshold position bias
      if digit < limit then return (value, rest)
      number? bias (position + 36) (weight * (36 - limit)) value rest

theorem number?_length {bias position weight value result : Nat} {chars rest : List Char}
    (h : number? bias position weight value chars = some (result, rest)) :
    rest.length < chars.length := by
  induction chars generalizing position weight value with
  | nil => simp [number?] at h
  | cons char chars ih =>
      simp only [number?, bind, Option.bind_eq_some_iff] at h
      obtain ⟨digit, _, h⟩ := h
      split at h
      · simp only [pure, Option.some.injEq, Prod.mk.injEq] at h
        simp [← h.2]
      · have hshorter := ih h
        simp only [List.length_cons]
        omega

/-- Puts characters in their places, as the numbers say. -/
def insertPoints (point place bias : Nat) (label chars : List Char) : Option (List Char) :=
  if chars = [] then some label
  else match _h : number? bias 36 1 0 chars with
    | none => none
    | some (delta, rest) =>
        let count := label.length + 1
        let point := point + (place + delta) / count
        let place := (place + delta) % count
        if 0x10ffff < point ∨ (0xd800 ≤ point ∧ point ≤ 0xdfff) then none
        else
          insertPoints point (place + 1) (adapt delta count (label.all (·.toNat < 0x80)))
            (label.take place ++ Char.ofNat point :: label.drop place) rest
termination_by chars.length
decreasing_by exact number?_length _h

/-- The label that an ASCII form stands for. -/
def decode? (text : List Char) : Option (List Char) :=
  let reversed := text.reverse
  let numbers := (reversed.takeWhile (· ≠ '-')).reverse
  let basic := ((reversed.dropWhile (· ≠ '-')).drop 1).reverse
  insertPoints 0x80 0 72 basic numbers

end ClassMetrics.Endpoint.Punycode
