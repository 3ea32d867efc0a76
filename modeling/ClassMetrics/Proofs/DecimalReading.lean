import Mathlib
import ClassMetrics.Metrics.Report
import ClassMetrics.Proofs.JsonText
import ClassMetrics.Proofs.TextParts

/-!
Decimal texts as numbers of JSON. The text of an integer reads as that integer, and the text of a
finite float as the decimal with the fewest digits that stands for it, whether it is written with
an exponent or without one.
-/

namespace ClassMetrics

open Decimal

/-! ## Digits -/

namespace Decimal

theorem ofDigitChars_append_zeros (digits : List Char) (count : Nat) :
    Nat.ofDigitChars 10 (digits ++ List.replicate count '0') 0 =
      Nat.ofDigitChars 10 digits 0 * 10 ^ count := by
  rw [Nat.ofDigitChars_append, Nat.ofDigitChars_replicate_zero, mul_comm]

/-- Digits of a number that is not zero, without zeros in front. -/
structure Significant (digits : List Char) : Prop where
  nonempty : digits ≠ []
  digit : ∀ char ∈ digits, char.isDigit = true
  head : digits.head? ≠ some '0'

theorem exists_stripZeros_append (digits : List Char) :
    ∃ count, digits = stripZeros digits ++ List.replicate count '0' := by
  let zeros := digits.reverse.takeWhile (· = '0')
  have hzeros : zeros.reverse = List.replicate zeros.length '0' := by
    rw [List.eq_replicate_iff]
    refine ⟨List.length_reverse, fun char hchar => ?_⟩
    simpa using List.mem_takeWhile_imp (List.mem_reverse.1 hchar)
  have hsplit : digits = stripZeros digits ++ zeros.reverse := by
    rw [stripZeros, ← List.reverse_append, List.takeWhile_append_dropWhile, List.reverse_reverse]
  exact ⟨zeros.length, by rw [← hzeros]; exact hsplit⟩

theorem significant_stripZeros {number : Nat} (hpos : 0 < number) :
    Significant (stripZeros (Nat.toDigits 10 number)) := by
  obtain ⟨count, hsplit⟩ := exists_stripZeros_append (Nat.toDigits 10 number)
  have hhead := head?_toDigits_ne_zero hpos
  have hne : stripZeros (Nat.toDigits 10 number) ≠ [] := by
    intro hnil
    rw [hnil, List.nil_append] at hsplit
    have hzero : number = 0 := by
      rw [← Nat.ofDigitChars_ten_toDigits (n := number), hsplit,
        Nat.ofDigitChars_replicate_zero, Nat.mul_zero]
    omega
  constructor
  case nonempty => exact hne
  case digit =>
      intro char hchar
      have hmem : char ∈ Nat.toDigits 10 number := by
        rw [hsplit]
        exact List.mem_append_left _ hchar
      exact Nat.isDigit_of_mem_toDigits (by omega) (by omega) hmem
  case head =>
      rw [hsplit, List.head?_append_of_ne_nil _ hne] at hhead
      exact hhead

end Decimal

/-! ## Parts of a number -/

namespace Json

def fractionText (fraction : List Char) : List Char :=
  if fraction = [] then [] else '.' :: fraction

def exponentText : Option Int → List Char
  | none => []
  | some exponent =>
      'e' :: (if exponent < 0 then '-' else '+') :: Nat.toDigits 10 exponent.natAbs

theorem exponentDigits?_toDigits (number : Nat) :
    exponentDigits? (Nat.toDigits 10 number) = some (number : Int) := by
  have hdigits : (Nat.toDigits 10 number).all Char.isDigit = true :=
    List.all_eq_true.2 fun _ => Nat.isDigit_of_mem_toDigits (by omega) (by omega)
  simp [exponentDigits?, Nat.toDigits_ne_nil, hdigits, Nat.ofDigitChars_ten_toDigits]

theorem exponent?_exponentText (exponent? : Option Int) :
    Json.exponent? (exponentText exponent?) = some (exponent?.getD 0) := by
  cases exponent? with
  | none => rfl
  | some exponent =>
      by_cases hneg : exponent < 0
      · simp [exponentText, Json.exponent?, hneg, exponentDigits?_toDigits, abs_of_neg hneg]
      · simp [exponentText, Json.exponent?, hneg, exponentDigits?_toDigits,
          abs_of_nonneg (Int.not_lt.1 hneg)]

theorem head?_exponentText (exponent? : Option Int) :
    ∀ char ∈ (exponentText exponent?).head?, char.isDigit = false := by
  cases exponent? <;> simp [exponentText, Char.isDigit]

theorem fraction?_fractionText {fraction : List Char}
    (hfraction : ∀ char ∈ fraction, char.isDigit = true) (exponent? : Option Int) :
    fraction? (fractionText fraction ++ exponentText exponent?) =
      some (fraction, exponentText exponent?) := by
  have htake := takeWhile_front hfraction (head?_exponentText exponent?)
  have hdrop := dropWhile_front hfraction (head?_exponentText exponent?)
  by_cases hnil : fraction = []
  · subst hnil
    cases exponent? <;> rfl
  · simp only [fractionText, hnil, if_false, List.cons_append, fraction?, htake, hdrop]

/-- The number of a whole part, a fraction and an exponent. -/
theorem magnitude?_parts {whole fraction : List Char} (hne : whole ≠ [])
    (hwhole : ∀ char ∈ whole, char.isDigit = true) (hzero : whole.head? = some '0' → whole = ['0'])
    (hfraction : ∀ char ∈ fraction, char.isDigit = true) (exponent? : Option Int) :
    magnitude? (whole ++ (fractionText fraction ++ exponentText exponent?)) =
      some ((Nat.ofDigitChars 10 (whole ++ fraction) 0 : ℚ) *
        10 ^ (exponent?.getD 0 - fraction.length)) := by
  have hhead : ∀ char ∈ (fractionText fraction ++ exponentText exponent?).head?,
      char.isDigit = false := by
    by_cases hnil : fraction = []
    · simpa [fractionText, hnil] using head?_exponentText exponent?
    · simp [fractionText, hnil, Char.isDigit]
  have htake := takeWhile_front hwhole hhead
  have hdrop := dropWhile_front hwhole hhead
  have hguard : ¬ (whole = [] ∨ whole.head? = some '0' ∧ whole ≠ ['0']) := by tauto
  simp only [magnitude?, htake, hdrop, hguard, if_false, fraction?_fractionText hfraction,
    exponent?_exponentText, Option.bind_eq_bind, Option.bind_some, Option.pure_def]

end Json

/-! ## Floats -/

namespace Decimal

variable {digits : List Char}

theorem shift_scale (number count : Nat) (scale : Int) :
    ((number * 10 ^ count : Nat) : ℚ) * 10 ^ scale = number * 10 ^ (count + scale) := by
  rw [zpow_add₀ (by norm_num), zpow_natCast]
  push_cast
  ring

/-- Digits that all stand behind the point, with zeros in front. -/
theorem Significant.magnitude?_behind (significant : Significant digits) (zeros : Nat) :
    Json.magnitude? ('0' :: '.' :: (List.replicate zeros '0' ++ digits)) =
      some ((Nat.ofDigitChars 10 digits 0 : ℚ) * 10 ^ (-(zeros : Int) - digits.length)) := by
  have hfraction : ∀ char ∈ List.replicate zeros '0' ++ digits, char.isDigit = true := by
    intro char hchar
    rcases List.mem_append.1 hchar with hzero | hdigit
    · rw [List.eq_of_mem_replicate hzero]
      decide
    · exact significant.digit char hdigit
  have hne : List.replicate zeros '0' ++ digits ≠ [] := by simp [significant.nonempty]
  have hread := Json.magnitude?_parts (List.cons_ne_nil '0' []) (by simp) (fun _ => rfl)
    hfraction none
  have hvalue : Nat.ofDigitChars 10 (['0'] ++ (List.replicate zeros '0' ++ digits)) 0 =
      Nat.ofDigitChars 10 digits 0 := by
    rw [← List.append_assoc, Nat.ofDigitChars_append, Nat.ofDigitChars_append,
      Nat.ofDigitChars_replicate_zero]
    simp [Nat.ofDigitChars_cons]
  rw [hvalue] at hread
  have hexponent : (none : Option Int).getD 0 - ((List.replicate zeros '0' ++ digits).length : Int)
      = -(zeros : Int) - digits.length := by
    simp
    omega
  rw [hexponent] at hread
  simpa [Json.fractionText, hne, Json.exponentText] using hread

/-- Digits with zeros up to the point and one behind it. -/
theorem Significant.magnitude?_before (significant : Significant digits) (zeros : Nat) :
    Json.magnitude? (digits ++ List.replicate zeros '0' ++ ['.', '0']) =
      some ((Nat.ofDigitChars 10 digits 0 : ℚ) * 10 ^ (zeros : Int)) := by
  have hwhole : ∀ char ∈ digits ++ List.replicate zeros '0', char.isDigit = true := by
    intro char hchar
    rcases List.mem_append.1 hchar with hdigit | hzero
    · exact significant.digit char hdigit
    · rw [List.eq_of_mem_replicate hzero]
      decide
  have hne : digits ++ List.replicate zeros '0' ≠ [] := by simp [significant.nonempty]
  have hhead : (digits ++ List.replicate zeros '0').head? ≠ some '0' := by
    rw [List.head?_append_of_ne_nil _ significant.nonempty]
    exact significant.head
  have hfraction : ∀ char ∈ ['0'], char.isDigit = true := by simp
  have hread := Json.magnitude?_parts hne hwhole (fun hzero => absurd hzero hhead) hfraction none
  have hzeros : digits ++ List.replicate zeros '0' ++ ['0'] =
      digits ++ List.replicate (zeros + 1) '0' := by
    rw [List.replicate_succ', List.append_assoc]
  rw [hzeros, ofDigitChars_append_zeros, shift_scale] at hread
  simpa [Json.fractionText, Json.exponentText] using hread

/-- Digits with a point among them or behind the last but the exponent. -/
theorem Significant.magnitude?_parts {whole fraction : List Char}
    (significant : Significant (whole ++ fraction)) (hne : whole ≠ []) (exponent? : Option Int) :
    Json.magnitude? (whole ++ (Json.fractionText fraction ++ Json.exponentText exponent?)) =
      some ((Nat.ofDigitChars 10 (whole ++ fraction) 0 : ℚ) *
        10 ^ (exponent?.getD 0 - fraction.length)) := by
  have hhead : whole.head? ≠ some '0' := by
    have := significant.head
    rwa [List.head?_append_of_ne_nil _ hne] at this
  exact Json.magnitude?_parts hne
    (fun char hchar => significant.digit char (List.mem_append_left _ hchar))
    (fun hzero => absurd hzero hhead)
    (fun char hchar => significant.digit char (List.mem_append_right _ hchar)) exponent?

theorem Significant.magnitude?_plainText (significant : Significant digits) (whole : Int) :
    Json.magnitude? (plainText digits whole) =
      some ((Nat.ofDigitChars 10 digits 0 : ℚ) * 10 ^ (whole - digits.length)) := by
  by_cases hwhole : whole ≤ 0
  · have hscale : -((-whole).toNat : Int) - digits.length = whole - digits.length := by omega
    have htext : plainText digits whole =
        '0' :: '.' :: (List.replicate (-whole).toNat '0' ++ digits) := by simp [plainText, hwhole]
    rw [htext, significant.magnitude?_behind, hscale]
  · obtain ⟨places, rfl⟩ := Int.eq_ofNat_of_zero_le (Int.not_le.1 hwhole).le
    have hplaces : places ≠ 0 := by omega
    by_cases hlength : digits.length ≤ places
    · have hscale : ((places - digits.length : Nat) : Int) = places - digits.length := by omega
      have htext : plainText digits places =
          digits ++ List.replicate (places - digits.length) '0' ++ ['.', '0'] := by
        have htake : (digits ++ List.replicate (places - digits.length) '0').take places =
            digits ++ List.replicate (places - digits.length) '0' :=
          List.take_of_length_le (by simp; omega)
        simp [plainText, hplaces, hlength, htake]
      rw [htext, significant.magnitude?_before, hscale]
    · have hfraction : digits.drop places ≠ [] := by
        rw [Ne, List.drop_eq_nil_iff]
        exact hlength
      have htext : plainText digits places = digits.take places ++
          (Json.fractionText (digits.drop places) ++ Json.exponentText none) := by
        have hzeros : places - digits.length = 0 := by omega
        simp [plainText, hplaces, hzeros, Json.fractionText, hfraction, Json.exponentText]
      have hne : digits.take places ≠ [] := by
        simp [significant.nonempty]
        omega
      have hparts : Significant (digits.take places ++ digits.drop places) := by
        rwa [List.take_append_drop]
      have hscale : (none : Option Int).getD 0 - ((digits.drop places).length : Int) =
          places - digits.length := by
        simp
        omega
      rw [htext, hparts.magnitude?_parts hne none, List.take_append_drop, hscale]

theorem Significant.magnitude?_exponentText (significant : Significant digits) (exponent : Int) :
    Json.magnitude? (exponentText Report.floatStyle digits exponent) =
      some ((Nat.ofDigitChars 10 digits 0 : ℚ) * 10 ^ (exponent + 1 - digits.length)) := by
  obtain ⟨digit, others, rfl⟩ := List.exists_cons_of_ne_nil significant.nonempty
  have htext : exponentText Report.floatStyle (digit :: others) exponent =
      [digit] ++ (Json.fractionText others ++ Json.exponentText (some exponent)) := by
    by_cases hneg : exponent < 0 <;> cases others <;>
      simp [exponentText, Report.floatStyle, hneg, Json.fractionText, Json.exponentText]
  have hscale : (some exponent).getD 0 - (others.length : Int) =
      exponent + 1 - ((digit :: others).length : Int) := by
    simp
  have hparts : Significant ([digit] ++ others) := significant
  rw [htext, hparts.magnitude?_parts (List.cons_ne_nil _ _), hscale, List.singleton_append]

/-! ## The shortest decimal -/

def ScaledDigits.value (decimal : ScaledDigits) : ℚ :=
  decimal.digits * 10 ^ decimal.scale

/-- Zero is outside the interval that rounds to a positive number. -/
theorem onGrid?_pos {tie : Tie} {number : Binary} {scale : Int} {decimal : ScaledDigits}
    (hpos : 0 < number.mantissa) (hgrid : onGrid? tie number scale = some decimal) :
    0 < decimal.digits := by
  unfold onGrid? at hgrid
  extract_lets unit step value low high closed fits below above downward upward preferAbove at hgrid
  have hunit : 0 < unit := Nat.mul_pos (Nat.pow_pos (by omega)) (Nat.pow_pos (by omega))
  have hlow : 0 < low := Nat.mul_pos (by split <;> omega) hunit
  have hhigh : 0 < high := Nat.mul_pos (by omega) hunit
  have hzero : fits 0 = false := by simp [fits, hlow.ne, hhigh.ne]
  have hbelow : fits below = true → 0 < below := fun hfits =>
    Nat.pos_of_ne_zero fun hnone => by rw [hnone, hzero] at hfits; cases hfits
  cases hfirst : fits below <;> cases hsecond : fits above <;>
    simp only [hfirst, hsecond, Option.some.injEq, reduceCtorEq] at hgrid
  case false.true =>
      subst hgrid
      exact Nat.succ_pos below
  case true.false =>
      subst hgrid
      exact hbelow hfirst
  case true.true =>
      subst hgrid
      change 0 < if preferAbove then above else below
      split
      · exact Nat.succ_pos below
      · exact hbelow hfirst

theorem shortest_pos (tie : Tie) {number : Binary} (hpos : 0 < number.mantissa) :
    0 < (shortest tie number).digits := by
  unfold shortest
  extract_lets first
  cases hfound : (List.range maxDigits).findSome? fun more =>
      onGrid? tie number (first - (more : Nat)) with
  | none => exact hpos
  | some decimal =>
      obtain ⟨more, -, hgrid⟩ := List.exists_of_findSome?_eq_some hfound
      exact onGrid?_pos hpos hgrid

theorem magnitude?_magnitudeText {number : Binary} (hpos : 0 < number.mantissa) :
    Json.magnitude? (magnitudeText Report.floatStyle number) =
      some (shortest .even number).value := by
  let decimal := shortest .even number
  let all := Nat.toDigits 10 decimal.digits
  let first := decimal.scale + all.length - 1
  have significant := significant_stripZeros (shortest_pos .even hpos)
  obtain ⟨count, hsplit⟩ := exists_stripZeros_append all
  have hlength : (all.length : Int) = (stripZeros all).length + count := by
    conv_lhs => rw [hsplit]
    simp
  have hscale : first + 1 - (stripZeros all).length = count + decimal.scale := by
    simp only [first]
    omega
  have hvalue : (Nat.ofDigitChars 10 (stripZeros all) 0 : ℚ) *
      10 ^ (first + 1 - (stripZeros all).length) = decimal.value := by
    rw [hscale, ← shift_scale, ← ofDigitChars_append_zeros, ← hsplit,
      Nat.ofDigitChars_ten_toDigits]
    rfl
  have htext : magnitudeText Report.floatStyle number =
      if -5 ≤ first ∧ first ≤ 15 then plainText (stripZeros all) (first + 1)
      else exponentText Report.floatStyle (stripZeros all) first := rfl
  rw [htext, ← hvalue]
  split
  · exact significant.magnitude?_plainText _
  · exact significant.magnitude?_exponentText _

/-! ## Finite floats -/

/-- The number that a float is written as, if it is finite. -/
def FloatValue.decimal? : FloatValue → Option ℚ
  | .notANumber | .infinite _ => none
  | .zero _ => some 0
  | .finite negative magnitude => some (Json.sign negative * (shortest .even magnitude).value)

theorem mantissa_pos_of_value_finite {format : BinaryFormat} {bits : Nat} {negative : Bool}
    {magnitude : Binary} (hvalue : format.value bits = .finite negative magnitude) :
    0 < magnitude.mantissa := by
  unfold BinaryFormat.value at hvalue
  extract_lets fraction biased sign least at hvalue
  split at hvalue
  · split at hvalue <;> cases hvalue
  split at hvalue
  · split at hvalue
    · cases hvalue
    · cases hvalue
      exact Nat.pos_of_ne_zero ‹_›
  · cases hvalue
    exact Nat.add_pos_left (Nat.pow_pos (by omega)) _

section

open Float.Model Float.Model.UnpackedFloat

/-- A float is finite unless all bits of its exponent are set. -/
theorem isFinite_iff (value : Float) :
    value.isFinite = true ↔ value.toBits.toNat / 2 ^ 52 % 2 ^ 11 ≠ 2 ^ 11 - 1 := by
  let bits : BitVec Format.binary64.numBits := value.toModel.toBits.toBitVec
  have hexponent : unpackExponent bits = -1#11 ↔
      value.toBits.toNat / 2 ^ 52 % 2 ^ 11 = 2 ^ 11 - 1 := by
    rw [unpackExponent_def, ← BitVec.toNat_inj]
    simp [bits, Float.toBits, BitVec.extractLsb', Nat.shiftRight_eq_div_pow]
  rw [Ne, ← hexponent]
  change (UnpackedFloat.unpack Format.binary64 bits).isFinite = true ↔ _
  unfold UnpackedFloat.unpack
  extract_lets mantissa exponent
  split
  case isTrue hall => exact iff_of_false (by split <;> exact Bool.false_ne_true) (not_not.2 hall)
  case isFalse hnot =>
      refine iff_of_true ?_ hnot
      split
      · split <;> rfl
      · rfl

end

theorem isSome_decimal? (value : Float) :
    (double.value value.toBits.toNat).decimal?.isSome = value.isFinite := by
  rw [Bool.eq_iff_iff, isFinite_iff]
  unfold BinaryFormat.value
  extract_lets fraction biased sign least
  split
  case isTrue hall =>
      exact iff_of_false (by split <;> exact Bool.false_ne_true) (not_not.2 hall)
  case isFalse hnot =>
      refine iff_of_true ?_ hnot
      split
      · split <;> rfl
      · rfl

end Decimal

/-! ## Words -/

namespace Json

theorem number?_of_magnitude? {word : List Char} {value : ℚ}
    (hread : magnitude? word = some value) : number? word = some value := by
  unfold number?
  split
  · simp [magnitude?, Char.isDigit] at hread
  · exact hread

theorem number?_signed {text : List Char} {value : ℚ} (negative : Bool)
    (hread : magnitude? text = some value) :
    number? (signed negative (String.ofList text)).toList = some (sign negative * value) := by
  cases negative with
  | false => simpa [signed, sign] using number?_of_magnitude? hread
  | true => simp [signed, number?, hread]

theorem magnitude?_toDigits (number : Nat) :
    magnitude? (Nat.toDigits 10 number) = some (number : ℚ) := by
  have hzero : (Nat.toDigits 10 number).head? = some '0' → Nat.toDigits 10 number = ['0'] := by
    rcases Nat.eq_zero_or_pos number with rfl | hpos
    · exact fun _ => rfl
    · exact fun hhead => absurd hhead (head?_toDigits_ne_zero hpos)
  have hread := magnitude?_parts Nat.toDigits_ne_nil
    (fun _ => Nat.isDigit_of_mem_toDigits (by omega) (by omega)) hzero
    (fun _ hmem => absurd hmem List.not_mem_nil) none
  simpa [fractionText, exponentText, Nat.ofDigitChars_ten_toDigits] using hread

theorem number?_integerText (value : Int) :
    number? (Report.integerText value) = some (value : ℚ) := by
  cases value with
  | ofNat number => exact number?_of_magnitude? (magnitude?_toDigits number)
  | negSucc number =>
      simp only [Report.integerText, number?, magnitude?_toDigits, Option.map_some, sign,
        Int.cast_negSucc]
      simp

theorem magnitude?_zero : magnitude? ['0', '.', '0'] = some 0 := by
  have hread := magnitude?_parts (List.cons_ne_nil '0' []) (by simp) (fun _ => rfl)
    (show ∀ char ∈ ['0'], char.isDigit = true by simp) none
  simpa [fractionText, exponentText, Nat.ofDigitChars_cons] using hread

theorem number?_floatText {value : Float} {decimal : ℚ}
    (hdecimal : (double.value value.toBits.toNat).decimal? = some decimal) :
    number? (Report.floatText value) = some decimal := by
  unfold Report.floatText
  cases hvalue : double.value value.toBits.toNat with
  | notANumber => simp [hvalue, FloatValue.decimal?] at hdecimal
  | infinite negative => simp [hvalue, FloatValue.decimal?] at hdecimal
  | zero negative =>
      rw [hvalue] at hdecimal
      cases hdecimal
      have hread := number?_signed negative magnitude?_zero
      rw [mul_zero] at hread
      exact hread
  | finite negative magnitude =>
      rw [hvalue] at hdecimal
      cases hdecimal
      exact number?_signed negative (magnitude?_magnitudeText (mantissa_pos_of_value_finite hvalue))

theorem floatText_eq_null {value : Float}
    (hdecimal : (double.value value.toBits.toNat).decimal? = none) :
    Report.floatText value = "null".toList := by
  unfold Report.floatText
  cases hvalue : double.value value.toBits.toNat <;> simp_all [FloatValue.decimal?]

/-- What is written as `null` is no finite number. -/
theorem floatText_eq_null_iff {value : Float} :
    Report.floatText value = "null".toList ↔ value.isFinite = false := by
  rw [← isSome_decimal?]
  cases hdecimal : (double.value value.toBits.toNat).decimal? with
  | none => exact iff_of_true (floatText_eq_null hdecimal) rfl
  | some decimal =>
      refine iff_of_false (fun hnull => ?_) Bool.true_eq_false.mp
      have hread := number?_floatText hdecimal
      have hword : number? "null".toList = none := rfl
      rw [hnull, hword] at hread
      cases hread

/-! ## Words of numbers -/

/-- The characters that a number is made of. -/
def isNumeric (char : Char) : Bool :=
  char.isDigit || char = '.' || char = 'e' || char = 'E' || char = '+' || char = '-'

theorem endsWord_of_isNumeric {char : Char} (hnumeric : isNumeric char = true) :
    endsWord char = false := by
  by_contra hends
  rw [Bool.not_eq_false, endsWord, Bool.or_eq_true, Bool.or_eq_true] at hends
  rcases hends with (hmark | hquote) | hblank
  · unfold mark? at hmark
    split at hmark <;> first | exact absurd hnumeric (by decide) | cases hmark
  · rw [of_decide_eq_true hquote] at hnumeric
    exact absurd hnumeric (by decide)
  · simp only [isBlank, Bool.or_eq_true, decide_eq_true_eq] at hblank
    rcases hblank with ((rfl | rfl) | rfl) | rfl <;> exact absurd hnumeric (by decide)

theorem isNumeric_of_exponentDigits? {digits : List Char} {exponent : Int}
    (hread : exponentDigits? digits = some exponent) : ∀ char ∈ digits, isNumeric char = true := by
  unfold exponentDigits? at hread
  split at hread
  case isTrue hdigits =>
      intro char hchar
      simp [isNumeric, List.all_eq_true.1 hdigits.2 char hchar]
  case isFalse => cases hread

theorem isNumeric_of_exponent? {text : List Char} {exponent : Int}
    (hread : exponent? text = some exponent) : ∀ char ∈ text, isNumeric char = true := by
  cases text with
  | nil => simp
  | cons mark rest =>
      simp only [exponent?] at hread
      split at hread
      case isFalse => cases hread
      case isTrue hmark =>
          have hrest : ∀ char ∈ rest, isNumeric char = true := by
            split at hread
            · obtain ⟨exponent, hdigits, -⟩ := Option.map_eq_some_iff.1 hread
              exact List.forall_mem_cons.2 ⟨rfl, isNumeric_of_exponentDigits? hdigits⟩
            · exact List.forall_mem_cons.2 ⟨rfl, isNumeric_of_exponentDigits? hread⟩
            · exact isNumeric_of_exponentDigits? hread
          refine List.forall_mem_cons.2 ⟨?_, hrest⟩
          rcases hmark with rfl | rfl <;> rfl

theorem isNumeric_of_fraction? {text fraction rest : List Char}
    (hread : fraction? text = some (fraction, rest))
    (hrest : ∀ char ∈ rest, isNumeric char = true) : ∀ char ∈ text, isNumeric char = true := by
  unfold fraction? at hread
  split at hread
  case h_1 behind =>
      extract_lets digits at hread
      split at hread
      · cases hread
      · obtain ⟨rfl, rfl⟩ := Prod.mk.inj (Option.some.inj hread)
        rw [← List.takeWhile_append_dropWhile (p := Char.isDigit) (l := behind)]
        refine List.forall_mem_cons.2 ⟨rfl, List.forall_mem_append.2 ⟨?_, hrest⟩⟩
        intro char hchar
        simp [isNumeric, List.mem_takeWhile_imp hchar]
  case h_2 =>
      cases hread
      exact hrest

theorem isNumeric_of_magnitude? {word : List Char} {value : ℚ}
    (hread : magnitude? word = some value) : ∀ char ∈ word, isNumeric char = true := by
  unfold magnitude? at hread
  extract_lets whole at hread
  split at hread
  · cases hread
  · obtain ⟨⟨fraction, rest⟩, hfraction, hrest⟩ := Option.bind_eq_some_iff.1 hread
    obtain ⟨exponent, hexponent, -⟩ := Option.bind_eq_some_iff.1 hrest
    rw [← List.takeWhile_append_dropWhile (p := Char.isDigit) (l := word)]
    refine List.forall_mem_append.2
      ⟨?_, isNumeric_of_fraction? hfraction (isNumeric_of_exponent? hexponent)⟩
    intro char hchar
    simp [isNumeric, List.mem_takeWhile_imp hchar]

theorem isNumeric_of_number? {word : List Char} {value : ℚ} (hread : number? word = some value) :
    ∀ char ∈ word, isNumeric char = true := by
  unfold number? at hread
  split at hread
  · obtain ⟨magnitude, hmagnitude, -⟩ := Option.map_eq_some_iff.1 hread
    exact List.forall_mem_cons.2 ⟨rfl, isNumeric_of_magnitude? hmagnitude⟩
  · exact isNumeric_of_magnitude? hread

/-- A word that the scanner takes as a whole and puts out as a value. -/
structure Spells (word : List Char) (value : Json) : Prop where
  nonempty : word ≠ []
  unbroken : ∀ char ∈ word, endsWord char = false
  literal : literal? word = some value

theorem spells_null : Spells "null".toList .null where
  nonempty := by decide
  unbroken := by simp [endsWord, mark?, isBlank]
  literal := rfl

theorem spells_of_number? {word : List Char} {value : ℚ} (hread : number? word = some value) :
    Spells word (.number value) where
  nonempty := by
    rintro rfl
    cases hread
  unbroken := fun char hchar => endsWord_of_isNumeric (isNumeric_of_number? hread char hchar)
  literal := by
    have hnot (name : List Char) (hname : ∃ char ∈ name, isNumeric char = false) : word ≠ name := by
      rintro rfl
      obtain ⟨char, hchar, hnumeric⟩ := hname
      rw [isNumeric_of_number? hread char hchar] at hnumeric
      cases hnumeric
    rw [literal?, if_neg (hnot _ (by simp [isNumeric, Char.isDigit])),
      if_neg (hnot _ (by simp [isNumeric, Char.isDigit])),
      if_neg (hnot _ (by simp [isNumeric, Char.isDigit])), hread, Option.map_some]

/-- A word leaves its value behind. -/
theorem Spells.run {word : List Char} {value : Json} (spells : Spells word value)
    (tokens : List Token) :
    ∃ scanner, Scanner.run ⟨tokens, .between⟩ word = some scanner ∧
      scanner.Holds (tokens ++ [.literal value]) :=
  ⟨⟨tokens, .word word⟩, Scanner.run_between_word tokens spells.nonempty spells.unbroken,
    Scanner.holds_word tokens spells.literal⟩

end Json

end ClassMetrics
