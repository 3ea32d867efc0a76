import Mathlib
import ClassMetrics.Metrics.Summary

/-!
Quotients of counters as floats. A counter other than zero is rounded to a mantissa of 53 bits and
an exponent from -52 to 12, so that the quotient of two has an exponent far from the ends of the
format. Main statement: a quotient by a counter other than zero is finite.
-/

namespace ClassMetrics.FloatQuotient

open Float.Model Float.Model.UnpackedFloat

/-! ## Rounding -/

theorem mantissa_shiftRight (extended : ExtendedMantissa) (amount : Nat) :
    (extended >>> amount).mantissa = extended.mantissa / 2 ^ amount := by
  induction amount with
  | zero => exact (Nat.div_one _).symm
  | succ amount ih =>
      change (extended >>> amount).mantissa / 2 = _
      rw [ih, Nat.div_div_eq_div_mul, Nat.pow_succ]

theorem mantissa_ofMantissaAndAccuracy (mantissa : Nat) (accuracy : Accuracy) :
    (ExtendedMantissa.ofMantissaAndAccuracy mantissa accuracy).mantissa = mantissa := by
  cases accuracy with
  | exact => rfl
  | inexact side => cases side <;> rfl

/-- Rounding leaves a mantissa or takes it to the next. -/
theorem roundToNearestEven_cases (mantissa : Nat) (accuracy : Accuracy) :
    accuracy.roundToNearestEven mantissa = mantissa ∨
      accuracy.roundToNearestEven mantissa = mantissa + 1 := by
  cases accuracy with
  | exact => exact .inl rfl
  | inexact side =>
      cases side with
      | lt => exact .inl rfl
      | gt => exact .inr rfl
      | eq =>
          change mantissa + mantissa % 2 = mantissa ∨ mantissa + mantissa % 2 = mantissa + 1
          omega

section Rounding

variable {mantissa excess : Nat} {exponent : Int}

theorem log2_div_two_pow (hlog : mantissa.log2 = 52 + excess) :
    (mantissa / 2 ^ excess).log2 = 52 := by
  have hne : mantissa ≠ 0 := by
    rintro rfl
    simp at hlog
    omega
  have hpos : 0 < 2 ^ excess := Nat.two_pow_pos excess
  obtain ⟨hlow, hhigh⟩ := (Nat.log2_eq_iff hne).1 hlog
  rw [Nat.pow_add] at hlow
  rw [Nat.add_right_comm, Nat.pow_add] at hhigh
  have hfront : 2 ^ 52 ≤ mantissa / 2 ^ excess := (Nat.le_div_iff_mul_le hpos).2 hlow
  have hbehind : mantissa / 2 ^ excess < 2 ^ 53 := (Nat.div_lt_iff_lt_mul hpos).2 hhigh
  exact (Nat.log2_eq_iff (by omega)).2 ⟨hfront, hbehind⟩

/-- A mantissa of at least 53 bits loses those beyond them. -/
theorem shiftToTargetExponent_eq (hlog : mantissa.log2 = 52 + excess)
    (hexponent : -1074 ≤ exponent) (accuracy : Accuracy) :
    shiftToTargetExponent Format.binary64 mantissa exponent accuracy =
      (ExtendedMantissa.ofMantissaAndAccuracy mantissa accuracy >>> excess, exponent + excess) := by
  have htarget : Format.binary64.targetExponent (totalExponent mantissa exponent) =
      exponent + excess := by
    simp only [Format.targetExponent, totalExponent, Format.mantissaBits, Format.minExponent, hlog]
    omega
  have hamount : (exponent + (excess : Int) - exponent).toNat = excess := by omega
  rw [shiftToTargetExponent, htarget, shiftToExponent, hamount]

end Rounding

/-- A number with a mantissa of 53 bits and an exponent in a range. -/
inductive Normal (least greatest : Int) : UnpackedFloat → Prop where
  | finite {sign : Sign} {mantissa : Nat} {exponent : Int} {hpos : 0 < mantissa}
      (log2 : mantissa.log2 = 52) (least_le : least ≤ exponent)
      (le_greatest : exponent ≤ greatest) :
      Normal least greatest (.finite sign mantissa exponent hpos)

theorem Normal.mono {least greatest least' greatest' : Int} {value : UnpackedFloat}
    (normal : Normal least greatest value) (hleast : least' ≤ least)
    (hgreatest : greatest ≤ greatest') : Normal least' greatest' value := by
  cases normal with
  | finite log2 least_le le_greatest =>
      exact .finite log2 (Int.le_trans hleast least_le) (Int.le_trans le_greatest hgreatest)

theorem Normal.isFinite {least greatest : Int} {value : UnpackedFloat}
    (normal : Normal least greatest value) : value.isFinite = true := by
  cases normal
  rfl

/-- Rounding a mantissa of at least 53 bits gives one of 53 bits. -/
theorem normal_roundWithAccuracy {mantissa excess : Nat} {exponent : Int}
    (hlog : mantissa.log2 = 52 + excess) (hexponent : -1074 ≤ exponent) (sign : Sign)
    (accuracy : Accuracy) :
    Normal (exponent + excess) (exponent + excess + 1)
      (roundWithAccuracy Format.binary64 sign mantissa exponent accuracy) := by
  let shifted := ExtendedMantissa.ofMantissaAndAccuracy mantissa accuracy >>> excess
  have hshifted : shifted.mantissa.log2 = 52 := by
    rw [mantissa_shiftRight, mantissa_ofMantissaAndAccuracy, log2_div_two_pow hlog]
  -- Only a carry out of 53 ones needs the second shift.
  obtain ⟨carry, hcarry, hrounded⟩ :
      ∃ carry ≤ 1, shifted.roundedMantissa.log2 = 52 + carry := by
    have hne : shifted.mantissa ≠ 0 := by
      intro hzero
      rw [hzero] at hshifted
      exact absurd hshifted (by decide)
    obtain ⟨hlow, hhigh⟩ := (Nat.log2_eq_iff hne).1 hshifted
    have hcases : shifted.roundedMantissa = shifted.mantissa ∨
        shifted.roundedMantissa = shifted.mantissa + 1 := roundToNearestEven_cases _ _
    by_cases hfull : shifted.roundedMantissa = 2 ^ 53
    · exact ⟨1, Nat.le_refl 1, by rw [hfull, Nat.log2_two_pow]⟩
    · exact ⟨0, Nat.zero_le 1, (Nat.log2_eq_iff (by omega)).2 (by omega)⟩
  have hfinal := log2_div_two_pow hrounded
  have hmantissa : (ExtendedMantissa.ofMantissaAndAccuracy shifted.roundedMantissa .exact >>>
      carry).mantissa = shifted.roundedMantissa / 2 ^ carry := mantissa_shiftRight _ _
  have hne : shifted.roundedMantissa / 2 ^ carry ≠ 0 := by
    intro hzero
    rw [hzero] at hfinal
    exact absurd hfinal (by decide)
  rw [roundWithAccuracy, shiftToTargetExponent_eq hlog hexponent]
  simp only
  rw [shiftToTargetExponent_eq hrounded (by omega)]
  simp only
  rw [dif_neg (by rw [hmantissa]; exact hne)]
  exact .finite (by rw [hmantissa]; exact hfinal) (by omega) (by omega)

theorem log2_shiftLeft {number : Nat} (hne : number ≠ 0) (amount : Nat) :
    (number <<< amount).log2 = number.log2 + amount := by
  induction amount with
  | zero => rfl
  | succ amount ih =>
      have hshifted : number <<< amount ≠ 0 := mt Nat.shiftLeft_eq_zero_iff.1 hne
      rw [Nat.shiftLeft_succ, Nat.log2_two_mul hshifted, ih, Nat.add_assoc]

/-- A number below 2^64 is rounded to a mantissa of 53 bits. -/
theorem normal_round {number : Nat} (hne : number ≠ 0) (hnumber : number < 2 ^ 64) (sign : Sign) :
    Normal (-52) 12 (round Format.binary64 sign number 0) := by
  have hlog : number.log2 < 64 := (Nat.log2_lt hne).2 hnumber
  have htarget : Format.binary64.targetExponent (totalExponent number 0) =
      (number.log2 : Int) - 52 := by
    simp only [Format.targetExponent, totalExponent, Format.mantissaBits, Format.minExponent]
    omega
  have hamount : ((0 : Int) - ((number.log2 : Int) - 52)).toNat = 52 - number.log2 := by omega
  have hshifted : (number <<< (52 - number.log2)).log2 = 52 + (number.log2 - 52) := by
    rw [log2_shiftLeft hne]
    omega
  rw [UnpackedFloat.round, htarget, decreaseExponent, hamount]
  have hround := normal_roundWithAccuracy hshifted
    (show (-1074 : Int) ≤ 0 - ↑(52 - number.log2) by omega) sign .exact
  exact hround.mono (by omega) (by omega)

/-! ## Packing -/

theorem toNat_append_one {mantissa : Nat} (hlog : mantissa.log2 = 52) :
    (1#1 ++ BitVec.ofNat 52 mantissa).toNat = mantissa := by
  have hne : mantissa ≠ 0 := by
    rintro rfl
    exact absurd hlog (by decide)
  obtain ⟨hlow, hhigh⟩ := (Nat.log2_eq_iff hne).1 hlog
  rw [BitVec.toNat_append, ← Nat.shiftLeft_add_eq_or_of_lt (BitVec.isLt _), BitVec.toNat_ofNat,
    Nat.shiftLeft_eq]
  simp only [BitVec.toNat_ofNat]
  omega

/-- A number in the middle of the format is unpacked as it was packed. -/
theorem Normal.unpack_pack {least greatest : Int} {value : UnpackedFloat}
    (normal : Normal least greatest value) (hleast : -1074 ≤ least) (hgreatest : greatest ≤ 970) :
    Normal least greatest (Float.Model.pack value).unpack := by
  cases normal with
  | @finite sign mantissa exponent hpos log2 least_le le_greatest =>
      obtain ⟨biased, hbiased⟩ : ∃ biased : Nat, (biased : Int) = exponent + 1023 + 52 :=
        ⟨(exponent + 1023 + 52).toNat, by omega⟩
      have hpacked : UnpackedFloat.pack Format.binary64 (.finite sign mantissa exponent hpos) =
          packComponents Format.binary64 sign (BitVec.ofNat 11 biased)
            (BitVec.ofNat 52 mantissa) := by
        have htoNat :
            (exponent + (Format.binary64.exponentBias : Int) + (52 : Nat)).toNat = biased := by
          simp only [Format.exponentBias]
          omega
        have hfits : ¬ 2 ^ Format.binary64.exponentBits ≤ biased + 1 := by
          change ¬ 2 ^ 11 ≤ biased + 1
          omega
        have hbits : mantissa.log2 + 1 = Format.binary64.mantissaBits := by
          rw [log2]
          rfl
        simp only [UnpackedFloat.pack]
        rw [htoNat, if_neg hfits, if_pos hbits]
      have hexponent : (BitVec.ofNat 11 biased).toNat = biased := by
        rw [BitVec.toNat_ofNat]
        omega
      change Normal least greatest (UnpackedFloat.unpack Format.binary64
        (UnpackedFloat.pack Format.binary64 (.finite sign mantissa exponent hpos)))
      rw [hpacked, UnpackedFloat.unpack]
      simp only [unpackExponent_packComponents, unpackMantissa_packComponents]
      have hfinite : BitVec.ofNat 11 biased ≠ -1#11 := by
        intro hall
        have htoNat := congrArg BitVec.toNat hall
        rw [hexponent] at htoNat
        change biased = 2047 at htoNat
        omega
      have hnormal : BitVec.ofNat 11 biased ≠ 0#11 := by
        intro hzero
        have htoNat := congrArg BitVec.toNat hzero
        rw [hexponent] at htoNat
        change biased = 0 at htoNat
        omega
      rw [if_neg hfinite, if_neg hnormal]
      have hmantissa := toNat_append_one log2
      refine .finite (by rw [hmantissa, log2]) ?_ ?_ <;>
        rw [hexponent] <;> simp only [Format.exponentBias] <;> omega

/-! ## Division -/

/-- The quotient of two mantissas of 53 bits, the first with 53 more bits, has 53 or 54 bits. -/
theorem log2_quotient {first second : Nat} (hfirst : first.log2 = 52) (hsecond : second.log2 = 52) :
    ∃ excess ≤ 1, (first <<< 53 / second).log2 = 52 + excess := by
  have hne {number : Nat} (hlog : number.log2 = 52) : number ≠ 0 := by
    rintro rfl
    exact absurd hlog (by decide)
  obtain ⟨hlow₁, hhigh₁⟩ := (Nat.log2_eq_iff (hne hfirst)).1 hfirst
  obtain ⟨hlow₂, hhigh₂⟩ := (Nat.log2_eq_iff (hne hsecond)).1 hsecond
  have hpos : 0 < second := Nat.pos_of_ne_zero (hne hsecond)
  rw [Nat.shiftLeft_eq]
  have hlow : 2 ^ 52 ≤ first * 2 ^ 53 / second := by
    rw [Nat.le_div_iff_mul_le hpos]
    omega
  have hhigh : first * 2 ^ 53 / second < 2 ^ 54 := by
    rw [Nat.div_lt_iff_lt_mul hpos]
    omega
  have hquotient : first * 2 ^ 53 / second ≠ 0 := by omega
  refine ⟨(first * 2 ^ 53 / second).log2 - 52, ?_, ?_⟩
  · have hlog := (Nat.log2_lt hquotient).2 hhigh
    omega
  · have hlog := (Nat.le_log2 hquotient).2 hlow
    omega

theorem normal_div {first second : UnpackedFloat} (hfirst : Normal (-52) 12 first)
    (hsecond : Normal (-52) 12 second) :
    Normal (-117) 13 (UnpackedFloat.div Format.binary64 first second) := by
  cases hfirst with
  | @finite sign₁ mantissa₁ exponent₁ _ hlog₁ hleast₁ hgreatest₁ =>
  cases hsecond with
  | @finite sign₂ mantissa₂ exponent₂ _ hlog₂ hleast₂ hgreatest₂ =>
  obtain ⟨excess, hexcess, hquotient⟩ := log2_quotient hlog₁ hlog₂
  have htarget : Format.binary64.targetExponent
      (totalExponent mantissa₁ exponent₁ - totalExponent mantissa₂ exponent₂) =
        exponent₁ - exponent₂ - 53 := by
    simp only [Format.targetExponent, totalExponent, Format.mantissaBits, Format.minExponent, hlog₁,
      hlog₂]
    omega
  have hmin : min (exponent₁ - exponent₂) (exponent₁ - exponent₂ - 53) =
      exponent₁ - exponent₂ - 53 := by omega
  have hamount : (exponent₁ - exponent₂ - (exponent₁ - exponent₂ - 53)).toNat = 53 := by omega
  simp only [UnpackedFloat.div, divCore, htarget, hmin, hamount]
  exact (normal_roundWithAccuracy hquotient (by omega) _ _).mono (by omega) (by omega)

/-- Zero by a number is zero. -/
theorem isFinite_zero_div {least greatest : Int} {value : UnpackedFloat}
    (normal : Normal least greatest value) :
    (Float.Model.pack (UnpackedFloat.div Format.binary64 (0 : UInt64).toFloat.toModel.unpack
      value)).unpack.isFinite = true := by
  have hzero : (0 : UInt64).toFloat.toModel.unpack = .zero .positive := rfl
  rw [hzero]
  cases normal with
  | @finite sign mantissa exponent hpos log2 least_le le_greatest =>
      simp only [UnpackedFloat.div]
      generalize Sign.positive / sign = quotient
      cases quotient <;> rfl

theorem normal_toFloat {counter : UInt64} (hne : counter ≠ 0) :
    Normal (-52) 12 counter.toFloat.toModel.unpack := by
  have hnumber : counter.toNat ≠ 0 := fun hzero => hne (UInt64.toNat_inj.1 hzero)
  have hround := normal_round hnumber counter.toNat_lt .positive
  have hcompare : compare (counter.toNat : Int) 0 = .gt := by
    rw [Int.compare_eq_gt]
    omega
  have hconverted : UnpackedFloat.ofUInt64 Format.binary64 counter =
      UnpackedFloat.round Format.binary64 .positive counter.toNat 0 := by
    simp only [UnpackedFloat.ofUInt64, UnpackedFloat.ofNat, UnpackedFloat.ofInt,
      UnpackedFloat.normalize, hcompare, Int.toNat_natCast]
  change Normal (-52) 12 (Float.Model.pack (UnpackedFloat.ofUInt64 Format.binary64 counter)).unpack
  rw [hconverted]
  exact hround.unpack_pack (by decide) (by decide)

end ClassMetrics.FloatQuotient

namespace ClassMetrics

open FloatQuotient Float.Model

/-- The quotient of two counters is a finite number unless the second is zero. -/
theorem isFinite_toFloat_div (numerator : UInt64) {denominator : UInt64} (hne : denominator ≠ 0) :
    (numerator.toFloat / denominator.toFloat).isFinite = true := by
  have hdenominator := normal_toFloat hne
  change (Float.Model.pack (UnpackedFloat.div Format.binary64 numerator.toFloat.toModel.unpack
    denominator.toFloat.toModel.unpack)).unpack.isFinite = true
  by_cases hzero : numerator = 0
  · subst hzero
    exact isFinite_zero_div hdenominator
  · have hdiv := normal_div (normal_toFloat hzero) hdenominator
    exact (hdiv.unpack_pack (by decide) (by decide)).isFinite

end ClassMetrics
