import Mathlib
import ClassMetrics.Endpoint.Punycode
import ClassMetrics.Proofs.Pairing

/-!
Encoded labels read back. The encoder goes over the label once for every code point that it has,
in ascending order, and counts how far the decoder has to go before it puts the next character in.
At every moment the decoder that has read the digits so far holds the characters that the encoder
has handled, and what is left for it to go is the encoder's count.

Main statement: decoding an encoded label gives the label.
-/

namespace ClassMetrics.Endpoint.Punycode

/-! ## Numbers -/

theorem digitValue?_digit {value : Nat} (hvalue : value < 36) :
    digitValue? (digit value) = some value := by
  revert value
  decide

section

variable {bias position weight value digitOf : Nat} (rest : List Char)

theorem number?_last (hlast : digitOf < threshold position bias) :
    number? bias position weight value (digit digitOf :: rest) =
      some (value + digitOf * weight, rest) := by
  have hlimit := threshold_le position bias
  simp [number?, digitValue?_digit (show digitOf < 36 by omega), hlast]

theorem number?_more (hdigit : digitOf < 36) (hmore : ¬ digitOf < threshold position bias) :
    number? bias position weight value (digit digitOf :: rest) =
      number? bias (position + 36) (weight * (36 - threshold position bias))
        (value + digitOf * weight) rest := by
  simp [number?, digitValue?_digit hdigit, hmore]

end

/-- The digits of a number read as the number, with the weight of the first one's place. -/
theorem number?_numberDigits (bias position weight value number : Nat) (rest : List Char) :
    number? bias position weight value (numberDigits bias position number ++ rest) =
      some (value + number * weight, rest) := by
  induction number using Nat.strongRecOn generalizing position weight value with
  | ind number ih =>
      have hpos := threshold_pos position bias
      have hlimit := threshold_le position bias
      rw [numberDigits]
      split
      case isTrue hlast => exact number?_last rest hlast
      case isFalse hmore =>
          let limit := threshold position bias
          let front := (number - limit) % (36 - limit)
          let back := (number - limit) / (36 - limit)
          have hfront : front < 36 - limit := Nat.mod_lt _ (by omega)
          have hback : back < number := (Nat.div_le_self _ _).trans_lt (by omega)
          have hsum : front + back * (36 - limit) = number - limit := Nat.mod_add_div' _ _
          have hnumber : number = limit + front + back * (36 - limit) := by omega
          have hdigit : limit + front < 36 := by omega
          rw [List.cons_append, number?_more _ hdigit (Nat.not_lt.2 (Nat.le_add_right _ _)),
            ih back hback]
          have hvalue : value + (limit + front) * weight + back * (weight * (36 - limit)) =
              value + number * weight := by
            conv_rhs => rw [hnumber]
            ring
          rw [hvalue]

/-! ## The decoder behind the encoder -/

/-- Takes the first number of a text that has one. -/
theorem insertPoints_of_number? {point place bias delta : Nat} {current chars rest : List Char}
    (hnumber : number? bias 36 1 0 chars = some (delta, rest)) :
    insertPoints point place bias current chars =
      let count := current.length + 1
      let next := point + (place + delta) / count
      let spot := (place + delta) % count
      if 0x10ffff < next ∨ (0xd800 ≤ next ∧ next ≤ 0xdfff) then none
      else insertPoints next (spot + 1) (adapt delta count (current.all (·.toNat < 0x80)))
        (current.take spot ++ Char.ofNat next :: current.drop spot) rest := by
  have hne : chars ≠ [] := by
    rintro rfl
    cases hnumber
  rw [insertPoints, if_neg hne]
  split
  case h_1 hnone => rw [hnumber] at hnone; cases hnone
  case h_2 delta' rest' hsome =>
      rw [hnumber] at hsome
      cases hsome
      rfl

/-- A character that stands at a place which the decoder reaches is put in there. -/
theorem insertPoints_insert {point place bias delta : Nat} {before after : List Char} (char : Char)
    (hreach : point * ((before ++ after).length + 1) + place + delta =
      char.toNat * ((before ++ after).length + 1) + before.length) (rest : List Char) :
    insertPoints point place bias (before ++ after) (numberDigits bias 36 delta ++ rest) =
      insertPoints char.toNat (before.length + 1)
        (adapt delta ((before ++ after).length + 1) ((before ++ after).all (·.toNat < 0x80)))
        (before ++ char :: after) rest := by
  let count := (before ++ after).length + 1
  have hbefore : before.length < count := by
    simp [count]
  have hsum : place + delta + point * count = before.length + char.toNat * count := by
    simp only [count]
    omega
  have hpoint : point + (place + delta) / count = char.toNat := by
    have hdiv := congrArg (· / count) hsum
    simp only [Nat.add_mul_div_right _ _ (Nat.zero_lt_of_lt hbefore),
      Nat.div_eq_of_lt hbefore] at hdiv
    omega
  have hspot : (place + delta) % count = before.length := by
    have hmod := congrArg (· % count) hsum
    simpa [Nat.add_mul_mod_self_right, Nat.mod_eq_of_lt hbefore] using hmod
  have hvalid : ¬ (0x10ffff < char.toNat ∨ (0xd800 ≤ char.toNat ∧ char.toNat ≤ 0xdfff)) := by
    have := char.valid
    simp only [UInt32.isValidChar, Nat.isValidChar] at this
    change ¬ (0x10ffff < char.val.toNat ∨ (0xd800 ≤ char.val.toNat ∧ char.val.toNat ≤ 0xdfff))
    omega
  have hread := number?_numberDigits bias 36 1 0 delta rest
  rw [Nat.zero_add, Nat.mul_one] at hread
  rw [insertPoints_of_number? hread]
  simp only [count] at hpoint hspot
  simp only [hpoint, hspot, if_neg hvalid, Char.ofNat_toNat, List.take_left, List.drop_left]

/-- The decoder has read the encoder's digits. It holds the characters before and after the place
where the encoder stands, and the encoder's count leads it there, at the given code point. -/
structure Behind (basic : List Char) (point : Nat) (before after : List Char) (encoder : Encoder) :
    Prop where
  handled : encoder.handled = (before ++ after).length
  kept : (before ++ after).filter (·.toNat < 0x80) = basic
  reach : ∃ reached place,
    (∀ rest, insertPoints 0x80 0 72 basic (encoder.digits ++ rest) =
      insertPoints reached place encoder.bias (before ++ after) rest) ∧
    reached * ((before ++ after).length + 1) + place + encoder.delta =
      point * ((before ++ after).length + 1) + before.length

namespace Behind

variable {basic before after label : List Char} {point : Nat} {encoder : Encoder} {char : Char}

/-- The first number is the one before which all characters are basic. -/
theorem isFirst_eq (behind : Behind basic point before after encoder) :
    decide (encoder.handled = basic.length) = (before ++ after).all (·.toNat < 0x80) := by
  rw [Bool.eq_iff_iff, decide_eq_true_iff, List.all_eq_true, behind.handled, ← behind.kept,
    eq_comm, List.length_filter_eq_length_iff]

theorem pass (behind : Behind basic point before (char :: after) encoder)
    (hless : char.toNat < point) :
    Behind basic point (before ++ [char]) after (encodeStep point basic.length encoder char) := by
  have hstep : encodeStep point basic.length encoder char =
      { encoder with delta := encoder.delta + 1 } := if_pos hless
  have hsame : before ++ [char] ++ after = before ++ char :: after := by simp
  have hlength : (before ++ [char]).length = before.length + 1 := List.length_append
  obtain ⟨reached, place, hread, hreach⟩ := behind.reach
  rw [hstep]
  constructor
  case handled => rw [hsame]; exact behind.handled
  case kept => rw [hsame]; exact behind.kept
  case reach =>
      rw [hsame]
      refine ⟨reached, place, hread, ?_⟩
      rw [hlength]
      change _ + (encoder.delta + 1) = _ + (before.length + 1)
      omega

theorem insert (behind : Behind basic point before after encoder) (hpoint : 0x80 ≤ point)
    (hchar : char.toNat = point) :
    Behind basic point (before ++ [char]) after (encodeStep point basic.length encoder char) := by
  obtain ⟨reached, place, hread, hreach⟩ := behind.reach
  subst hchar
  have hsame : before ++ [char] ++ after = before ++ char :: after := by simp
  have hlength : (before ++ [char]).length = before.length + 1 := List.length_append
  have hstep : encodeStep char.toNat basic.length encoder char =
      { digits := encoder.digits ++ numberDigits encoder.bias 36 encoder.delta
        delta := 0
        bias := adapt encoder.delta (encoder.handled + 1) (encoder.handled = basic.length)
        handled := encoder.handled + 1 } := by
    simp [encodeStep]
  rw [hstep]
  constructor
  case handled =>
      change encoder.handled + 1 = _
      rw [hsame, behind.handled]
      simp
      omega
  case kept =>
      rw [← behind.kept]
      simp [hpoint]
  case reach =>
      refine ⟨char.toNat, before.length + 1, fun rest => ?_, ?_⟩
      · rw [List.append_assoc, hread, insertPoints_insert char hreach, hsame, behind.handled,
          ← behind.isFirst_eq, behind.handled]
      · rw [hsame, hlength]
        rfl

/-- The encoder passes over the label. -/
theorem foldl (behind : Behind basic point before (label.filter (·.toNat < point)) encoder)
    (hpoint : 0x80 ≤ point) :
    Behind basic point (before ++ label.filter (·.toNat ≤ point)) []
      (label.foldl (encodeStep point basic.length) encoder) := by
  induction label generalizing before encoder with
  | nil => simpa using behind
  | cons char label ih =>
      rw [List.foldl_cons]
      rcases lt_trichotomy char.toNat point with hless | hequal | hmore
      · rw [List.filter_cons_of_pos (by simpa using hless)] at behind
        rw [List.filter_cons_of_pos (by simpa using hless.le), List.append_cons]
        exact ih (behind.pass hless)
      · rw [List.filter_cons_of_neg (by simp [hequal])] at behind
        rw [List.filter_cons_of_pos (by simp [hequal]), List.append_cons]
        exact ih (behind.insert hpoint hequal)
      · rw [List.filter_cons_of_neg (by simpa using hmore.le)] at behind
        rw [List.filter_cons_of_neg (by simpa using hmore)]
        have hstep : encodeStep point basic.length encoder char = encoder := by
          rw [encodeStep, if_neg (by omega), if_neg (by omega)]
        rw [hstep]
        exact ih behind

/-- From the end of the label for one code point to its start for the next. -/
theorem succ (behind : Behind basic point before [] encoder) :
    Behind basic (point + 1) [] before { encoder with delta := encoder.delta + 1 } := by
  obtain ⟨reached, place, hread, hreach⟩ := behind.reach
  constructor
  case handled => simpa using behind.handled
  case kept => simpa using behind.kept
  case reach =>
      rw [List.append_nil] at hread hreach
      refine ⟨reached, place, hread, ?_⟩
      change reached * (before.length + 1) + place + (encoder.delta + 1) =
        (point + 1) * (before.length + 1) + 0
      rw [Nat.add_mul]
      omega

/-- Code points that the label lacks are counted as often as there are places. -/
theorem advance {next : Nat} (behind : Behind basic point [] after encoder) (hle : point ≤ next) :
    Behind basic next [] after
      { encoder with delta := encoder.delta + (next - point) * (encoder.handled + 1) } := by
  obtain ⟨reached, place, hread, hreach⟩ := behind.reach
  obtain ⟨more, rfl⟩ := Nat.exists_eq_add_of_le hle
  constructor
  case handled => exact behind.handled
  case kept => exact behind.kept
  case reach =>
      refine ⟨reached, place, hread, ?_⟩
      rw [List.nil_append] at hreach ⊢
      change reached * (after.length + 1) + place +
        (encoder.delta + (point + more - point) * (encoder.handled + 1)) = _
      rw [behind.handled, List.nil_append, Nat.add_sub_cancel_left, Nat.add_mul]
      omega

end Behind

/-- The code points are given in ascending order, and none of the label is left out. -/
theorem insertPoints_encodePoints {label basic : List Char} {points : List Nat} {previous : Nat}
    {encoder : Encoder}
    (behind : Behind basic previous [] (label.filter (·.toNat < previous)) encoder)
    (hprevious : 0x80 ≤ previous) (hsorted : points.Pairwise (· < ·))
    (hleast : ∀ point ∈ points, previous ≤ point)
    (hall : ∀ char ∈ label, previous ≤ char.toNat → char.toNat ∈ points) :
    insertPoints 0x80 0 72 basic (encodePoints label basic.length points previous encoder) =
      some label := by
  induction points generalizing previous encoder with
  | nil =>
      obtain ⟨reached, place, hread, -⟩ := behind.reach
      have hlabel : label.filter (·.toNat < previous) = label := by
        rw [List.filter_eq_self]
        intro char hchar
        by_contra hmore
        exact absurd (hall char hchar (by simpa using hmore)) List.not_mem_nil
      have hend := hread []
      rw [List.append_nil, List.nil_append, hlabel] at hend
      rw [encodePoints, hend, insertPoints, if_pos rfl]
  | cons point points ih =>
      obtain ⟨hless, hsorted⟩ := List.pairwise_cons.1 hsorted
      have hle : previous ≤ point := hleast point List.mem_cons_self
      have hpoint : 0x80 ≤ point := hprevious.trans hle
      -- no character of the label lies between the two code points
      have hbetween : label.filter (·.toNat < previous) = label.filter (·.toNat < point) := by
        apply List.filter_congr
        intro char hchar
        rw [decide_eq_decide]
        refine ⟨fun hlow => hlow.trans_le hle, fun hlow => ?_⟩
        by_contra hnot
        rcases List.mem_cons.1 (hall char hchar (Nat.not_lt.1 hnot)) with hequal | hlater
        · omega
        · have := hless _ hlater
          omega
      have hnext := ((hbetween ▸ behind.advance hle).foldl hpoint).succ
      simp only [List.nil_append, ← Nat.lt_succ_iff] at hnext
      refine ih hnext (by omega) hsorted (fun later hlater => hless later hlater) ?_
      intro char hchar hmore
      rcases List.mem_cons.1 (hall char hchar (by omega)) with hequal | hlater
      · omega
      · exact hlater

/-! ## Labels -/

/-- The digits that the encoder puts out. -/
def IsDigit (char : Char) : Prop :=
  ∃ value < 36, char = digit value

theorem isDigit_of_mem_numberDigits {bias position number : Nat} {char : Char}
    (hchar : char ∈ numberDigits bias position number) : IsDigit char := by
  induction number using Nat.strongRecOn generalizing position with
  | ind number ih =>
      have hpos := threshold_pos position bias
      have hlimit := threshold_le position bias
      rw [numberDigits] at hchar
      split at hchar
      case isTrue hlast => exact ⟨number, by omega, List.mem_singleton.1 hchar⟩
      case isFalse hmore =>
          rcases List.mem_cons.1 hchar with hfirst | hlater
          · have hmod := Nat.mod_lt (number - threshold position bias)
              (show 36 - threshold position bias > 0 by omega)
            exact ⟨_, by omega, hfirst⟩
          · exact ih _ ((Nat.div_le_self _ _).trans_lt (by omega)) hlater

theorem isDigit_of_mem_foldl {point basic : Nat} {label : List Char} {encoder : Encoder}
    (hdigits : ∀ char ∈ encoder.digits, IsDigit char) :
    ∀ char ∈ (label.foldl (encodeStep point basic) encoder).digits, IsDigit char := by
  induction label generalizing encoder with
  | nil => exact hdigits
  | cons char label ih =>
      apply ih
      unfold encodeStep
      split
      · exact hdigits
      split
      · exact List.forall_mem_append.2 ⟨hdigits, fun _ => isDigit_of_mem_numberDigits⟩
      · exact hdigits

theorem isDigit_of_mem_encodePoints {basic previous : Nat} {label : List Char} {points : List Nat}
    {encoder : Encoder} (hdigits : ∀ char ∈ encoder.digits, IsDigit char) :
    ∀ char ∈ encodePoints label basic points previous encoder, IsDigit char := by
  induction points generalizing previous encoder with
  | nil => exact hdigits
  | cons point points ih => exact ih (isDigit_of_mem_foldl hdigits)

theorem IsDigit.ne_hyphen {char : Char} (hdigit : IsDigit char) : char ≠ '-' := by
  obtain ⟨value, hvalue, rfl⟩ := hdigit
  intro hhyphen
  have hread := digitValue?_digit hvalue
  rw [hhyphen] at hread
  cases hread

/-- The numbers that say where the characters of a label outside ASCII go. -/
def numbersText (label : List Char) : List Char :=
  encodePoints label (label.filter (·.toNat < 0x80)).length
    ((label.filter (0x80 ≤ ·.toNat)).map Char.toNat).mergeSort.eraseReps 0x80
    ⟨[], 0, 72, (label.filter (·.toNat < 0x80)).length⟩

theorem encode_eq (label : List Char) :
    encode label =
      (if (label.filter (·.toNat < 0x80)).isEmpty then []
        else label.filter (·.toNat < 0x80) ++ ['-']) ++ numbersText label := rfl

theorem isDigit_of_mem_numbersText {label : List Char} :
    ∀ char ∈ numbersText label, IsDigit char :=
  isDigit_of_mem_encodePoints fun _ hchar => absurd hchar List.not_mem_nil

theorem insertPoints_numbersText (label : List Char) :
    insertPoints 0x80 0 72 (label.filter (·.toNat < 0x80)) (numbersText label) = some label := by
  apply insertPoints_encodePoints
  case behind =>
      constructor
      case handled => rfl
      case kept => simp
      case reach => exact ⟨0x80, 0, fun _ => rfl, rfl⟩
  case hprevious => exact Nat.le_refl _
  case hsorted =>
      apply pairwise_eraseReps
      · exact fun _ _ _ => Nat.lt_trans
      · exact (List.pairwise_mergeSort' (· ≤ ·) _).imp Nat.eq_or_lt_of_le
  case hleast =>
      intro point hpoint
      rw [mem_eraseReps, List.mem_mergeSort] at hpoint
      obtain ⟨char, hchar, rfl⟩ := List.mem_map.1 hpoint
      simpa using (List.mem_filter.1 hchar).2
  case hall =>
      intro char hchar hmore
      rw [mem_eraseReps, List.mem_mergeSort]
      exact List.mem_map_of_mem (List.mem_filter.2 ⟨hchar, by simpa using hmore⟩)

/-- The last hyphen of an encoded label is the one behind its ASCII characters. -/
theorem decode?_of_no_hyphen (basic : List Char) {numbers : List Char}
    (hnumbers : ∀ char ∈ numbers, char ≠ '-') :
    decode? (basic ++ '-' :: numbers) = insertPoints 0x80 0 72 basic numbers ∧
      decode? numbers = insertPoints 0x80 0 72 [] numbers := by
  have hreversed : ∀ char ∈ numbers.reverse, decide (char ≠ '-') = true := by
    simpa using hnumbers
  constructor
  · have hsplit : (basic ++ '-' :: numbers).reverse = numbers.reverse ++ '-' :: basic.reverse := by
      simp
    simp only [decode?, hsplit, List.takeWhile_append_of_pos hreversed,
      List.dropWhile_append_of_pos hreversed]
    simp
  · have htake : numbers.reverse.takeWhile (· ≠ '-') = numbers.reverse :=
      List.takeWhile_eq_self_iff.2 hreversed
    have hdrop : numbers.reverse.dropWhile (· ≠ '-') = [] :=
      List.dropWhile_eq_nil_iff.2 hreversed
    simp only [decode?, htake, hdrop, List.reverse_reverse, List.drop_nil, List.reverse_nil]

theorem decode?_encode (label : List Char) : decode? (encode label) = some label := by
  have hnumbers : ∀ char ∈ numbersText label, char ≠ '-' := fun char hchar =>
    (isDigit_of_mem_numbersText char hchar).ne_hyphen
  have hinsert := insertPoints_numbersText label
  rw [encode_eq]
  split
  case isTrue hempty =>
      rw [List.isEmpty_iff.1 hempty] at hinsert
      rw [List.nil_append, (decode?_of_no_hyphen [] hnumbers).2, hinsert]
  case isFalse =>
      rw [List.append_assoc, List.singleton_append, (decode?_of_no_hyphen _ hnumbers).1, hinsert]

/-- What an encoded label is made of. -/
theorem mem_encode {label : List Char} {char : Char} (hchar : char ∈ encode label) :
    (char ∈ label ∧ char.toNat < 0x80) ∨ char = '-' ∨ IsDigit char := by
  rw [encode_eq] at hchar
  rcases List.mem_append.1 hchar with hfront | hnumber
  · split at hfront
    · cases hfront
    · rcases List.mem_append.1 hfront with hbasic | hhyphen
      · obtain ⟨hmem, hascii⟩ := List.mem_filter.1 hbasic
        exact .inl ⟨hmem, by simpa using hascii⟩
      · exact .inr (.inl (List.mem_singleton.1 hhyphen))
  · exact .inr (.inr (isDigit_of_mem_numbersText char hnumber))

end ClassMetrics.Endpoint.Punycode
