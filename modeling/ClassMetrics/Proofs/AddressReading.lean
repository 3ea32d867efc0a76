import Mathlib
import ClassMetrics.Endpoint.Host
import ClassMetrics.Proofs.Pairing
import ClassMetrics.Proofs.TextParts

/-!
Addresses of hosts read back. An address of the shorter kind is below 2^32 and is written as four
numbers; one of the longer kind has eight pieces below 2^16 and is written without its longest run
of zeros.
-/

namespace ClassMetrics.Endpoint

/-! ## Four numbers -/

theorem ipv4Number?_toDigits (number : Nat) :
    ipv4Number? (Nat.toDigits 10 number) = some number := by
  have hbase : ipv4Number?.inBase 10 (Nat.toDigits 10 number) = some number := by
    rw [ipv4Number?.inBase, if_pos (isNumeral_toDigits (by omega) (by omega) number),
      numeral_toDigits (by omega) (by omega)]
  have hzero : ∀ digit digits, Nat.toDigits 10 number ≠ '0' :: digit :: digits := by
    intro digit digits hdigits
    rcases Nat.eq_zero_or_pos number with rfl | hpos
    · cases hdigits
    · exact head?_toDigits_ne_zero hpos (by rw [hdigits]; rfl)
  unfold ipv4Number?
  split
  case h_1 hnil => exact absurd hnil Nat.toDigits_ne_nil
  case h_2 hdigits => exact absurd hdigits (hzero _ _)
  case h_3 hdigits => exact absurd hdigits (hzero _ _)
  case h_4 hdigits => exact absurd hdigits (hzero _ _)
  case h_5 => exact hbase

/-- The text of four numbers. -/
def dottedText (numbers : List Nat) : List Char :=
  ['.'].intercalate (numbers.map (Nat.toDigits 10))

theorem isDigit_of_mem_toDigits {number : Nat} :
    ∀ char ∈ Nat.toDigits 10 number, char.isDigit = true :=
  fun _ => Nat.isDigit_of_mem_toDigits (by omega) (by omega)

theorem splitOn_dottedText {numbers : List Nat} (hne : numbers ≠ []) :
    (dottedText numbers).splitOn '.' = numbers.map (Nat.toDigits 10) := by
  refine List.splitOn_intercalate '.' ?_ (by simpa using hne)
  intro part hpart hdot
  obtain ⟨number, -, rfl⟩ := List.mem_map.1 hpart
  exact absurd (isDigit_of_mem_toDigits _ hdot) (by decide)

theorem parseIpv4_dottedText {a b c d : Nat} (ha : a < 256) (hb : b < 256) (hc : c < 256)
    (hd : d < 256) :
    parseIpv4 (dottedText [a, b, c, d]) =
      .ok (.ipv4 (a * 0x1000000 + b * 0x10000 + c * 256 + d)) := by
  have hsplit := splitOn_dottedText (List.cons_ne_nil a [b, c, d])
  have hlast : Nat.toDigits 10 d ≠ [] := Nat.toDigits_ne_nil
  have hfits : ¬ ((255 < a ∨ 255 < b ∨ 255 < c) ∨ 256 ≤ d) := by omega
  have hsum : d + a * 0x1000000 + b * 0x10000 + c * 256 =
      a * 0x1000000 + b * 0x10000 + c * 256 + d := by omega
  simp [parseIpv4, hsplit, hlast, ipv4Number?_toDigits, hfits, hsum]

/-- Numbers below 256 leave room for what follows them. -/
theorem foldl_places_le (front : List Nat) (start sum : Nat)
    (hfront : ∀ number ∈ front, number ≤ 255) (hcount : start + front.length ≤ 4) :
    (front.zipIdx start).foldl (fun sum place => sum + place.1 * Nat.pow 256 (3 - place.2)) sum +
        Nat.pow 256 (4 - start - front.length) ≤ sum + Nat.pow 256 (4 - start) := by
  induction front generalizing start sum with
  | nil => simp
  | cons number front ih =>
      obtain ⟨hnumber, hrest⟩ := List.forall_mem_cons.1 hfront
      rw [List.length_cons] at hcount ⊢
      have htail := ih (start + 1) (sum + number * Nat.pow 256 (3 - start)) hrest (by omega)
      have hplaces : 4 - (start + 1) - front.length = 4 - start - (front.length + 1) := by omega
      have hpower : Nat.pow 256 (4 - start) = Nat.pow 256 (3 - start) * 256 := by
        rw [show 4 - start = 3 - start + 1 by omega]
        rfl
      have hroom : (number + 1) * Nat.pow 256 (3 - start) ≤ Nat.pow 256 (3 - start) * 256 := by
        rw [Nat.mul_comm (Nat.pow _ _)]
        exact Nat.mul_le_mul_right _ (by omega)
      rw [hplaces, show 4 - (start + 1) = 3 - start by omega] at htail
      rw [Nat.add_mul, Nat.one_mul] at hroom
      simp only [List.zipIdx_cons, List.foldl_cons, hpower]
      omega

theorem exists_address_of_parseIpv4 {domain : List Char} {host : Host}
    (hparse : parseIpv4 domain = .ok host) :
    ∃ address < 0x100000000, host = .ipv4 address := by
  unfold parseIpv4 at hparse
  extract_lets all parts at hparse
  cases hnumbers : parts.mapM ipv4Number? with
  | none => simp [hnumbers] at hparse
  | some numbers =>
      have hlength := (mapM_eq_some_iff.1 hnumbers).length_eq
      simp only [hnumbers] at hparse
      split at hparse
      · cases hparse
      case isFalse hfits =>
          cases hparse
          refine ⟨_, ?_, rfl⟩
          simp only [not_or, List.any_eq_true, not_exists] at hfits
          obtain ⟨hfour, hsome, hfront, hlast⟩ := hfits
          have hcount : numbers.dropLast.length ≤ 3 := by
            rw [List.length_dropLast]
            omega
          have hsmall : ∀ number ∈ numbers.dropLast, number ≤ 255 := by simpa using hfront
          have hsum := foldl_places_le numbers.dropLast 0 (numbers.getLastD 0) hsmall (by omega)
          rw [Nat.sub_zero] at hsum
          change _ < Nat.pow 256 4
          omega

/-! ## Eight pieces -/

theorem isHex_of_mem_toDigits {number : Nat} :
    ∀ char ∈ Nat.toDigits 16 number, (hexValue? char).isSome = true := by
  intro char hchar
  obtain ⟨digit, hdigit, rfl⟩ := exists_digit_of_mem_toDigits (by omega) (by omega) hchar
  rw [hexValue?_digitChar hdigit]
  rfl

section

variable {pieces : List Nat} {gap? : Option Nat} {number : Nat} {rest : List Char}

/-- The digits of a piece, whatever follows them. -/
theorem takeWhile_piece (rest : List Char) (hnumber : number < 0x10000)
    (hrest : ∀ char ∈ rest.head?, (hexValue? char).isSome = false) :
    ((Nat.toDigits 16 number ++ rest).take 4).takeWhile (fun char => (hexValue? char).isSome) =
      Nat.toDigits 16 number := by
  have hlength : (Nat.toDigits 16 number).length ≤ 4 :=
    (Nat.length_toDigits_le_iff (by omega) (by omega)).2 hnumber
  rw [List.take_append, List.take_of_length_le hlength]
  apply takeWhile_front isHex_of_mem_toDigits
  intro char hchar
  apply hrest
  cases hroom : 4 - (Nat.toDigits 16 number).length with
  | zero => simp [hroom] at hchar
  | succ room =>
      cases rest with
      | nil => simp at hchar
      | cons first rest => simpa [hroom] using hchar

theorem toDigits_eq_cons (number : Nat) :
    ∃ first others, Nat.toDigits 16 number = first :: others ∧ first ≠ ':' := by
  obtain ⟨first, others, hdigits⟩ := List.exists_cons_of_ne_nil
    (Nat.toDigits_ne_nil (b := 16) (n := number))
  refine ⟨first, others, hdigits, ?_⟩
  rintro rfl
  have hhex := isHex_of_mem_toDigits ':' (hdigits ▸ List.mem_cons_self)
  cases hhex

theorem ipv6Pieces?_last (hroom : pieces.length ≠ 8) (hnumber : number < 0x10000) :
    ipv6Pieces? pieces gap? (Nat.toDigits 16 number) = some (pieces ++ [number], gap?) := by
  have htake := takeWhile_piece [] hnumber (by simp)
  have hvalue := numeral_toDigits (show 1 < 16 by omega) (by omega) number
  obtain ⟨first, others, hdigits, hfirst⟩ := toDigits_eq_cons number
  rw [List.append_nil, hdigits] at htake
  rw [hdigits] at hvalue ⊢
  rw [ipv6Pieces?, if_neg hroom, if_neg hfirst, htake]
  dsimp only
  split
  case h_1 => rw [hvalue]
  case h_2 hdrop => simp at hdrop

theorem ipv6Pieces?_next (hroom : pieces.length ≠ 8) (hnumber : number < 0x10000)
    (hrest : rest ≠ []) :
    ipv6Pieces? pieces gap? (Nat.toDigits 16 number ++ ':' :: rest) =
      ipv6Pieces? (pieces ++ [number]) gap? rest := by
  have htake := takeWhile_piece (':' :: rest) hnumber (by simp [hexValue?])
  have hvalue := numeral_toDigits (show 1 < 16 by omega) (by omega) number
  obtain ⟨first, others, hdigits, hfirst⟩ := toDigits_eq_cons number
  rw [hdigits, List.cons_append] at htake ⊢
  rw [hdigits] at hvalue
  rw [ipv6Pieces?, if_neg hroom, if_neg hfirst, htake]
  dsimp only
  split
  case h_1 hdrop => simp at hdrop
  case h_2 separator more hdrop =>
      have hsplit : ':' = separator ∧ rest = more := by simpa using hdrop
      obtain ⟨rfl, rfl⟩ := hsplit
      rw [if_neg (by decide), if_pos ⟨rfl, hrest⟩, hvalue]

end

theorem piecesText_cons_cons (number next : Nat) (numbers : List Nat) :
    piecesText (number :: next :: numbers) =
      Nat.toDigits 16 number ++ ':' :: piecesText (next :: numbers) := by
  simp [piecesText]

theorem piecesText_ne_nil (number : Nat) (numbers : List Nat) :
    piecesText (number :: numbers) ≠ [] := by
  cases numbers with
  | nil => simp [piecesText, Nat.toDigits_ne_nil]
  | cons next numbers => simp [piecesText_cons_cons]

/-- Pieces are read behind others, as long as there is room for them. -/
theorem ipv6Pieces?_piecesText (pieces : List Nat) {numbers : List Nat} (gap? : Option Nat)
    (hnumbers : ∀ number ∈ numbers, number < 0x10000)
    (hroom : pieces.length + numbers.length ≤ 8) :
    ipv6Pieces? pieces gap? (piecesText numbers) = some (pieces ++ numbers, gap?) := by
  induction numbers generalizing pieces with
  | nil => simp [piecesText, ipv6Pieces?]
  | cons number numbers ih =>
      obtain ⟨hnumber, hrest⟩ := List.forall_mem_cons.1 hnumbers
      rw [List.length_cons] at hroom
      cases numbers with
      | nil => simpa [piecesText] using ipv6Pieces?_last (by omega) hnumber
      | cons next numbers =>
          rw [piecesText_cons_cons, ipv6Pieces?_next (by omega) hnumber (piecesText_ne_nil _ _),
            ih _ hrest (by simp at hroom ⊢; omega), List.append_assoc, List.singleton_append]

theorem ipv6Pieces?_colon {pieces : List Nat} (rest : List Char) (hroom : pieces.length ≠ 8) :
    ipv6Pieces? pieces none (':' :: rest) =
      ipv6Pieces? (pieces ++ [0]) (some (pieces.length + 1)) rest := by
  rw [ipv6Pieces?, if_neg hroom, if_pos rfl]
  rfl

/-- Two colons stand for one zero and for those that are left out behind it. -/
theorem ipv6Pieces?_gap (pieces : List Nat) {front back : List Nat} (hne : front ≠ [])
    (hfront : ∀ number ∈ front, number < 0x10000) (hback : ∀ number ∈ back, number < 0x10000)
    (hroom : pieces.length + front.length + 1 + back.length ≤ 8) :
    ipv6Pieces? pieces none (piecesText front ++ ':' :: ':' :: piecesText back) =
      some (pieces ++ front ++ [0] ++ back, some (pieces.length + front.length + 1)) := by
  induction front generalizing pieces with
  | nil => exact absurd rfl hne
  | cons number front ih =>
      obtain ⟨hnumber, hrest⟩ := List.forall_mem_cons.1 hfront
      rw [List.length_cons] at hroom
      cases front with
      | nil =>
          have htext : piecesText [number] = Nat.toDigits 16 number := by simp [piecesText]
          rw [htext, ipv6Pieces?_next (by omega) hnumber (List.cons_ne_nil _ _),
            ipv6Pieces?_colon _ (by simp; omega), ipv6Pieces?_piecesText _ _ hback (by simp; omega)]
          simp
      | cons next front =>
          rw [piecesText_cons_cons, List.append_assoc, List.cons_append,
            ipv6Pieces?_next (by omega) hnumber (by simp),
            ih _ (List.cons_ne_nil _ _) hrest (by simp at hroom ⊢; omega)]
          simp
          omega

/-- The place of the longest zeros has as many zeros as it says. -/
theorem longestZeros_le (pieces : List Nat) :
    (longestZeros pieces).2 ≤ leadingZeros (pieces.drop (longestZeros pieces).1) := by
  unfold longestZeros
  refine List.foldlRecOn (motive := fun best : Nat × Nat =>
    best.2 ≤ leadingZeros (pieces.drop best.1)) _ _ (Nat.zero_le _) ?_
  intro best hbest index _
  dsimp only
  split
  · exact Nat.le_refl _
  · exact hbest

theorem eq_replicate_append_of_le_leadingZeros {pieces : List Nat} {count : Nat}
    (hcount : count ≤ leadingZeros pieces) :
    pieces = List.replicate count 0 ++ pieces.drop count := by
  have hzeros : pieces.takeWhile (· = 0) <+: pieces := List.takeWhile_prefix _
  have hlength : (pieces.take count).length = count := by
    rw [List.length_take]
    exact Nat.min_eq_left (hcount.trans hzeros.length_le)
  have hfront : pieces.take count <+: pieces.takeWhile (· = 0) :=
    List.prefix_of_prefix_length_le (List.take_prefix _ _) hzeros (hlength.trans_le hcount)
  have htake : pieces.take count = List.replicate count 0 := by
    rw [List.eq_replicate_iff]
    exact ⟨hlength, fun number hnumber => by
      simpa using List.mem_takeWhile_imp (hfront.subset hnumber)⟩
  rw [← htake, List.take_append_drop]

/-- Puts zeros where some were left out. -/
def filled (read? : Option (List Nat × Option Nat)) : Except UrlFault Host :=
  match read? with
  | some (pieces, some gap) =>
      .ok (.ipv6 (pieces.take gap ++ List.replicate (8 - pieces.length) 0 ++ pieces.drop gap))
  | some (pieces, none) => if pieces.length = 8 then .ok (.ipv6 pieces) else .error .ipv6
  | none => .error .ipv6

/-- What is known of an address before its first digit. -/
def ipv6Start? (text : List Char) : Option (List Nat × Option Nat × List Char) :=
  match text with
  | ':' :: ':' :: rest => some ([0], some 1, rest)
  | ':' :: _ => none
  | _ => if text.length < 2 then none else some ([], none, text)

theorem parseIpv6_eq (text : List Char) :
    parseIpv6 text =
      filled ((ipv6Start? text).bind fun start => ipv6Pieces? start.1 start.2.1 start.2.2) := rfl

theorem parseIpv6_colons (rest : List Char) :
    parseIpv6 (':' :: ':' :: rest) = filled (ipv6Pieces? [0] (some 1) rest) := rfl

theorem parseIpv6_of_head {text : List Char} (hhead : text.head? ≠ some ':')
    (hlong : 2 ≤ text.length) : parseIpv6 text = filled (ipv6Pieces? [] none text) := by
  have hstart : ipv6Start? text = some ([], none, text) := by
    unfold ipv6Start?
    split
    · exact absurd rfl hhead
    · exact absurd rfl hhead
    · rw [if_neg (Nat.not_lt.2 hlong)]
  rw [parseIpv6_eq, hstart]
  rfl

theorem head?_piecesText (number : Nat) (numbers : List Nat) (rest : List Char) :
    (piecesText (number :: numbers) ++ rest).head? ≠ some ':' := by
  obtain ⟨first, others, hdigits, hfirst⟩ := toDigits_eq_cons number
  cases numbers with
  | nil => simpa [piecesText, hdigits] using hfirst
  | cons next numbers => simpa [piecesText_cons_cons, hdigits] using hfirst

/-- Pieces with zeros among them that are left out. -/
theorem parseIpv6_gap {front back : List Nat} {count : Nat}
    (hfront : ∀ number ∈ front, number < 0x10000) (hback : ∀ number ∈ back, number < 0x10000)
    (hcount : 2 ≤ count) (hlength : front.length + count + back.length = 8) :
    parseIpv6 (piecesText front ++ ':' :: ':' :: piecesText back) =
      .ok (.ipv6 (front ++ List.replicate count 0 ++ back)) := by
  have hzeros : filled (some (front ++ [0] ++ back, some (front.length + 1))) =
      .ok (.ipv6 (front ++ List.replicate count 0 ++ back)) := by
    obtain ⟨more, rfl⟩ := Nat.exists_eq_add_of_lt (Nat.zero_lt_of_lt hcount)
    have hmore : 8 - (front ++ [0] ++ back).length = more := by
      simp
      omega
    have hgap : front.length + 1 = (front ++ [0]).length := by simp
    rw [filled, hmore, hgap, List.take_left, List.drop_left, Nat.zero_add, List.replicate_succ]
    simp
  cases front with
  | nil =>
      have hread : ipv6Pieces? [0] (some 1) (piecesText back) = some ([0] ++ back, some 1) :=
        ipv6Pieces?_piecesText _ _ hback (by simp at hlength ⊢; omega)
      have htext : piecesText [] ++ ':' :: ':' :: piecesText back =
          ':' :: ':' :: piecesText back := rfl
      rw [htext, parseIpv6_colons, hread]
      exact hzeros
  | cons number front =>
      have hread := ipv6Pieces?_gap [] (List.cons_ne_nil number front) hfront hback
        (by simp at hlength ⊢; omega)
      rw [List.length_nil, Nat.zero_add, List.nil_append] at hread
      rw [parseIpv6_of_head (head?_piecesText _ _ _) (by simp; omega), hread, hzeros]

theorem length_piecesText (number next : Nat) (numbers : List Nat) :
    2 ≤ (piecesText (number :: next :: numbers)).length := by
  have := List.length_pos_iff.2 (piecesText_ne_nil next numbers)
  simp [piecesText_cons_cons]
  omega

theorem parseIpv6_ipv6Text {pieces : List Nat} (hlength : pieces.length = 8)
    (hpieces : ∀ number ∈ pieces, number < 0x10000) :
    parseIpv6 (ipv6Text pieces) = .ok (.ipv6 pieces) := by
  have hzeros := longestZeros_le pieces
  unfold ipv6Text
  generalize longestZeros pieces = longest at hzeros ⊢
  obtain ⟨start, count⟩ := longest
  dsimp only at hzeros ⊢
  split
  case isTrue =>
      have hread := ipv6Pieces?_piecesText [] none hpieces (by simp [hlength])
      obtain ⟨number, next, numbers, rfl⟩ : ∃ number next numbers,
          pieces = number :: next :: numbers := by
        rcases pieces with _ | ⟨number, _ | ⟨next, numbers⟩⟩
        · simp at hlength
        · simp at hlength
        · exact ⟨_, _, _, rfl⟩
      have hhead := head?_piecesText number (next :: numbers) []
      rw [List.append_nil] at hhead
      rw [parseIpv6_of_head hhead (length_piecesText _ _ _), hread]
      simpa [filled] using hlength
  case isFalse hcount =>
      have hrun := eq_replicate_append_of_le_leadingZeros hzeros
      rw [List.drop_drop] at hrun
      have hsplit : pieces = pieces.take start ++ List.replicate count 0 ++
          pieces.drop (start + count) := by
        rw [List.append_assoc, ← hrun, List.take_append_drop]
      have hread := parseIpv6_gap
        (fun number hnumber => hpieces number (List.mem_of_mem_take hnumber))
        (fun number hnumber => hpieces number (List.mem_of_mem_drop hnumber))
        (Nat.not_lt.1 hcount)
        (show (pieces.take start).length + count + (pieces.drop (start + count)).length = 8 by
          rw [← hlength]
          conv_rhs => rw [hsplit]
          simp [Nat.add_assoc])
      rw [← hsplit] at hread
      rwa [List.append_assoc]

/-! ## Pieces that are read -/

theorem hexValue?_lt {char : Char} {value : Nat} (hvalue : hexValue? char = some value) :
    value < 16 := by
  unfold hexValue? at hvalue
  split at hvalue
  case isTrue hdigit =>
      cases hvalue
      have : char.toNat ≤ '9'.toNat := hdigit.2
      simp at this ⊢
      omega
  split at hvalue
  case isTrue hlower =>
      cases hvalue
      have : char.toNat ≤ 'f'.toNat := hlower.2
      simp at this ⊢
      omega
  split at hvalue
  case isTrue hupper =>
      cases hvalue
      have : char.toNat ≤ 'F'.toNat := hupper.2
      simp at this ⊢
      omega
  case isFalse => cases hvalue

theorem numeral_lt {base : Nat} {digits : List Char}
    (hdigits : ∀ digit ∈ digits, (hexValue? digit).getD 0 < base) :
    numeral base digits < base ^ digits.length := by
  induction digits using List.reverseRecOn with
  | nil => simp [numeral]
  | append_singleton digits digit ih =>
      obtain ⟨hfront, hlast⟩ := List.forall_mem_append.1 hdigits
      have hless := ih hfront
      have hdigit : (hexValue? digit).getD 0 < base := hlast digit (List.mem_singleton_self _)
      have hvalue : numeral base (digits ++ [digit]) =
          numeral base digits * base + (hexValue? digit).getD 0 := by
        simp [numeral]
      rw [hvalue, List.length_append, List.length_singleton, Nat.pow_succ]
      nlinarith

/-- The pieces of an address are numbers of sixteen bits, and there is room for them. -/
def ArePieces (pieces : List Nat) : Prop :=
  pieces.length ≤ 8 ∧ ∀ number ∈ pieces, number < 0x10000

theorem ArePieces.append {pieces more : List Nat} (hpieces : ArePieces pieces)
    (hlength : pieces.length + more.length ≤ 8) (hmore : ∀ number ∈ more, number < 0x10000) :
    ArePieces (pieces ++ more) :=
  ⟨by rwa [List.length_append], List.forall_mem_append.2 ⟨hpieces.2, hmore⟩⟩

theorem dottedNumber?_lt {part : List Char} {number : Nat}
    (hnumber : dottedNumber? part = some number) : number < 256 := by
  unfold dottedNumber? at hnumber
  split at hnumber
  · cases hnumber
  · cases hnumber
    omega

theorem dottedPieces?_small {text : List Char} {last : List Nat}
    (hlast : dottedPieces? text = some last) :
    last.length = 2 ∧ ∀ number ∈ last, number < 0x10000 := by
  obtain ⟨numbers, hnumbers, hfour⟩ := Option.bind_eq_some_iff.1 hlast
  have hsmall : ∀ number ∈ numbers, number < 256 := fun number hmem => by
    obtain ⟨part, -, hpart⟩ := exists_mem_of_forall₂ (mapM_eq_some_iff.1 hnumbers) number hmem
    exact dottedNumber?_lt hpart
  split at hfour
  · cases hfour
    simp at hsmall ⊢
    omega
  · cases hfour

theorem ArePieces.concat {pieces : List Nat} (hpieces : ArePieces pieces)
    (hroom : ¬ pieces.length = 8) {number : Nat} (hnumber : number < 0x10000) :
    ArePieces (pieces ++ [number]) := by
  have hlength := hpieces.1
  refine hpieces.append (by simp; omega) ?_
  simpa using hnumber

theorem numeral_piece_lt (text : List Char) :
    numeral 16 ((text.take 4).takeWhile fun char => (hexValue? char).isSome) < 0x10000 := by
  have hdigits : ∀ digit ∈ (text.take 4).takeWhile fun char => (hexValue? char).isSome,
      (hexValue? digit).getD 0 < 16 := by
    intro digit hdigit
    have hhex := List.mem_takeWhile_imp hdigit
    obtain ⟨value, hvalue⟩ := Option.isSome_iff_exists.1 hhex
    rw [hvalue]
    exact hexValue?_lt hvalue
  have hlength : ((text.take 4).takeWhile fun char => (hexValue? char).isSome).length ≤ 4 :=
    (List.takeWhile_prefix _).length_le.trans (List.length_take_le _ _)
  exact (numeral_lt hdigits).trans_le (Nat.pow_le_pow_right (by omega) hlength)

theorem ipv6Pieces?_arePieces {pieces result : List Nat} {gap? last? : Option Nat}
    {text : List Char} (hpieces : ArePieces pieces)
    (hread : ipv6Pieces? pieces gap? text = some (result, last?)) : ArePieces result := by
  fun_induction ipv6Pieces? pieces gap? text with
  | case1 =>
      cases hread
      exact hpieces
  | case2 => cases hread
  | case3 => cases hread
  | case4 pieces gap? rest hroom hgap ih => exact ih (hpieces.concat hroom (by omega)) hread
  | case5 pieces gap? first others hroom hfirst digits hend =>
      cases hread
      exact hpieces.concat hroom (numeral_piece_lt _)
  | case6 => cases hread
  | case7 pieces gap? first others hroom hfirst digits rest hdotted hdrop =>
      obtain ⟨last, hlast, hresult⟩ := Option.map_eq_some_iff.1 hread
      cases hresult
      obtain ⟨htwo, hsmall⟩ := dottedPieces?_small hlast
      exact hpieces.append (by omega) hsmall
  | case8 pieces gap? first others hroom hfirst digits separator rest hdrop hdot hcolon ih =>
      exact ih (hpieces.concat hroom (numeral_piece_lt _)) hread
  | case9 => cases hread

theorem ipv6Start?_arePieces {text rest : List Char} {pieces : List Nat} {gap? : Option Nat}
    (hstart : ipv6Start? text = some (pieces, gap?, rest)) : ArePieces pieces := by
  unfold ipv6Start? at hstart
  split at hstart
  · cases hstart
    exact ⟨by decide, by simp⟩
  · cases hstart
  · split at hstart
    · cases hstart
    · cases hstart
      exact ⟨by decide, by simp⟩

theorem exists_pieces_of_parseIpv6 {text : List Char} {host : Host}
    (hparse : parseIpv6 text = .ok host) :
    ∃ pieces, host = .ipv6 pieces ∧ pieces.length = 8 ∧ ∀ number ∈ pieces, number < 0x10000 := by
  rw [parseIpv6_eq] at hparse
  unfold filled at hparse
  split at hparse
  case h_1 pieces gap hread =>
      obtain ⟨⟨start, gap?, rest⟩, hstart, hpieces⟩ := Option.bind_eq_some_iff.1 hread
      obtain ⟨hlength, hsmall⟩ := ipv6Pieces?_arePieces (ipv6Start?_arePieces hstart) hpieces
      cases hparse
      refine ⟨_, rfl, ?_, ?_⟩
      · simp
        omega
      · intro number hnumber
        rcases List.mem_append.1 hnumber with hfront | hback
        · rcases List.mem_append.1 hfront with htake | hzero
          · exact hsmall number (List.mem_of_mem_take htake)
          · rw [List.eq_of_mem_replicate hzero]
            omega
        · exact hsmall number (List.mem_of_mem_drop hback)
  case h_2 pieces hread =>
      obtain ⟨⟨start, gap?, rest⟩, hstart, hpieces⟩ := Option.bind_eq_some_iff.1 hread
      split at hparse
      · cases hparse
        exact ⟨pieces, rfl, ‹_›,
          (ipv6Pieces?_arePieces (ipv6Start?_arePieces hstart) hpieces).2⟩
      · cases hparse
  case h_3 => cases hparse

end ClassMetrics.Endpoint
