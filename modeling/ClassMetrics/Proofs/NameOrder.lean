import Mathlib
import ClassMetrics.Text.Utf8

/-!
The order of names and of sequences of names. Names are ordered by their code points, and their
UTF-8 forms are in the same order as byte strings. Sequences that part at some place are ordered by
the items they have there, whatever follows.
-/

namespace ClassMetrics

/-- Two sequences part at a place where the first one has the lesser item. Neither is then a
beginning of the other. -/
inductive PartsBelow {α : Type} (less : α → α → Prop) : List α → List α → Prop
  | here {first second : α} {rest others : List α} (h : less first second) :
      PartsBelow less (first :: rest) (second :: others)
  | later {item : α} {rest others : List α} (h : PartsBelow less rest others) :
      PartsBelow less (item :: rest) (item :: others)

namespace PartsBelow

variable {α : Type} {less : α → α → Prop} {first second third : List α}

/-- What follows the place where two sequences part does not matter. -/
theorem append (h : PartsBelow less first second) (rest others : List α) :
    PartsBelow less (first ++ rest) (second ++ others) := by
  induction h with
  | here hless => exact .here hless
  | later _ ih => exact .later ih

theorem append_left (h : PartsBelow less first second) (common : List α) :
    PartsBelow less (common ++ first) (common ++ second) := by
  induction common with
  | nil => exact h
  | cons item _ ih => exact .later ih

/-- Two sequences that differ in their last items only. -/
theorem of_last {item other : α} (h : less item other) (common : List α) :
    PartsBelow less (common ++ [item]) (common ++ [other]) :=
  append_left (.here h) common

theorem trans (htrans : ∀ {a b c}, less a b → less b c → less a c)
    (h : PartsBelow less first second) (hnext : PartsBelow less second third) :
    PartsBelow less first third := by
  induction h generalizing third with
  | here hless =>
      cases hnext with
      | here hsecond => exact .here (htrans hless hsecond)
      | later => exact .here hless
  | later hrest ih =>
      cases hnext with
      | here hsecond => exact .here hsecond
      | later hothers => exact .later (ih hothers)

theorem irrefl (hirrefl : ∀ item, ¬less item item) (sequence : List α) :
    ¬PartsBelow less sequence sequence := by
  induction sequence with
  | nil => rintro ⟨⟩
  | cons item rest ih =>
      intro h
      cases h with
      | here hless => exact hirrefl item hless
      | later hrest => exact ih hrest

theorem map {β : Type} {lessImage : β → β → Prop} (h : PartsBelow less first second)
    (image : α → β) (himage : ∀ a b, less a b → lessImage (image a) (image b)) :
    PartsBelow lessImage (first.map image) (second.map image) := by
  induction h with
  | here hless => exact .here (himage _ _ hless)
  | later _ ih => exact .later ih

/-- Sequences that part are in lexicographic order. -/
theorem lt [LT α] (h : PartsBelow (· < ·) first second) : first < second := by
  induction h with
  | here hless => exact List.cons_lt_cons_iff.2 (Or.inl hless)
  | later _ ih => exact List.cons_lt_cons_iff.2 (Or.inr ⟨rfl, ih⟩)

end PartsBelow

namespace Utf8

section Scalars

variable {first second : Nat} {rest others : Bytes}

theorem partsBelow_bytes_of_lt (h : first < second) (hsecond : second < 256) :
    PartsBelow (· < ·) (UInt8.ofNat first :: rest) (UInt8.ofNat second :: others) := by
  apply PartsBelow.here
  rw [UInt8.lt_iff_toNat_lt, UInt8.toNat_ofNat', UInt8.toNat_ofNat']
  omega

theorem partsBelow_bytes_of_le (h : first ≤ second) (hsecond : second < 256)
    (hrest : first = second → PartsBelow (· < ·) rest others) :
    PartsBelow (· < ·) (UInt8.ofNat first :: rest) (UInt8.ofNat second :: others) := by
  rcases Nat.lt_or_eq_of_le h with hlt | rfl
  · exact partsBelow_bytes_of_lt hlt hsecond
  · exact .later (hrest rfl)

end Scalars

/-- The bytes of a lesser scalar part below those of a greater one: a longer form has a greater
first byte, and forms of one length are compared digit by digit. -/
theorem partsBelow_utf8EncodeChar {char other : Char} (h : char < other) :
    PartsBelow (· < ·) (String.utf8EncodeChar char) (String.utf8EncodeChar other) := by
  have hless : char.val.toNat < other.val.toNat := h
  have hlast : other.val.toNat < 0x110000 := by
    have := other.valid
    simp only [UInt32.isValidChar, Nat.isValidChar] at this
    omega
  simp only [String.utf8EncodeChar]
  generalize char.val.toNat = code at hless ⊢
  generalize other.val.toNat = otherCode at hless hlast ⊢
  split
  · split
    · exact partsBelow_bytes_of_lt hless (by omega)
    · split
      · exact partsBelow_bytes_of_lt (by omega) (by omega)
      · split
        · exact partsBelow_bytes_of_lt (by omega) (by omega)
        · exact partsBelow_bytes_of_lt (by omega) (by omega)
  · rw [if_neg (show ¬otherCode ≤ 127 by omega)]
    split
    · split
      · refine partsBelow_bytes_of_le (by omega) (by omega) fun hlead => ?_
        exact partsBelow_bytes_of_lt (by omega) (by omega)
      · split
        · exact partsBelow_bytes_of_lt (by omega) (by omega)
        · exact partsBelow_bytes_of_lt (by omega) (by omega)
    · rw [if_neg (show ¬otherCode ≤ 2047 by omega)]
      split
      · split
        · refine partsBelow_bytes_of_le (by omega) (by omega) fun hlead => ?_
          refine partsBelow_bytes_of_le (by omega) (by omega) fun hmiddle => ?_
          exact partsBelow_bytes_of_lt (by omega) (by omega)
        · exact partsBelow_bytes_of_lt (by omega) (by omega)
      · rw [if_neg (show ¬otherCode ≤ 65535 by omega)]
        refine partsBelow_bytes_of_le (by omega) (by omega) fun hlead => ?_
        refine partsBelow_bytes_of_le (by omega) (by omega) fun hsecond => ?_
        refine partsBelow_bytes_of_le (by omega) (by omega) fun hthird => ?_
        exact partsBelow_bytes_of_lt (by omega) (by omega)

theorem byteArray_toList_loop (bytes : ByteArray) (start : Nat) (taken : Bytes) :
    ByteArray.toList.loop bytes start taken = taken.reverse ++ bytes.data.toList.drop start := by
  fun_induction ByteArray.toList.loop bytes start taken with
  | case1 start taken hstart ih =>
      have hlength : start < bytes.data.toList.length := hstart
      have hbyte : bytes.get! start = bytes.data.toList[start] := by
        rw [Array.getElem_toList]
        exact getElem!_pos bytes.data start hstart
      rw [ih, List.drop_eq_getElem_cons hlength, hbyte]
      simp
  | case2 start taken hstart =>
      rw [List.drop_eq_nil_of_le (Nat.le_of_not_lt hstart), List.append_nil]

/-- The UTF-8 form of a text is that of its characters, one after another. -/
theorem encode_eq_flatMap (text : String) :
    encode text = text.toList.flatMap String.utf8EncodeChar := by
  rw [encode, String.toUTF8, ← String.utf8Encode_toList, ByteArray.toList, byteArray_toList_loop,
    List.utf8Encode, List.toList_data_toByteArray]
  rfl

theorem flatMap_utf8EncodeChar_lt {chars others : List Char} (h : List.Lex (· < ·) chars others) :
    chars.flatMap String.utf8EncodeChar < others.flatMap String.utf8EncodeChar := by
  induction h with
  | @nil char rest =>
      rw [List.flatMap_nil, List.flatMap_cons]
      obtain ⟨byte, bytes, hbytes⟩ :=
        List.exists_cons_of_ne_nil (String.utf8EncodeChar_ne_nil : String.utf8EncodeChar char ≠ [])
      rw [hbytes]
      exact List.nil_lt_cons _ _
  | cons _ ih =>
      rw [List.flatMap_cons, List.flatMap_cons]
      exact List.append_left_lt ih
  | rel hless =>
      rw [List.flatMap_cons, List.flatMap_cons]
      exact ((partsBelow_utf8EncodeChar hless).append _ _).lt

/-- Names in the order of their code points are in the order of their bytes. -/
theorem encode_lt_encode {name other : String} (h : name < other) :
    encode name < encode other := by
  rw [encode_eq_flatMap, encode_eq_flatMap]
  exact flatMap_utf8EncodeChar_lt (String.lt_iff_toList_lt.1 h)

end Utf8

/-- Sequences of names that part are in the order of their names' bytes. -/
theorem PartsBelow.encoded_lt {path other : List String} (h : PartsBelow (· < ·) path other) :
    path.map Utf8.encode < other.map Utf8.encode :=
  (h.map Utf8.encode fun _ _ => Utf8.encode_lt_encode).lt

end ClassMetrics
