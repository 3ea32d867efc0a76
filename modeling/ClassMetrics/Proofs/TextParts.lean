import Mathlib
import ClassMetrics.Text.Digits

/-!
Texts in parts: what a class of characters takes off the front of a text, parts that a separator
joins, and numerals. What is written is read again, part by part.
-/

namespace ClassMetrics

/-! ## Fronts -/

section

variable {test : Char → Bool} {front rest : List Char}

theorem takeWhile_front (hfront : ∀ char ∈ front, test char = true)
    (hrest : ∀ char ∈ rest.head?, test char = false) : (front ++ rest).takeWhile test = front := by
  rw [List.takeWhile_append_of_pos hfront]
  cases rest with
  | nil => simp
  | cons char rest => simp [hrest char rfl]

theorem dropWhile_front (hfront : ∀ char ∈ front, test char = true)
    (hrest : ∀ char ∈ rest.head?, test char = false) : (front ++ rest).dropWhile test = rest := by
  rw [List.dropWhile_append_of_pos hfront]
  cases rest with
  | nil => rfl
  | cons char rest => simp [hrest char rfl]

theorem span_front (hfront : ∀ char ∈ front, test char = true)
    (hrest : ∀ char ∈ rest.head?, test char = false) :
    (front ++ rest).span test = (front, rest) := by
  rw [List.span_eq_takeWhile_dropWhile, takeWhile_front hfront hrest, dropWhile_front hfront hrest]

end

/-! ## Numerals -/

theorem hexValue?_digitChar {digit : Nat} (hdigit : digit < 16) :
    hexValue? (Nat.digitChar digit) = some digit := by
  interval_cases digit <;> decide

theorem head?_toDigits_ne_zero {number : Nat} (hpos : 0 < number) :
    (Nat.toDigits 10 number).head? ≠ some '0' := by
  induction number using Nat.strongRecOn with
  | ind number ih =>
      rw [Nat.toDigits_eq_if (by omega)]
      split
      case isTrue hlt => interval_cases number <;> decide
      case isFalse hge =>
          rw [List.head?_append_of_ne_nil _ Nat.toDigits_ne_nil]
          exact ih (number / 10) (by omega) (by omega)

section

variable {base : Nat} (hbase : 1 < base) (hhex : base ≤ 16)

include hbase hhex

theorem numeral_toDigits (number : Nat) : numeral base (Nat.toDigits base number) = number := by
  induction number using Nat.strongRecOn with
  | ind number ih =>
      rw [Nat.toDigits_eq_if hbase]
      split
      case isTrue hlt => simp [numeral, hexValue?_digitChar (show number < 16 by omega)]
      case isFalse hge =>
          have hfront := ih (number / base) (Nat.div_lt_self (by omega) hbase)
          have hlast := hexValue?_digitChar ((Nat.mod_lt number (by omega)).trans_le hhex)
          rw [numeral] at hfront
          rw [numeral, List.foldl_append, hfront]
          simp [hlast, Nat.div_add_mod']

theorem exists_digit_of_mem_toDigits {number : Nat} {char : Char}
    (hchar : char ∈ Nat.toDigits base number) : ∃ digit < base, char = Nat.digitChar digit := by
  induction number using Nat.strongRecOn with
  | ind number ih =>
      rw [Nat.toDigits_eq_if hbase] at hchar
      split at hchar
      case isTrue hlt => exact ⟨number, hlt, List.mem_singleton.1 hchar⟩
      case isFalse hge =>
          rcases List.mem_append.1 hchar with hfront | hlast
          · exact ih (number / base) (Nat.div_lt_self (by omega) hbase) hfront
          · exact ⟨_, Nat.mod_lt _ (by omega), List.mem_singleton.1 hlast⟩

theorem isNumeral_toDigits (number : Nat) : isNumeral base (Nat.toDigits base number) = true := by
  refine List.all_eq_true.2 fun char hchar => ?_
  obtain ⟨digit, hdigit, rfl⟩ := exists_digit_of_mem_toDigits hbase hhex hchar
  simpa [hexValue?_digitChar (hdigit.trans_le hhex)] using hdigit

end

/-! ## Separated parts -/

section

variable {separator : Char}

theorem mem_of_mem_splitOn {text part : List Char} (hpart : part ∈ text.splitOn separator)
    {char : Char} (hchar : char ∈ part) : char ∈ text ∧ char ≠ separator := by
  induction text generalizing part with
  | nil => simp_all
  | cons first text ih =>
      obtain ⟨front, parts, hparts⟩ := List.exists_cons_of_ne_nil
        (List.splitOn_ne_nil separator text)
      have hlater {other : List Char} (hother : other ∈ text.splitOn separator)
          (hmem : char ∈ other) : char ∈ first :: text ∧ char ≠ separator :=
        ⟨List.mem_cons_of_mem _ (ih hother hmem).1, (ih hother hmem).2⟩
      rw [List.splitOn_cons_eq_if_modifyHead] at hpart
      split at hpart
      case isTrue =>
          rcases List.mem_cons.1 hpart with rfl | hother
          · cases hchar
          · exact hlater hother hchar
      case isFalse hfirst =>
          rw [hparts, List.modifyHead_cons] at hpart
          rcases List.mem_cons.1 hpart with rfl | hother
          · rcases List.mem_cons.1 hchar with rfl | hmem
            · exact ⟨List.mem_cons_self, by simpa using hfirst⟩
            · exact hlater (hparts ▸ List.mem_cons_self) hmem
          · exact hlater (hparts ▸ List.mem_cons_of_mem _ hother) hchar

theorem mem_intercalate {parts : List (List Char)} {char : Char}
    (hchar : char ∈ [separator].intercalate parts) :
    char = separator ∨ ∃ part ∈ parts, char ∈ part := by
  induction parts with
  | nil => cases hchar
  | cons part parts ih =>
      cases parts with
      | nil => exact .inr ⟨part, List.mem_cons_self, by simpa using hchar⟩
      | cons next parts =>
          rw [List.intercalate_cons_cons, List.mem_append, List.mem_append,
            List.mem_singleton] at hchar
          rcases hchar with (hpart | hseparator) | hlater
          · exact .inr ⟨part, List.mem_cons_self, hpart⟩
          · exact .inl hseparator
          · rcases ih hlater with hseparator | ⟨later, hmem, hchar⟩
            · exact .inl hseparator
            · exact .inr ⟨later, List.mem_cons_of_mem _ hmem, hchar⟩

end

end ClassMetrics
