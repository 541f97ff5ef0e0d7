import Mathlib
import Chip8.Nibble
import Chip8.Proofs.Text

/-!
# Digits and the numbers they denote

The nibbles of a number denote it: `value_lowest` for the lowest ones, and `value_of_fixed` for all
of them, which there are exactly if the number lies below the power of sixteen.
-/

namespace Chip8

namespace Numeral

lemma foldl_eq_add_value (base : Nat) (digits : List Nat) (total : Nat) :
    digits.foldl (fun total digit => base * total + digit) total =
      total * base ^ digits.length + value base digits := by
  induction digits generalizing total with
  | nil => simp [value]
  | cons digit digits ih =>
    have hdigit := ih digit
    simp only [List.foldl_cons, List.length_cons, value, Nat.mul_zero, Nat.zero_add] at ih ⊢
    rw [ih, hdigit, Nat.pow_succ, Nat.add_mul, value]
    grind

lemma value_cons (base digit : Nat) (digits : List Nat) :
    value base (digit :: digits) = digit * base ^ digits.length + value base digits := by
  simpa [value] using foldl_eq_add_value base digits digit

lemma value_append (base : Nat) (first second : List Nat) :
    value base (first ++ second) = value base first * base ^ second.length + value base second := by
  rw [value, List.foldl_append, foldl_eq_add_value]
  rfl

lemma value_lt {base : Nat} {digits : List Nat} (h : ∀ digit ∈ digits, digit < base) :
    value base digits < base ^ digits.length := by
  induction digits with
  | nil => simp [value]
  | cons digit digits ih =>
    have hdigit : digit + 1 ≤ base := h digit (by simp)
    have htail := ih fun other hother => h other (by simp [hother])
    have hhead := Nat.mul_le_mul_right (base ^ digits.length) hdigit
    rw [value_cons, List.length_cons, Nat.pow_succ, Nat.mul_comm (base ^ digits.length)]
    rw [Nat.add_mul, Nat.one_mul] at hhead
    omega

lemma value_eq_ofDigits (base : Nat) (digits : List Nat) :
    value base digits = Nat.ofDigits base digits.reverse := by
  induction digits using List.reverseRecOn with
  | nil => rfl
  | append_singleton digits digit ih =>
    rw [value_concat, ih, List.reverse_append, List.reverse_singleton,
      List.singleton_append, Nat.ofDigits_cons, Nat.add_comm]

lemma eq_of_value_eq {first second : List Nat} (hlength : first.length = second.length)
    (hfirst : ∀ digit ∈ first, digit < 16) (hsecond : ∀ digit ∈ second, digit < 16)
    (h : value 16 first = value 16 second) : first = second := by
  rw [value_eq_ofDigits, value_eq_ofDigits] at h
  have hbase : 1 < 16 := by decide
  apply List.reverse_injective
  refine Nat.ofDigits_inj_of_len_eq hbase (by simpa using hlength) ?_ ?_ h
  · exact fun digit hdigit => hfirst digit (List.mem_reverse.mp hdigit)
  · exact fun digit hdigit => hsecond digit (List.mem_reverse.mp hdigit)

end Numeral

namespace Nibble

lemma length_lowest (value digits : Nat) : (lowest value digits).length = digits := by
  induction digits with
  | zero => rfl
  | succ digits ih => simp [lowest, ih]

lemma lt_of_mem_lowest {value digits digit : Nat} (h : digit ∈ lowest value digits) :
    digit < 16 := by
  induction digits with
  | zero => simp [lowest] at h
  | succ digits ih =>
    rcases List.mem_cons.mp h with rfl | h
    · exact Nat.mod_lt _ (by decide)
    · exact ih h

lemma digitAt_eq (value place : Nat) : digitAt value place = value / 16 ^ place % 16 := by
  rw [digitAt, Nat.shiftRight_eq_div_pow, Nat.pow_mul]

lemma shiftRight_eq_zero_iff (value digits : Nat) :
    value >>> (4 * digits) = 0 ↔ value < 16 ^ digits := by
  rw [Nat.shiftRight_eq_div_pow, Nat.pow_mul]
  exact Nat.div_eq_zero_iff_lt (Nat.pow_pos (by decide))

lemma value_lowest (value digits : Nat) :
    Numeral.value 16 (lowest value digits) = value % 16 ^ digits := by
  induction digits with
  | zero => simp [lowest, Numeral.value, Nat.mod_one]
  | succ place ih =>
    rw [lowest, Numeral.value_cons, ih, length_lowest, digitAt_eq, Nat.pow_succ, Nat.mod_mul]
    grind

lemma fixed_eq_ok_iff {value digits : Nat} {nibbles : List Nat} :
    fixed value digits = .ok nibbles ↔ value < 16 ^ digits ∧ nibbles = lowest value digits := by
  rw [fixed, if_congr (shiftRight_eq_zero_iff value digits) rfl rfl]
  by_cases h : value < 16 ^ digits <;> simp [h, eq_comm]

lemma fixed_eq_error_iff {value digits : Nat} {fault : OperandFault} :
    fixed value digits = .error fault ↔
      16 ^ digits ≤ value ∧ fault = .tooWide (Numeral.hexPrefixed value) digits := by
  rw [fixed, if_congr (shiftRight_eq_zero_iff value digits) rfl rfl]
  by_cases h : value < 16 ^ digits
  · simp [h]
  · simp [h, Nat.le_of_not_lt h, eq_comm]

lemma value_of_fixed {value digits : Nat} {nibbles : List Nat}
    (h : fixed value digits = .ok nibbles) : Numeral.value 16 nibbles = value := by
  obtain ⟨hlt, rfl⟩ := fixed_eq_ok_iff.mp h
  rw [value_lowest, Nat.mod_eq_of_lt hlt]

/-- As many digits as a number was written with are its lowest ones. -/
lemma lowest_value {digits : List Nat} (h : ∀ digit ∈ digits, digit < 16) :
    lowest (Numeral.value 16 digits) digits.length = digits := by
  apply Numeral.eq_of_value_eq (length_lowest _ _) (fun _ => lt_of_mem_lowest) h
  rw [value_lowest, Nat.mod_eq_of_lt (Numeral.value_lt h)]

end Nibble

end Chip8
