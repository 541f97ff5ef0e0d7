import Mathlib
import Chip8.Proofs.Numerals

/-!
# Numbers in a fixed width

The nibbles of a number are the number in base sixteen with a given count of digits (`Represents`),
which exists exactly below that power of sixteen and is no other number's. A machine that shifts and
masks 64 bits gets the same nibbles, as long as no shift is by all 64 of them. Main statement:
`fixed_represents`.
-/

namespace Chip8.Proofs

/-- The nibbles are the number in base sixteen, in so many digits with the most significant
first. -/
structure Represents (digits value : Nat) (nibbles : List Nat) : Prop where
  length : nibbles.length = digits
  bound : ∀ nibble ∈ nibbles, nibble ≤ 15
  denotes : Nat.ofDigits 16 nibbles.reverse = value

/-- The token is `0x` and the number in upper-case digits, with no zero in front of other digits. -/
def IsHexText (token : String) (value : Nat) : Prop :=
  ∃ text, token.toList = '0' :: 'x' :: text ∧ Spells 16 text value ∧
    (∀ c ∈ text, c ∈ "0123456789ABCDEF".toList) ∧ (text.head? = some '0' → text = ['0'])

/-- The nibbles of 64 bits by a shift and a mask for each. The bits above them have to be zero, if
there are any; a shift by all 64 bits would be one by none. -/
def maskedNibbles (value : UInt64) (digits : Nat) : Except OperandFault (List UInt8) :=
  let bits := digits * 4
  if bits < 64 ∧ value >>> UInt64.ofNat bits ≠ 0 then
    .error (.tooWide (Numeral.hexPrefixed value.toNat) digits)
  else
    .ok ((List.range digits).reverse.map fun place =>
      ((value >>> UInt64.ofNat (place * 4)) &&& 0xF).toUInt8)

/-! ### The nibbles of a number -/

section Nibbles

variable {digits value other : Nat} {nibbles : List Nat}

theorem fixed_eq_ok_iff_represents :
    Nibble.fixed value digits = .ok nibbles ↔ Represents digits value nibbles := by
  constructor
  · intro h
    have hdenotes := Nibble.value_of_fixed h
    obtain ⟨-, rfl⟩ := Nibble.fixed_eq_ok_iff.mp h
    refine ⟨Nibble.length_lowest value digits, fun nibble hnibble => ?_, ?_⟩
    · exact Nat.le_of_lt_succ (Nibble.lt_of_mem_lowest hnibble)
    · rwa [← Numeral.value_eq_ofDigits]
  · rintro ⟨rfl, hbound, rfl⟩
    have hnibbles : ∀ nibble ∈ nibbles, nibble < 16 :=
      fun nibble hnibble => Nat.lt_succ_of_le (hbound nibble hnibble)
    rw [← Numeral.value_eq_ofDigits, Nibble.fixed_eq_ok_iff]
    exact ⟨Numeral.value_lt hnibbles, (Nibble.lowest_value hnibbles).symm⟩

lemma exists_fixed_iff : (∃ nibbles, Nibble.fixed value digits = .ok nibbles) ↔
    value < 16 ^ digits := by
  simp only [Nibble.fixed_eq_ok_iff, exists_and_left, exists_eq, and_true]

lemma eq_of_fixed (h : Nibble.fixed value digits = .ok nibbles)
    (hother : Nibble.fixed other digits = .ok nibbles) : other = value :=
  (Nibble.value_of_fixed hother).symm.trans (Nibble.value_of_fixed h)

end Nibbles

/-! ### The text of a number that is too wide -/

lemma spells_hex (value : Nat) : Spells 16 (Numeral.hex value) value :=
  (positional?_eq_some_iff (le_refl 16)).mp (Numeral.positional?_hex value)

lemma hex_eq_of_head {value : Nat} (h : (Numeral.hex value).head? = some '0') :
    Numeral.hex value = ['0'] := by
  induction value using Nat.strongRecOn with
  | _ value ih =>
    rcases Nat.lt_or_ge value 16 with hvalue | hvalue
    · rw [Numeral.hex_of_lt hvalue] at h ⊢
      rw [Option.some.inj h]
    · -- The digits in front are those of a number that is not zero.
      rw [Numeral.hex_of_le hvalue, List.head?_append_of_ne_nil _ (Numeral.hex_ne_nil _)] at h
      have hzero := Numeral.positional?_hex (value / 16)
      rw [ih (value / 16) (by omega) h] at hzero
      have hnone : value / 16 = 0 := (Option.some.inj hzero).symm
      omega

theorem isHexText_hexPrefixed (value : Nat) : IsHexText (Numeral.hexPrefixed value) value := by
  have hupper : ∀ digit < 16, (Nat.digitChar digit).toUpper ∈ "0123456789ABCDEF".toList := by
    decide
  refine ⟨Numeral.hex value, toList_hexPrefixed value, spells_hex value, ?_, hex_eq_of_head⟩
  exact forall_mem_hex (P := (· ∈ "0123456789ABCDEF".toList)) hupper value

/-! ### Shifts and masks -/

section Masks

variable {value : UInt64} {digits : Nat}

lemma toNat_shifted {bits : Nat} (h : bits < 64) :
    (value >>> UInt64.ofNat bits).toNat = value.toNat >>> bits := by
  have hsize : bits < UInt64.size := h.trans (by decide)
  have hbits : (UInt64.ofNat bits).toNat = bits := UInt64.toNat_ofNat_of_lt' hsize
  rw [UInt64.toNat_shiftRight, hbits, Nat.mod_eq_of_lt h]

lemma toNat_masked (shifted : UInt64) : (shifted &&& 0xF).toUInt8.toNat = shifted.toNat % 16 := by
  have hmask : (0xF : UInt64).toNat = 2 ^ 4 - 1 := rfl
  rw [UInt64.toNat_toUInt8, UInt64.toNat_and, hmask, Nat.and_two_pow_sub_one_eq_mod]
  omega

lemma map_masked (h : digits ≤ 16) :
    ((List.range digits).reverse.map fun place =>
      ((value >>> UInt64.ofNat (place * 4)) &&& 0xF).toUInt8).map UInt8.toNat =
        Nibble.lowest value.toNat digits := by
  induction digits with
  | zero => rfl
  | succ place ih =>
    rw [List.range_succ, List.reverse_append, List.reverse_singleton, List.singleton_append,
      List.map_cons, List.map_cons, ih (by omega), toNat_masked, toNat_shifted (by omega),
      Nat.mul_comm]
    rfl

theorem maskedNibbles_eq (h : digits ≤ 16) :
    (maskedNibbles value digits).map (·.map UInt8.toNat) = Nibble.fixed value.toNat digits := by
  have hexcess : digits * 4 < 64 ∧ value >>> UInt64.ofNat (digits * 4) ≠ 0 ↔
      ¬value.toNat >>> (4 * digits) = 0 := by
    rcases Nat.lt_or_eq_of_le h with hdigits | rfl
    · have hbits : digits * 4 < 64 := by omega
      rw [and_iff_right hbits, ne_eq, ← UInt64.toNat_inj, toNat_shifted hbits, Nat.mul_comm]
      rfl
    · have hnone : value.toNat >>> (4 * 16) = 0 :=
        (Nibble.shiftRight_eq_zero_iff _ 16).mpr value.toNat_lt
      simp [hnone]
  unfold maskedNibbles Nibble.fixed
  dsimp only
  rw [if_congr hexcess rfl rfl, ite_not]
  split
  · rw [← map_masked h]
    rfl
  · rfl

end Masks

/-- A number of 64 bits has nibbles in a width exactly if it lies below that power of sixteen: they
are its representation there, which no other number has. The fault of a greater number shows it in
hexadecimal. All 64 bits fit sixteen digits, and only zero fits none. -/
theorem fixed_represents (value : UInt64) {digits : Nat} (hdigits : digits ≤ 16) :
    (∀ nibbles, Nibble.fixed value.toNat digits = .ok nibbles ↔
      Represents digits value.toNat nibbles) ∧
    ((∃ nibbles, Nibble.fixed value.toNat digits = .ok nibbles) ↔ value.toNat < 16 ^ digits) ∧
    (∀ fault, Nibble.fixed value.toNat digits = .error fault ↔ 16 ^ digits ≤ value.toNat ∧
      fault = .tooWide (Numeral.hexPrefixed value.toNat) digits) ∧
    IsHexText (Numeral.hexPrefixed value.toNat) value.toNat ∧
    (digits = 16 → ∃ nibbles, Nibble.fixed value.toNat digits = .ok nibbles) ∧
    (digits = 0 → ((∃ nibbles, Nibble.fixed value.toNat digits = .ok nibbles) ↔ value = 0)) ∧
    (∀ other : UInt64, ∀ nibbles, Nibble.fixed value.toNat digits = .ok nibbles →
      Nibble.fixed other.toNat digits = .ok nibbles → other = value) ∧
    (maskedNibbles value digits).map (·.map UInt8.toNat) = Nibble.fixed value.toNat digits := by
  refine ⟨fun nibbles => fixed_eq_ok_iff_represents, exists_fixed_iff,
    fun fault => Nibble.fixed_eq_error_iff, isHexText_hexPrefixed _, ?_, ?_, ?_,
    maskedNibbles_eq hdigits⟩
  · rintro rfl
    exact exists_fixed_iff.mpr value.toNat_lt
  · rintro rfl
    rw [exists_fixed_iff, pow_zero, Nat.lt_one_iff, ← UInt64.toNat_inj]
    rfl
  · intro other nibbles h hother
    exact UInt64.toNat_inj.mp (eq_of_fixed h hother)

/-- The greatest number fits sixteen digits, where no bit lies above them. -/
theorem fixed_represents_full :
    16 ≤ 16 ∧ Represents 16 (UInt64.toNat 0xFFFFFFFFFFFFFFFF) (List.replicate 16 15) ∧
    (maskedNibbles 0xFFFFFFFFFFFFFFFF 16).map (·.map UInt8.toNat) =
      .ok (List.replicate 16 15) := by
  have hfixed : Nibble.fixed (UInt64.toNat 0xFFFFFFFFFFFFFFFF) 16 = .ok (List.replicate 16 15) := by
    decide
  obtain ⟨hrepresents, -, -, -, -, -, -, hmasked⟩ :=
    fixed_represents 0xFFFFFFFFFFFFFFFF (le_refl 16)
  exact ⟨le_refl 16, (hrepresents _).mp hfixed, hmasked.trans hfixed⟩

end Chip8.Proofs
