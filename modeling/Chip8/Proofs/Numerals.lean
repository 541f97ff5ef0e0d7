import Mathlib
import Chip8.Proofs.PartialOperations
import Chip8.Proofs.Positional

/-!
# Numerals and the numbers they denote

What the numerals of the language are, apart from how they are read: digits in one of two bases,
each of which counts for itself times a power of the base (`IsNumeral`). A token denotes a number
exactly if it is a numeral for it and the number has 64 bits; a test behind every digit comes to the
same. Main statement: `literal_denotes`.
-/

namespace Chip8.Proofs

/-- The character is a digit, which for ten and more is a letter of either case. -/
def IsDigit (base : Nat) (c : Char) (digit : Nat) : Prop :=
  digit < base ∧
    ("0123456789abcdef".toList[digit]? = some c ∨ "0123456789ABCDEF".toList[digit]? = some c)

/-- The text is one or more digits, and the number is the sum of their values, the last of which
counts once and every other one the base times what the next one counts. -/
inductive Spells (base : Nat) : List Char → Nat → Prop
  | intro {text : List Char} {digits : List Nat} (hnonempty : text ≠ [])
      (hdigits : List.Forall₂ (IsDigit base) text digits) :
      Spells base text (Nat.ofDigits base digits.reverse)

/-- The token is a numeral of the number: decimal, or hexadecimal behind `0x` or `0X`. -/
inductive IsNumeral (token : String) : Nat → Prop
  | decimal {value : Nat} (h : Spells 10 token.toList value) : IsNumeral token value
  | hexadecimal {x : Char} {digits : List Char} {value : Nat} (hx : x = 'x' ∨ x = 'X')
      (htoken : token.toList = '0' :: x :: digits) (h : Spells 16 digits value) :
      IsNumeral token value

/-! ### Digits -/

section Digits

variable {base : Nat} {text : List Char} {value : Nat}

lemma digitValue?_of_isDigit {c : Char} {digit : Nat} (h : IsDigit 16 c digit) :
    Numeral.digitValue? c = some digit := by
  obtain ⟨hlt, hchar⟩ := h
  have hlower : ∀ digit < 16,
      ("0123456789abcdef".toList[digit]?).bind Numeral.digitValue? = some digit := by
    decide
  have hupper : ∀ digit < 16,
      ("0123456789ABCDEF".toList[digit]?).bind Numeral.digitValue? = some digit := by
    decide
  rcases hchar with hchar | hchar
  · simpa only [hchar, Option.bind_some] using hlower digit hlt
  · simpa only [hchar, Option.bind_some] using hupper digit hlt

/-- The digits of one kind stand in a row, so the distance from the first of them gives the
value. -/
lemma isDigit_of_row {c : Char} {first last shift : Nat}
    (hrow : ∀ place ≤ last - first, IsDigit 16 (Char.ofNat (first + place)) (place + shift))
    (hrange : first ≤ c.toNat ∧ c.toNat ≤ last) : IsDigit 16 c (c.toNat - first + shift) := by
  have hdigit := hrow (c.toNat - first) (Nat.sub_le_sub_right hrange.2 first)
  rwa [Nat.add_sub_cancel' hrange.1, Char.ofNat_toNat] at hdigit

lemma isDigit_of_digitValue? {c : Char} {digit : Nat} (h : Numeral.digitValue? c = some digit) :
    IsDigit 16 c digit := by
  have hnumber : ∀ place ≤ 57 - 48, IsDigit 16 (Char.ofNat (48 + place)) (place + 0) := by
    unfold IsDigit
    decide
  have hlower : ∀ place ≤ 102 - 97, IsDigit 16 (Char.ofNat (97 + place)) (place + 10) := by
    unfold IsDigit
    decide
  have hupper : ∀ place ≤ 70 - 65, IsDigit 16 (Char.ofNat (65 + place)) (place + 10) := by
    unfold IsDigit
    decide
  unfold Numeral.digitValue? at h
  split at h
  · next hrange =>
    obtain rfl := Option.some.inj h
    exact isDigit_of_row hnumber hrange
  · split at h
    · next hrange =>
      obtain rfl := Option.some.inj h
      exact isDigit_of_row hlower hrange
    · split at h
      · next hrange =>
        obtain rfl := Option.some.inj h
        exact isDigit_of_row hupper hrange
      · simp at h

lemma digit?_eq_some_iff (hbase : base ≤ 16) {c : Char} {digit : Nat} :
    Numeral.digit? base c = some digit ↔ IsDigit base c digit := by
  unfold Numeral.digit?
  rw [Option.filter_eq_some_iff, decide_eq_true_eq]
  constructor
  · rintro ⟨hvalue, hlt⟩
    exact ⟨hlt, (isDigit_of_digitValue? hvalue).2⟩
  · rintro ⟨hlt, hchar⟩
    exact ⟨digitValue?_of_isDigit ⟨by omega, hchar⟩, hlt⟩

lemma mapM_digit?_eq_some_iff (hbase : base ≤ 16) {digits : List Nat} :
    text.mapM (Numeral.digit? base) = some digits ↔ List.Forall₂ (IsDigit base) text digits := by
  induction text generalizing digits with
  | nil => simp [List.mapM_nil, eq_comm]
  | cons c text ih =>
    simp only [List.mapM_cons, List.forall₂_cons_left_iff, Option.bind_eq_bind,
      Option.bind_eq_some_iff, digit?_eq_some_iff hbase, ih]
    constructor
    · rintro ⟨digit, hdigit, others, hothers, hdigits⟩
      exact ⟨digit, others, hdigit, hothers, (Option.some.inj hdigits).symm⟩
    · rintro ⟨digit, others, hdigit, hothers, rfl⟩
      exact ⟨digit, hdigit, others, hothers, rfl⟩

theorem positional?_eq_some_iff (hbase : base ≤ 16) :
    Numeral.positional? base text = some value ↔ Spells base text value := by
  have hread : Numeral.positional? base text = some value ↔ text ≠ [] ∧
      ∃ digits, text.mapM (Numeral.digit? base) = some digits ∧
        Numeral.value base digits = value := by
    unfold Numeral.positional?
    by_cases htext : text = [] <;> simp [htext]
  simp only [hread, mapM_digit?_eq_some_iff hbase, Numeral.value_eq_ofDigits]
  constructor
  · rintro ⟨hnonempty, digits, hdigits, rfl⟩
    exact .intro hnonempty hdigits
  · rintro ⟨hnonempty, hdigits⟩
    exact ⟨hnonempty, _, hdigits, rfl⟩

end Digits

/-! ### Tokens -/

section Tokens

/-- The base that the prefix of a text tells, and the text behind the prefix. -/
def baseAndDigits : List Char → Nat × List Char
  | '0' :: 'x' :: digits => (16, digits)
  | '0' :: 'X' :: digits => (16, digits)
  | digits => (10, digits)

variable {token : String} {value : Nat}

lemma baseAndDigits_cases (text : List Char) :
    (∃ x digits, (x = 'x' ∨ x = 'X') ∧ text = '0' :: x :: digits ∧
        baseAndDigits text = (16, digits)) ∨
      (∀ x digits, x = 'x' ∨ x = 'X' → text ≠ '0' :: x :: digits) ∧
        baseAndDigits text = (10, text) := by
  unfold baseAndDigits
  split
  · next digits => exact Or.inl ⟨'x', digits, Or.inl rfl, rfl, rfl⟩
  · next digits => exact Or.inl ⟨'X', digits, Or.inr rfl, rfl, rfl⟩
  · next hlower hupper =>
    refine Or.inr ⟨?_, rfl⟩
    rintro x digits (rfl | rfl) htext
    · exact hlower digits htext
    · exact hupper digits htext

lemma read?_eq (text : List Char) : Numeral.read? text =
    Numeral.positional? (baseAndDigits text).1 (baseAndDigits text).2 := by
  fun_cases baseAndDigits text <;> simp_all [Numeral.read?]

/-- The letter of the prefix is no decimal digit, so the prefix tells the base. -/
lemma not_spells_prefixed {x : Char} (hx : x = 'x' ∨ x = 'X') {digits : List Char} :
    ¬Spells 10 ('0' :: x :: digits) value := by
  intro h
  rw [← positional?_eq_some_iff (by decide)] at h
  have hletter : Numeral.digit? 10 x = none := by
    rcases hx with rfl | rfl <;> decide
  have hzero : Numeral.digit? 10 '0' = some 0 := by decide
  simp [Numeral.positional?, List.mapM_cons, hzero, hletter] at h

theorem read?_eq_some_iff : Numeral.read? token.toList = some value ↔ IsNumeral token value := by
  rw [read?_eq]
  rcases baseAndDigits_cases token.toList with ⟨x, digits, hx, htoken, hbase⟩ | ⟨hplain, hbase⟩
  · rw [hbase, positional?_eq_some_iff (le_refl 16)]
    constructor
    · exact .hexadecimal hx htoken
    · intro h
      cases h with
      | decimal h =>
        rw [htoken] at h
        exact absurd h (not_spells_prefixed hx)
      | hexadecimal _ hother h =>
        obtain ⟨-, hrest⟩ := List.cons.inj (htoken.symm.trans hother)
        obtain ⟨-, rfl⟩ := List.cons.inj hrest
        exact h
  · rw [hbase, positional?_eq_some_iff (by decide : 10 ≤ 16)]
    constructor
    · exact .decimal
    · intro h
      cases h with
      | decimal h => exact h
      | hexadecimal hx htoken _ => exact absurd htoken (hplain _ _ hx)

lemma read?_eq_none_iff : Numeral.read? token.toList = none ↔ ∀ value, ¬IsNumeral token value := by
  simp only [Option.eq_none_iff_forall_ne_some, ne_eq, read?_eq_some_iff]

theorem literal_eq_error_iff {fault : OperandFault} : Token.literal token = .error fault ↔
    (∃ value, IsNumeral token value ∧ UInt64.size ≤ value ∧ fault = .tooWide token 16) ∨
      (∀ value, ¬IsNumeral token value) ∧ fault = .badLiteral token := by
  rw [← read?_eq_none_iff]
  simp only [← read?_eq_some_iff]
  unfold Token.literal
  cases hread : Numeral.read? token.toList with
  | none => simp [eq_comm]
  | some value =>
    by_cases hsmall : value < UInt64.size
    · simp [hsmall]
    · simp [hsmall, Nat.le_of_not_lt hsmall, eq_comm]

end Tokens

/-! ### A test behind every digit -/

section Steps

/-- The number that digits denote, built up digit by digit in a number of 64 bits, which every
product and every sum on the way has to fit in. -/
def accumulate (base : Nat) (digits : List Nat) : Option Nat :=
  digits.foldlM (fun total digit => do
    let product ← Checked.within UInt64.size (base * total)
    Checked.within UInt64.size (product + digit)) 0

/-- The value of a numeral, in which the digits are all read before the first of them counts. -/
def steppedLiteral (token : String) : Except OperandFault Nat :=
  let (base, text) := baseAndDigits token.toList
  if text.isEmpty then .error (.badLiteral token)
  else
    match text.mapM (Numeral.digit? base) with
    | none => .error (.badLiteral token)
    | some digits =>
      match accumulate base digits with
      | none => .error (.tooWide token 16)
      | some value => .ok value

lemma accumulate_concat (base : Nat) (digits : List Nat) (digit : Nat) :
    accumulate base (digits ++ [digit]) = (accumulate base digits).bind fun total =>
      (Checked.within UInt64.size (base * total)).bind fun product =>
        Checked.within UInt64.size (product + digit) := by
  simp [accumulate]

/-- A number that is too great stays too great, so the tests together come to one at the end. -/
theorem accumulate_eq {base : Nat} (hbase : 0 < base) (digits : List Nat) :
    accumulate base digits = Checked.within UInt64.size (Numeral.value base digits) := by
  induction digits using List.reverseRecOn with
  | nil => rfl
  | append_singleton digits digit ih =>
    rw [accumulate_concat, ih, Numeral.value_concat]
    have hgrows := Nat.le_mul_of_pos_left (Numeral.value base digits) hbase
    generalize Numeral.value base digits = total at hgrows ⊢
    -- The total before is at most the product, which is at most the sum.
    by_cases hsum : base * total + digit < UInt64.size
    · have hproduct : base * total < UInt64.size := (Nat.le_add_right _ _).trans_lt hsum
      have htotal : total < UInt64.size := hgrows.trans_lt hproduct
      simp only [Checked.within, if_pos htotal, if_pos hproduct, Option.bind_some]
    · unfold Checked.within
      rw [if_neg hsum]
      split
      · rw [Option.bind_some]
        split
        · rw [Option.bind_some, if_neg hsum]
        · rfl
      · rfl

lemma base_pos (text : List Char) : 0 < (baseAndDigits text).1 := by
  fun_cases baseAndDigits text <;> simp

theorem steppedLiteral_eq (token : String) : steppedLiteral token = Token.literal token := by
  unfold steppedLiteral Token.literal
  rw [read?_eq, Numeral.positional?]
  dsimp only
  split
  · rfl
  · cases (baseAndDigits token.toList).2.mapM
        (Numeral.digit? (baseAndDigits token.toList).1) with
    | none => rfl
    | some digits =>
      rw [Option.map_some]
      dsimp only
      rw [accumulate_eq (base_pos _), Checked.within]
      by_cases hsmall : Numeral.value (baseAndDigits token.toList).1 digits < UInt64.size
      · simp only [if_pos hsmall]
      · simp only [if_neg hsmall]

end Steps

/-- A token denotes a number if it is a numeral for it, of any length, and the number has 64 bits;
the fault of a numeral for a greater number says so, and no other token is a numeral. A test behind
every digit refuses the same tokens for the same faults. -/
theorem literal_denotes (token : String) :
    (∀ value, Token.literal token = .ok value ↔ IsNumeral token value ∧ value < 2 ^ 64) ∧
    (∀ shown digits, Token.literal token = .error (.tooWide shown digits) ↔
      (∃ value, IsNumeral token value ∧ 2 ^ 64 ≤ value) ∧ shown = token ∧ digits = 16) ∧
    (∀ shown, Token.literal token = .error (.badLiteral shown) ↔
      (∀ value, ¬IsNumeral token value) ∧ shown = token) ∧
    (∀ shown, Token.literal token ≠ .error (.badRegister shown)) ∧
    Token.literal token = steppedLiteral token := by
  have hsize : UInt64.size = 2 ^ 64 := rfl
  rw [← hsize]
  refine ⟨fun value => ?_, fun shown digits => ?_, fun shown => ?_, fun shown => ?_,
    (steppedLiteral_eq token).symm⟩
  · rw [Token.literal_eq_ok_iff, read?_eq_some_iff]
  · simp only [literal_eq_error_iff, OperandFault.tooWide.injEq, reduceCtorEq, and_false, or_false]
    constructor
    · rintro ⟨value, hvalue, hlarge, rfl, rfl⟩
      exact ⟨⟨value, hvalue, hlarge⟩, rfl, rfl⟩
    · rintro ⟨⟨value, hvalue, hlarge⟩, rfl, rfl⟩
      exact ⟨value, hvalue, hlarge, rfl, rfl⟩
  · simp only [literal_eq_error_iff, OperandFault.badLiteral.injEq, reduceCtorEq, and_false,
      exists_false, false_or]
  · simp [literal_eq_error_iff]

/-- Zeros in front count for nothing, however many they are, and a sign is no digit. -/
example : Token.literal "0x000000000000000000ff" = .ok 255 ∧
    Token.literal "+1" = .error (.badLiteral "+1") := by
  decide

end Chip8.Proofs
