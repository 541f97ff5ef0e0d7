import Mathlib
import Chip8.Proofs.LabelHistory
import Chip8.Proofs.Numerals
import Chip8.Proofs.Renaming
import Chip8.Proofs.Spelling

/-!
# The three kinds of operands

A token may be read as a register, as the name of a label, or as a number. No token has two of these
readings, so they may be tried in any order, and the names that can be read are those that a table
accepts. Main statement: `operand_classes`.
-/

namespace Chip8.Proofs

/-! ### Readings -/

def asRegister (token : String) : Option Operand :=
  (Token.register token).toOption.map .register

def asLabel (token : String) : Option Operand :=
  if Token.isLabelName token then some (.label token) else none

def asNumber (token : String) : Option Operand :=
  (Token.literal token).toOption.map .literal

/-- What a token may denote, of each kind of operands. -/
def readings : List (String → Option Operand) :=
  [asRegister, asLabel, asNumber]

/-- The operand of the first reading that gives one. A token without a reading is refused for the
fault that it has as a number. -/
def operandBy (order : List (String → Option Operand)) (token : String) :
    Except OperandFault Operand :=
  match order.findSome? fun reading => reading token with
  | some operand => .ok operand
  | none => (Token.literal token).map .literal

/-- At most one reading gives an operand, and that decides what the token is taken for and whether
it can be defined. -/
structure Classified (token : String) : Prop where
  exclusive : readings.Pairwise fun reading other => reading token = none ∨ other token = none
  operand_iff : ∀ operand, Token.operand token = .ok operand ↔
    ∃ reading ∈ readings, reading token = some operand
  any_order : ∀ order, order.Perm readings → operandBy order token = Token.operand token
  label_iff : ∀ (table : SymbolTable) (index line : Nat), table.find? token = none →
    (Token.operand token = .ok (.label token) ↔ (define table ⟨token, index, line⟩).2 = .ok ())
  own_name : ∀ name, Token.operand token = .ok (.label name) → name = token
  refused_iff : (∃ fault, Token.operand token = .error fault) ↔
    ∀ reading ∈ readings, reading token = none
  tooWide_iff : ∀ shown digits, Token.operand token = .error (.tooWide shown digits) ↔
    (∃ value, IsNumeral token value ∧ 2 ^ 64 ≤ value) ∧ shown = token ∧ digits = 16
  badLiteral_iff : ∀ shown, Token.operand token = .error (.badLiteral shown) ↔
    (∀ reading ∈ readings, reading token = none) ∧
      (∀ value, IsNumeral token value → value < 2 ^ 64) ∧ shown = token
  not_badRegister : ∀ shown, Token.operand token ≠ .error (.badRegister shown)

section Readings

variable {token : String} {operand : Operand}

lemma toOption_map_eq_some_iff {α : Type} {x : Except OperandFault α} {kind : α → Operand} :
    x.toOption.map kind = some operand ↔ ∃ a, x = .ok a ∧ kind a = operand := by
  cases x <;> simp [Except.toOption]

lemma asRegister_eq_some_iff : asRegister token = some operand ↔
    ∃ number, Token.register token = .ok number ∧ .register number = operand :=
  toOption_map_eq_some_iff

lemma asLabel_eq_some_iff : asLabel token = some operand ↔
    Token.isLabelName token = true ∧ .label token = operand := by
  simp [asLabel]

lemma asNumber_eq_some_iff : asNumber token = some operand ↔
    ∃ value, Token.literal token = .ok value ∧ .literal value = operand :=
  toOption_map_eq_some_iff

lemma exists_reading_iff : (∃ reading ∈ readings, reading token = some operand) ↔
    asRegister token = some operand ∨ asLabel token = some operand ∨
      asNumber token = some operand := by
  simp [readings]

/-- No other reading comes before the one that gives an operand. -/
lemma operand_of_reading {reading : String → Option Operand} (hreading : reading ∈ readings)
    (h : reading token = some operand) : Token.operand token = .ok operand := by
  rcases exists_reading_iff.mp ⟨reading, hreading, h⟩ with h | h | h
  · obtain ⟨number, hnumber, rfl⟩ := asRegister_eq_some_iff.mp h
    exact operand_of_register hnumber
  · obtain ⟨hname, rfl⟩ := asLabel_eq_some_iff.mp h
    exact operand_of_isLabelName hname
  · obtain ⟨value, hvalue, rfl⟩ := asNumber_eq_some_iff.mp h
    exact operand_of_literal hvalue

/-- A word with a letter in front is no numeral, so it is refused as one in any case. -/
lemma literal_of_letter (h : Token.startsWithLetter token = true) :
    Token.literal token = .error (.badLiteral token) := by
  refine literal_eq_error_iff.mpr (Or.inr ⟨fun value hvalue => ?_, rfl⟩)
  have hdigit := (not_letter_of_read? (read?_eq_some_iff.mpr hvalue)).2
  simp [h] at hdigit

lemma operand_of_unread (h : ∀ reading ∈ readings, reading token = none) :
    Token.operand token = (Token.literal token).map .literal := by
  have hlabel : asLabel token = none := h asLabel (by simp [readings])
  have hregister : Token.registerNumber? token.toList = none := by
    cases hnumber : Token.registerNumber? token.toList with
    | none => rfl
    | some number =>
      have hread := asRegister_eq_some_iff.mpr ⟨number, Token.register_eq_ok_iff.mpr hnumber, rfl⟩
      simp [h asRegister (by simp [readings])] at hread
  unfold Token.operand
  rw [hregister]
  dsimp only
  by_cases hletter : Token.startsWithLetter token = true
  · have hname : token.toList.all Token.isNameChar = false := by
      simpa [asLabel, Token.isLabelName, hregister, hletter] using hlabel
    simp [hletter, hname, literal_of_letter hletter, Except.map]
  · rw [if_neg hletter]

theorem operand_eq_ok_iff : Token.operand token = .ok operand ↔
    ∃ reading ∈ readings, reading token = some operand := by
  constructor
  · intro h
    by_cases hunread : ∀ reading ∈ readings, reading token = none
    · rw [operand_of_unread hunread] at h
      obtain ⟨value, hvalue, rfl⟩ := map_eq_ok_iff.mp h
      have hnumber := asNumber_eq_some_iff.mpr ⟨value, hvalue, rfl⟩
      exact exists_reading_iff.mpr (Or.inr (Or.inr hnumber))
    · push Not at hunread
      obtain ⟨reading, hreading, hsome⟩ := hunread
      obtain ⟨other, hother⟩ := Option.ne_none_iff_exists'.mp hsome
      obtain rfl := Except.ok.inj ((operand_of_reading hreading hother).symm.trans h)
      exact ⟨reading, hreading, hother⟩
  · rintro ⟨reading, hreading, hoperand⟩
    exact operand_of_reading hreading hoperand

/-- Two readings that never give one and the same operand do not both give one. -/
lemma none_or_none {reading other : String → Option Operand} (hreading : reading ∈ readings)
    (hother : other ∈ readings)
    (hkinds : ∀ operand, reading token = some operand → other token ≠ some operand) :
    reading token = none ∨ other token = none := by
  cases hfirst : reading token with
  | none => exact Or.inl rfl
  | some first =>
    cases hsecond : other token with
    | none => exact Or.inr rfl
    | some second =>
      have hsame := (operand_of_reading hreading hfirst).symm.trans
        (operand_of_reading hother hsecond)
      rw [Except.ok.inj hsame] at hfirst
      exact absurd hsecond (hkinds second hfirst)

theorem pairwise_readings (token : String) :
    readings.Pairwise fun reading other => reading token = none ∨ other token = none := by
  refine .cons ?_ (.cons ?_ (.cons (by simp) .nil))
  · simp only [List.mem_cons, List.not_mem_nil, or_false, forall_eq_or_imp, forall_eq]
    constructor
    · apply none_or_none (by simp [readings]) (by simp [readings])
      grind [asRegister_eq_some_iff, asLabel_eq_some_iff]
    · apply none_or_none (by simp [readings]) (by simp [readings])
      grind [asRegister_eq_some_iff, asNumber_eq_some_iff]
  · simp only [List.mem_cons, List.not_mem_nil, or_false, forall_eq]
    apply none_or_none (by simp [readings]) (by simp [readings])
    grind [asLabel_eq_some_iff, asNumber_eq_some_iff]

theorem operandBy_of_perm {order : List (String → Option Operand)} (h : order.Perm readings)
    (token : String) : operandBy order token = Token.operand token := by
  unfold operandBy
  cases hfirst : order.findSome? fun reading => reading token with
  | some operand =>
    obtain ⟨reading, hreading, hoperand⟩ := List.exists_of_findSome?_eq_some hfirst
    exact (operand_of_reading (h.mem_iff.mp hreading) hoperand).symm
  | none =>
    rw [List.findSome?_eq_none_iff] at hfirst
    exact (operand_of_unread fun reading hreading =>
      hfirst reading (h.mem_iff.mpr hreading)).symm

/-! ### Refusals -/

lemma unread_of_operand {fault : OperandFault} (h : Token.operand token = .error fault) :
    ∀ reading ∈ readings, reading token = none := by
  intro reading hreading
  cases hoperand : reading token with
  | none => rfl
  | some operand => simp [operand_of_reading hreading hoperand] at h

theorem operand_eq_error_iff {fault : OperandFault} : Token.operand token = .error fault ↔
    (∀ reading ∈ readings, reading token = none) ∧ Token.literal token = .error fault := by
  constructor
  · intro h
    have hunread := unread_of_operand h
    rw [operand_of_unread hunread] at h
    exact ⟨hunread, map_eq_error_iff.mp h⟩
  · rintro ⟨hunread, h⟩
    rw [operand_of_unread hunread]
    exact map_eq_error_iff.mpr h

/-- A token that is too wide is a numeral all the same, which has no other reading. -/
lemma unread_of_large {value : Nat} (hvalue : IsNumeral token value)
    (hlarge : UInt64.size ≤ value) : ∀ reading ∈ readings, reading token = none := by
  have hliteral : Token.literal token = .error (.tooWide token 16) :=
    literal_eq_error_iff.mpr (Or.inl ⟨value, hvalue, hlarge, rfl⟩)
  obtain ⟨hregister, hletter⟩ := not_letter_of_read? (read?_eq_some_iff.mpr hvalue)
  have hoperand : Token.operand token = .error (.tooWide token 16) := by
    simp [Token.operand, hregister, hletter, hliteral, Except.map]
  exact unread_of_operand hoperand

lemma tooWide_of_operand_iff {shown : String} {digits : Nat} :
    Token.operand token = .error (.tooWide shown digits) ↔
      (∃ value, IsNumeral token value ∧ UInt64.size ≤ value) ∧ shown = token ∧ digits = 16 := by
  simp only [operand_eq_error_iff, literal_eq_error_iff, OperandFault.tooWide.injEq, reduceCtorEq,
    and_false, or_false]
  constructor
  · rintro ⟨-, value, hvalue, hlarge, rfl, rfl⟩
    exact ⟨⟨value, hvalue, hlarge⟩, rfl, rfl⟩
  · rintro ⟨⟨value, hvalue, hlarge⟩, rfl, rfl⟩
    exact ⟨unread_of_large hvalue hlarge, value, hvalue, hlarge, rfl, rfl⟩

lemma badLiteral_of_operand_iff {shown : String} :
    Token.operand token = .error (.badLiteral shown) ↔
      (∀ reading ∈ readings, reading token = none) ∧
        (∀ value, IsNumeral token value → value < UInt64.size) ∧ shown = token := by
  simp only [operand_eq_error_iff, literal_eq_error_iff, OperandFault.badLiteral.injEq,
    reduceCtorEq, and_false, exists_false, false_or]
  constructor
  · rintro ⟨hunread, hnumeral, rfl⟩
    exact ⟨hunread, fun value hvalue => absurd hvalue (hnumeral value), rfl⟩
  · rintro ⟨hunread, hsmall, rfl⟩
    refine ⟨hunread, fun value hvalue => ?_, rfl⟩
    -- A numeral of 64 bits would be read as a number.
    have hliteral := Token.literal_eq_ok_iff.mpr ⟨read?_eq_some_iff.mpr hvalue, hsmall value hvalue⟩
    have hnumber := asNumber_eq_some_iff.mpr ⟨value, hliteral, rfl⟩
    have hnone : asNumber shown = none := hunread asNumber (by simp [readings])
    simp [hnumber] at hnone

end Readings

/-- A token is of at most one kind, and it is the operand that its one reading gives, in whatever
order the readings are tried. The label names among the tokens are those that a table accepts. A
token without a reading is refused, as too wide if it is a numeral of more than 64 bits. -/
theorem operand_classes (token : String) : Classified token where
  exclusive := pairwise_readings token
  operand_iff operand := operand_eq_ok_iff
  any_order order h := operandBy_of_perm h token
  label_iff table index line hfresh := by
    simp only [define_snd, atLine_eq_ok_iff, map_eq_ok_iff, and_true, exists_bind_iff, hfresh]
    constructor
    · intro h
      exact (label_of_operand h).2
    · exact operand_of_isLabelName
  own_name name h := (label_of_operand h).1.symm
  refused_iff := by
    constructor
    · rintro ⟨fault, h⟩
      exact unread_of_operand h
    · intro hunread
      cases h : Token.operand token with
      | error fault => exact ⟨fault, rfl⟩
      | ok operand =>
        obtain ⟨reading, hreading, hoperand⟩ := operand_eq_ok_iff.mp h
        simp [hunread reading hreading] at hoperand
  tooWide_iff shown digits := tooWide_of_operand_iff
  badLiteral_iff shown := badLiteral_of_operand_iff
  not_badRegister shown h := by
    simpa [literal_eq_error_iff] using (operand_eq_error_iff.mp h).2

/-- A register with one more digit is a name, so it may be defined. -/
theorem operand_classes_digit : Token.operand "V10" = .ok (.label "V10") ∧
    (define {} ⟨"V10", 0, 1⟩).2 = .ok () ∧ Token.operand "v3" = .ok (.register 3) ∧
    (define {} ⟨"v3", 0, 1⟩).2 ≠ .ok () := by
  have hlabel : Token.operand "V10" = .ok (.label "V10") := by decide
  have hregister : Token.operand "v3" = .ok (.register 3) := by decide
  refine ⟨hlabel, ?_, hregister, fun hdefine => ?_⟩
  · exact ((operand_classes "V10").label_iff {} 0 1 rfl).mp hlabel
  · have hname := ((operand_classes "v3").label_iff {} 0 1 rfl).mpr hdefine
    simp [hregister] at hname

end Chip8.Proofs
