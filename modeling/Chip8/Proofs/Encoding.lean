import Mathlib
import Chip8.Instruction
import Chip8.Proofs.Bindings
import Chip8.Proofs.Outcome
import Chip8.Proofs.Positional

/-!
# Words of instructions

An instruction has a word exactly if every operand fits its field, and the word is then the pattern
of its mnemonic with the numbers of the operands in the fields (`word_eq_ok_iff`); otherwise the
first operand that does not fit decides the fault (`word_eq_error_iff`).
-/

namespace Chip8.Proofs

/-- The operand puts the number into the field, and the number is not too wide for it. -/
inductive Fits (target : Target) (table : SymbolTable) : Slot → Operand → Nat → Prop
  | register {number : Nat} (hnumber : number < 16) :
      Fits target table .register (.register number) number
  | literal {slot : Slot} {value : Nat} (hslot : slot ≠ .register)
      (hvalue : value < 16 ^ slot.width) : Fits target table slot (.literal value) value
  | label {name : String} {address : Nat}
      (haddress : ∀ owner, table.address target owner name = .ok address)
      (hwidth : address < 16 ^ 3) : Fits target table .address (.label name) address

/-- There is one operand for each field, and all of them fit. -/
inductive FitsAll (target : Target) (table : SymbolTable) :
    List Slot → List Operand → List Nat → Prop
  | nil : FitsAll target table [] [] []
  | cons {slot : Slot} {operand : Operand} {number : Nat} {slots : List Slot}
      {operands : List Operand} {numbers : List Nat} (hfits : Fits target table slot operand number)
      (hrest : FitsAll target table slots operands numbers) :
      FitsAll target table (slot :: slots) (operand :: operands) (number :: numbers)

/-- The cause for which an operand does not go into a field: it is of another kind, its label has no
address, or its number is too wide. -/
inductive Misfits (target : Target) (table : SymbolTable) (owner : String) :
    Slot → Operand → Cause → Prop
  | register {operand : Operand} (hoperand : ∀ number, operand ≠ .register number) :
      Misfits target table owner .register operand (.operand owner (.badRegister operand.text))
  | literal {slot : Slot} {operand : Operand} (hslot : slot ≠ .register)
      (hoperand : ∀ value, operand ≠ .literal value)
      (hlabel : slot = .address → ∀ name, operand ≠ .label name) :
      Misfits target table owner slot operand (.operand owner (.badLiteral operand.text))
  | label {name : String} {cause : Cause}
      (haddress : table.address target owner name = .error cause) :
      Misfits target table owner .address (.label name) cause
  | tooWide {slot : Slot} {operand : Operand} {number : Nat}
      (hnumber : slot.number target table owner operand = .ok number)
      (hwidth : 16 ^ slot.width ≤ number) :
      Misfits target table owner slot operand
        (.operand owner (.tooWide (Numeral.hexPrefixed number) slot.width))

/-- Some operand does not fit its field, and the cause is that of the first one. -/
inductive FirstMisfit (target : Target) (table : SymbolTable) (owner : String) :
    List Slot → List Operand → Cause → Prop
  | here {slot : Slot} {operand : Operand} {slots : List Slot} {operands : List Operand}
      {cause : Cause} (hmisfit : Misfits target table owner slot operand cause) :
      FirstMisfit target table owner (slot :: slots) (operand :: operands) cause
  | later {slot : Slot} {operand : Operand} {number : Nat} {slots : List Slot}
      {operands : List Operand} {cause : Cause} (hfits : Fits target table slot operand number)
      (hrest : FirstMisfit target table owner slots operands cause) :
      FirstMisfit target table owner (slot :: slots) (operand :: operands) cause

/-- The digits of numbers in their fields. -/
def fieldDigits : List Slot → List Nat → List Nat
  | slot :: slots, number :: numbers =>
    Nibble.lowest number slot.width ++ fieldDigits slots numbers
  | _, _ => []

/-- The number that has numbers in their fields behind a first part. -/
def fieldsAfter : Nat → List Slot → List Nat → Nat
  | first, slot :: slots, number :: numbers =>
    fieldsAfter (first * 16 ^ slot.width + number) slots numbers
  | first, _, _ => first

/-- The word of a pattern with numbers in its fields. -/
def patternNumber (pattern : WordPattern) (numbers : List Nat) : Nat :=
  fieldsAfter pattern.lead pattern.slots numbers * 16 ^ pattern.trail.length +
    Numeral.value 16 pattern.trail

section Fields

variable {target : Target} {table : SymbolTable} {owner : String}

lemma toNat_labelAddress (target : Target) (index : Nat) : (target.labelAddress index).toNat =
    (target.loadBase.toNat + target.offset index) % UInt32.size := by
  simp only [Target.labelAddress, UInt32.toNat_add, UInt16.toNat_toUInt32, UInt32.toNat_ofNat',
    Nat.add_mod_mod]

/-- The address of a label is exact in a program of any size that can occur. -/
lemma toNat_labelAddress_of_lt {index : Nat} (h : index < 2 ^ 30) :
    (target.labelAddress index).toNat = target.loadBase.toNat + target.offset index := by
  have hbase := target.loadBase.toNat_lt
  have hoffset : target.offset index < 2 ^ 31 := by
    unfold Target.offset
    split <;> omega
  have hsize : UInt32.size = 2 ^ 32 := rfl
  rw [toNat_labelAddress, Nat.mod_eq_of_lt (by omega)]

lemma address_of_unbound {name : String} (h : table.find? name = none) :
    table.address target owner name = .error (.unresolvedLabel owner name) := by
  rw [SymbolTable.address, h]

lemma address_of_bound {name : String} {binding : Binding} (h : table.find? name = some binding) :
    table.address target owner name =
      if (target.labelAddress binding.index).toNat < target.memorySize.toNat then
        .ok (target.labelAddress binding.index).toNat
      else .error (.addressOutOfRange owner (target.labelAddress binding.index).toNat
        .labelBeyondMemory) := by
  simp only [SymbolTable.address, h, UInt32.lt_iff_toNat_lt, UInt16.toNat_toUInt32]

lemma address_eq_ok_iff {name : String} {address : Nat} :
    table.address target owner name = .ok address ↔ ∃ binding, table.find? name = some binding ∧
      address = (target.labelAddress binding.index).toNat ∧ address < target.memorySize.toNat := by
  cases h : table.find? name with
  | none => simp [address_of_unbound h]
  | some binding =>
    rw [address_of_bound h]
    simp only [Option.some.injEq, exists_eq_left']
    split
    · simp only [Except.ok.injEq]
      grind
    · simp only [reduceCtorEq, false_iff]
      grind

lemma address_eq_error_iff {name : String} {cause : Cause} :
    table.address target owner name = .error cause ↔
      table.find? name = none ∧ cause = .unresolvedLabel owner name ∨
      ∃ binding, table.find? name = some binding ∧
        target.memorySize.toNat ≤ (target.labelAddress binding.index).toNat ∧
        cause = .addressOutOfRange owner (target.labelAddress binding.index).toNat
          .labelBeyondMemory := by
  cases h : table.find? name with
  | none => simp [address_of_unbound h, eq_comm]
  | some binding =>
    rw [address_of_bound h]
    simp only [reduceCtorEq, false_and, false_or, Option.some.injEq, exists_eq_left']
    split
    · simp only [reduceCtorEq, false_iff]
      grind
    · simp only [Except.error.injEq]
      grind

lemma number_eq_ok_iff {slot : Slot} {operand : Operand} {number : Nat} :
    slot.number target table owner operand = .ok number ↔
      slot = .register ∧ operand = .register number ∨
      slot ≠ .register ∧ operand = .literal number ∨
      slot = .address ∧ ∃ name, operand = .label name ∧
        table.address target owner name = .ok number := by
  cases slot <;> cases operand <;> simp [Slot.number]

lemma number_eq_error_iff {slot : Slot} {operand : Operand} {cause : Cause} :
    slot.number target table owner operand = .error cause ↔
      slot = .register ∧ (∀ number, operand ≠ .register number) ∧
        cause = .operand owner (.badRegister operand.text) ∨
      slot ≠ .register ∧ (∀ value, operand ≠ .literal value) ∧
        (slot = .address → ∀ name, operand ≠ .label name) ∧
        cause = .operand owner (.badLiteral operand.text) ∨
      slot = .address ∧ ∃ name, operand = .label name ∧
        table.address target owner name = .error cause := by
  cases slot <;> cases operand <;> simp [Slot.number, eq_comm]

lemma fits_iff (owner : String) {slot : Slot} {operand : Operand} {number : Nat} :
    Fits target table slot operand number ↔
      slot.number target table owner operand = .ok number ∧ number < 16 ^ slot.width := by
  constructor
  · intro h
    cases h with
    | register hnumber => exact ⟨rfl, hnumber⟩
    | literal hslot hvalue =>
      exact ⟨number_eq_ok_iff.mpr (Or.inr (Or.inl ⟨hslot, rfl⟩)), hvalue⟩
    | label haddress hwidth => exact ⟨haddress owner, hwidth⟩
  · rintro ⟨hnumber, hwidth⟩
    rcases number_eq_ok_iff.mp hnumber with ⟨rfl, rfl⟩ | ⟨hslot, rfl⟩ | ⟨rfl, name, rfl, haddress⟩
    · exact .register hwidth
    · exact .literal hslot hwidth
    · exact .label (fun other => address_eq_ok_iff.mpr (address_eq_ok_iff.mp haddress)) hwidth

lemma Fits.lt {slot : Slot} {operand : Operand} {number : Nat}
    (h : Fits target table slot operand number) : number < 16 ^ slot.width :=
  ((fits_iff "").mp h).2

lemma fill_eq_ok_iff {slot : Slot} {operand : Operand} {digits : List Nat} :
    slot.fill target table owner operand = .ok digits ↔
      ∃ number, Fits target table slot operand number ∧
        digits = Nibble.lowest number slot.width := by
  unfold Slot.fill
  rw [bind_eq_ok_iff]
  simp only [mapError_eq_ok_iff, Nibble.fixed_eq_ok_iff, fits_iff owner, and_assoc]

lemma FitsAll.length_eq {slots : List Slot} {operands : List Operand} {numbers : List Nat}
    (h : FitsAll target table slots operands numbers) : operands.length = slots.length := by
  induction h with
  | nil => rfl
  | cons _ _ ih => simp [ih]

lemma FitsAll.length_numbers {slots : List Slot} {operands : List Operand} {numbers : List Nat}
    (h : FitsAll target table slots operands numbers) : numbers.length = slots.length := by
  induction h with
  | nil => rfl
  | cons _ _ ih => simp [ih]

lemma fillAll_eq_ok_iff (owner : String) {slots : List Slot} {operands : List Operand}
    {digits : List Nat} (hlength : operands.length = slots.length) :
    Slot.fillAll target table owner slots operands = .ok digits ↔
      ∃ numbers, FitsAll target table slots operands numbers ∧
        digits = fieldDigits slots numbers := by
  induction slots generalizing operands digits with
  | nil =>
    obtain rfl := List.eq_nil_of_length_eq_zero hlength
    simp only [Slot.fillAll, pure, Except.pure, Except.ok.injEq]
    constructor
    · rintro rfl
      exact ⟨[], .nil, rfl⟩
    · rintro ⟨numbers, hnumbers, rfl⟩
      cases hnumbers
      rfl
  | cons slot slots ih =>
    cases operands with
    | nil => simp at hlength
    | cons operand operands =>
      have hrest : operands.length = slots.length := by simpa using hlength
      simp only [Slot.fillAll, bind_eq_ok_iff, fill_eq_ok_iff, ih hrest, pure, Except.pure,
        Except.ok.injEq]
      constructor
      · rintro ⟨_, ⟨number, hnumber, rfl⟩, _, ⟨numbers, hnumbers, rfl⟩, rfl⟩
        exact ⟨number :: numbers, .cons hnumber hnumbers, rfl⟩
      · rintro ⟨_, hnumbers, rfl⟩
        cases hnumbers with
        | cons hnumber hnumbers => exact ⟨_, ⟨_, hnumber, rfl⟩, _, ⟨_, hnumbers, rfl⟩, rfl⟩

lemma fill_eq_error_iff {slot : Slot} {operand : Operand} {cause : Cause} :
    slot.fill target table owner operand = .error cause ↔
      Misfits target table owner slot operand cause := by
  unfold Slot.fill
  simp only [bind_eq_error_iff, mapError_eq_error_iff, Nibble.fixed_eq_error_iff]
  constructor
  · rintro (hnumber | ⟨number, hnumber, _, ⟨hwidth, rfl⟩, rfl⟩)
    · rcases number_eq_error_iff.mp hnumber with
        ⟨rfl, hoperand, rfl⟩ | ⟨hslot, hoperand, hlabel, rfl⟩ | ⟨rfl, name, rfl, haddress⟩
      · exact .register hoperand
      · exact .literal hslot hoperand hlabel
      · exact .label haddress
    · exact .tooWide hnumber hwidth
  · intro h
    cases h with
    | register hoperand => exact Or.inl (number_eq_error_iff.mpr (Or.inl ⟨rfl, hoperand, rfl⟩))
    | literal hslot hoperand hlabel =>
      exact Or.inl (number_eq_error_iff.mpr (Or.inr (Or.inl ⟨hslot, hoperand, hlabel, rfl⟩)))
    | label haddress => exact Or.inl haddress
    | tooWide hnumber hwidth => exact Or.inr ⟨_, hnumber, _, ⟨hwidth, rfl⟩, rfl⟩

lemma fillAll_eq_error_iff {slots : List Slot} {operands : List Operand} {cause : Cause} :
    Slot.fillAll target table owner slots operands = .error cause ↔
      FirstMisfit target table owner slots operands cause := by
  induction slots generalizing operands with
  | nil =>
    simp only [Slot.fillAll, pure, Except.pure, reduceCtorEq, false_iff]
    exact nofun
  | cons slot slots ih =>
    cases operands with
    | nil =>
      simp only [Slot.fillAll, pure, Except.pure, reduceCtorEq, false_iff]
      exact nofun
    | cons operand operands =>
      simp only [Slot.fillAll, bind_eq_error_iff, fill_eq_error_iff, fill_eq_ok_iff, ih, pure,
        Except.pure, reduceCtorEq, and_false, exists_false, or_false]
      constructor
      · rintro (hmisfit | ⟨_, ⟨number, hfits, -⟩, hrest⟩)
        · exact .here hmisfit
        · exact .later hfits hrest
      · intro h
        cases h with
        | here hmisfit => exact Or.inl hmisfit
        | later hfits hrest => exact Or.inr ⟨_, ⟨_, hfits, rfl⟩, hrest⟩

/-- The causes for which an operand does not go into a field. -/
inductive FieldCause (owner : String) : Cause → Prop
  | operand {fault : OperandFault} : FieldCause owner (.operand owner fault)
  | unresolved {name : String} : FieldCause owner (.unresolvedLabel owner name)
  | beyondMemory {address : Nat} :
      FieldCause owner (.addressOutOfRange owner address .labelBeyondMemory)

lemma FirstMisfit.fieldCause {slots : List Slot} {operands : List Operand} {cause : Cause}
    (h : FirstMisfit target table owner slots operands cause) : FieldCause owner cause := by
  induction h with
  | here hmisfit =>
    cases hmisfit with
    | register => exact .operand
    | literal => exact .operand
    | label haddress =>
      rcases address_eq_error_iff.mp haddress with ⟨-, rfl⟩ | ⟨binding, -, -, rfl⟩
      · exact .unresolved
      · exact .beyondMemory
    | tooWide => exact .operand
  | later _ _ ih => exact ih

/-! ### The number of a word -/

lemma FitsAll.value_append_fieldDigits {slots : List Slot} {operands : List Operand}
    {numbers : List Nat} (h : FitsAll target table slots operands numbers) (digits : List Nat) :
    Numeral.value 16 (digits ++ fieldDigits slots numbers) =
      fieldsAfter (Numeral.value 16 digits) slots numbers := by
  induction h generalizing digits with
  | nil => simp [fieldDigits, fieldsAfter]
  | @cons slot operand number slots operands numbers hfits hrest ih =>
    have hdigits : Numeral.value 16 (digits ++ Nibble.lowest number slot.width) =
        Numeral.value 16 digits * 16 ^ slot.width + number := by
      rw [Numeral.value_append, Nibble.length_lowest, Nibble.value_lowest,
        Nat.mod_eq_of_lt hfits.lt]
    rw [fieldDigits, fieldsAfter, ← List.append_assoc, ih, hdigits]

lemma FitsAll.length_fieldDigits {slots : List Slot} {operands : List Operand} {numbers : List Nat}
    (h : FitsAll target table slots operands numbers) :
    (fieldDigits slots numbers).length = slots.foldr (fun slot total => slot.width + total) 0 := by
  induction h with
  | nil => rfl
  | cons _ _ ih => rw [fieldDigits, List.length_append, Nibble.length_lowest, ih, List.foldr_cons]

end Fields

lemma lt_of_mem_fieldDigits {slots : List Slot} {numbers : List Nat} {digit : Nat}
    (h : digit ∈ fieldDigits slots numbers) : digit < 16 := by
  induction slots generalizing numbers with
  | nil => simp [fieldDigits] at h
  | cons slot slots ih =>
    cases numbers with
    | nil => simp [fieldDigits] at h
    | cons number numbers =>
      rcases List.mem_append.mp h with h | h
      · exact Nibble.lt_of_mem_lowest h
      · exact ih h

lemma pattern_digits_lt (mnemonic : Mnemonic) :
    mnemonic.pattern.lead < 16 ∧ ∀ digit ∈ mnemonic.pattern.trail, digit < 16 := by
  cases mnemonic <;> decide

lemma toNat_word {digits : List Nat} (hlength : digits.length = 4)
    (hdigits : ∀ digit ∈ digits, digit < 16) :
    (Nibble.word digits).toNat = Numeral.value 16 digits := by
  have hlt := Numeral.value_lt hdigits
  rw [hlength] at hlt
  unfold Nibble.word
  rw [UInt16.toNat_ofNat']
  exact Nat.mod_eq_of_lt hlt

section Word

variable {target : Target} {table : SymbolTable}

/-- A pattern with numbers in its fields has four digits. -/
lemma FitsAll.digits {mnemonic : Mnemonic} {operands : List Operand} {numbers : List Nat}
    (h : FitsAll target table mnemonic.pattern.slots operands numbers) :
    (mnemonic.pattern.lead :: fieldDigits mnemonic.pattern.slots numbers ++
        mnemonic.pattern.trail).length = 4 ∧
      ∀ digit ∈ mnemonic.pattern.lead :: fieldDigits mnemonic.pattern.slots numbers ++
        mnemonic.pattern.trail, digit < 16 := by
  obtain ⟨hlead, htrail⟩ := pattern_digits_lt mnemonic
  have hlength := mnemonic.width_pattern
  unfold WordPattern.width at hlength
  refine ⟨?_, ?_⟩
  · simp only [List.cons_append, List.length_cons, List.length_append, h.length_fieldDigits]
    omega
  · intro digit hdigit
    rcases List.mem_append.mp hdigit with hdigit | hdigit
    · rcases List.mem_cons.mp hdigit with rfl | hdigit
      · exact hlead
      · exact lt_of_mem_fieldDigits hdigit
    · exact htrail digit hdigit

lemma toNat_word_fields {mnemonic : Mnemonic} {operands : List Operand} {numbers : List Nat}
    (h : FitsAll target table mnemonic.pattern.slots operands numbers) :
    (Nibble.word (mnemonic.pattern.lead :: fieldDigits mnemonic.pattern.slots numbers ++
      mnemonic.pattern.trail)).toNat = patternNumber mnemonic.pattern numbers := by
  have hfields := h.value_append_fieldDigits [mnemonic.pattern.lead]
  rw [List.singleton_append] at hfields
  rw [toNat_word h.digits.1 h.digits.2, Numeral.value_append, patternNumber, hfields]
  simp [Numeral.value]

theorem word_eq_ok_iff {instruction : Instruction} {word : UInt16} :
    instruction.word target table = .ok word ↔ ∃ numbers,
      FitsAll target table instruction.mnemonic.pattern.slots instruction.operands numbers ∧
      word.toNat = patternNumber instruction.mnemonic.pattern numbers := by
  unfold Instruction.word Mnemonic.nibbles
  simp only [atLine_eq_ok_iff, map_eq_ok_iff, bind_eq_ok_iff, requireCount, pure, Except.pure,
    Except.ok.injEq]
  constructor
  · rintro ⟨_, ⟨⟨⟩, hcount, _, hfields, rfl⟩, rfl⟩
    have harity := require_eq_ok_iff.mp hcount
    obtain ⟨numbers, hnumbers, rfl⟩ := (fillAll_eq_ok_iff _ harity).mp hfields
    exact ⟨numbers, hnumbers, toNat_word_fields hnumbers⟩
  · rintro ⟨numbers, hnumbers, hword⟩
    have harity := hnumbers.length_eq
    have hfields := (fillAll_eq_ok_iff instruction.mnemonic.name harity).mpr
      ⟨numbers, hnumbers, rfl⟩
    refine ⟨_, ⟨(), require_eq_ok_iff.mpr harity, _, hfields, rfl⟩, ?_⟩
    exact UInt16.toNat_inj.mp ((toNat_word_fields hnumbers).trans hword.symm)

theorem word_eq_error_iff {instruction : Instruction} {fault : Fault} :
    instruction.word target table = .error fault ↔ ∃ cause, fault = .source instruction.line cause ∧
      (instruction.operands.length ≠ instruction.mnemonic.arity ∧
          cause = .arity instruction.mnemonic.name instruction.mnemonic.arity
            instruction.operands.length ∨
        instruction.operands.length = instruction.mnemonic.arity ∧
          FirstMisfit target table instruction.mnemonic.name instruction.mnemonic.pattern.slots
            instruction.operands cause) := by
  unfold Instruction.word Mnemonic.nibbles
  simp only [atLine_eq_error_iff, map_eq_error_iff, bind_eq_error_iff, requireCount, pure,
    Except.pure, reduceCtorEq, and_false, exists_false, or_false, fillAll_eq_error_iff,
    require_eq_error_iff]
  constructor
  · rintro ⟨cause, ⟨harity, rfl⟩ | ⟨⟨⟩, hcount, hmisfit⟩, rfl⟩
    · exact ⟨_, rfl, Or.inl ⟨harity, rfl⟩⟩
    · exact ⟨cause, rfl, Or.inr ⟨require_eq_ok_iff.mp hcount, hmisfit⟩⟩
  · rintro ⟨cause, rfl, ⟨harity, rfl⟩ | ⟨harity, hmisfit⟩⟩
    · exact ⟨_, Or.inl ⟨harity, rfl⟩, rfl⟩
    · exact ⟨cause, Or.inr ⟨(), require_eq_ok_iff.mpr harity, hmisfit⟩, rfl⟩

lemma exists_word (instruction : Instruction) {numbers : List Nat}
    (h : FitsAll target table instruction.mnemonic.pattern.slots instruction.operands numbers) :
    ∃ word, instruction.word target table = .ok word ∧
      word.toNat = patternNumber instruction.mnemonic.pattern numbers := by
  have hnumber := toNat_word_fields h
  exact ⟨_, word_eq_ok_iff.mpr ⟨numbers, h, hnumber⟩, hnumber⟩

/-! ### Address fields -/

/-- An address field is the only field of its word, and the last. -/
lemma pattern_of_address {mnemonic : Mnemonic} (h : Slot.address ∈ mnemonic.pattern.slots) :
    mnemonic.pattern.slots = [.address] ∧ mnemonic.pattern.trail = [] := by
  revert h
  cases mnemonic <;> decide

lemma FitsAll.address_mem {slots : List Slot} {operands : List Operand} {numbers : List Nat}
    {name : String} (h : FitsAll target table slots operands numbers)
    (hname : .label name ∈ operands) : Slot.address ∈ slots := by
  induction h with
  | nil => simp at hname
  | cons hfits _ ih =>
    rcases List.mem_cons.mp hname with rfl | hname
    · cases hfits
      simp
    · exact List.mem_cons_of_mem _ (ih hname)

lemma operands_of_label {instruction : Instruction} {word : UInt16} {name : String}
    (hword : instruction.word target table = .ok word)
    (hname : .label name ∈ instruction.operands) :
    instruction.mnemonic.pattern.slots = [.address] ∧ instruction.operands = [.label name] := by
  obtain ⟨numbers, hfits, -⟩ := word_eq_ok_iff.mp hword
  obtain ⟨hslots, -⟩ := pattern_of_address (hfits.address_mem hname)
  have hlength := hfits.length_eq
  rw [hslots] at hlength
  obtain ⟨operand, hoperands⟩ := List.length_eq_one_iff.mp hlength
  rw [hoperands, List.mem_singleton] at hname
  rw [hoperands, hname]
  exact ⟨hslots, rfl⟩

lemma patternNumber_address {mnemonic : Mnemonic} (h : mnemonic.pattern.slots = [.address])
    (address : Nat) :
    patternNumber mnemonic.pattern [address] = mnemonic.pattern.lead * 0x1000 + address := by
  have hslot : Slot.address ∈ mnemonic.pattern.slots := by simp [h]
  rw [patternNumber, h, (pattern_of_address hslot).2]
  simp [fieldsAfter, Slot.width, Numeral.value]

lemma exists_fits_of_word {instruction : Instruction} {operand : Operand} {word : UInt16}
    (hslots : instruction.mnemonic.pattern.slots = [.address])
    (hoperands : instruction.operands = [operand])
    (hword : instruction.word target table = .ok word) : ∃ address,
      Fits target table .address operand address ∧
      word.toNat = instruction.mnemonic.pattern.lead * 0x1000 + address := by
  obtain ⟨numbers, hfits, hnumber⟩ := word_eq_ok_iff.mp hword
  rw [hslots, hoperands] at hfits
  cases hfits with
  | cons hfirst hrest =>
    cases hrest
    exact ⟨_, hfirst, hnumber.trans (patternNumber_address hslots _)⟩

lemma exists_word_of_fits {instruction : Instruction} {operand : Operand} {address : Nat}
    (hslots : instruction.mnemonic.pattern.slots = [.address])
    (hoperands : instruction.operands = [operand])
    (hfits : Fits target table .address operand address) : ∃ word,
      instruction.word target table = .ok word ∧
      word.toNat = instruction.mnemonic.pattern.lead * 0x1000 + address := by
  have hall : FitsAll target table instruction.mnemonic.pattern.slots instruction.operands
      [address] := by
    rw [hslots, hoperands]
    exact .cons hfits .nil
  obtain ⟨word, hword, hnumber⟩ := exists_word instruction hall
  exact ⟨word, hword, hnumber.trans (patternNumber_address hslots address)⟩

theorem address_of_word {instruction : Instruction} {word : UInt16} {name : String}
    (hword : instruction.word target table = .ok word)
    (hname : .label name ∈ instruction.operands) : ∃ address,
      (∀ owner, table.address target owner name = .ok address) ∧
      word.toNat % 0x1000 = address := by
  obtain ⟨hslots, hoperands⟩ := operands_of_label hword hname
  obtain ⟨address, hfits, hnumber⟩ := exists_fits_of_word hslots hoperands hword
  cases hfits with
  | label haddress hwidth =>
    refine ⟨address, haddress, ?_⟩
    rw [hnumber]
    omega

/-- A label in a word is bound, and its address lies in memory. -/
theorem exists_binding_of_label {instruction : Instruction} {word : UInt16} {name : String}
    (hword : instruction.word target table = .ok word)
    (hname : .label name ∈ instruction.operands) : ∃ binding ∈ table.bindings,
      binding.name = name ∧
      word.toNat % 0x1000 = (target.labelAddress binding.index).toNat ∧
      word.toNat % 0x1000 < target.memorySize.toNat := by
  obtain ⟨address, haddress, hfield⟩ := address_of_word hword hname
  obtain ⟨binding, hfind, rfl, hlt⟩ := address_eq_ok_iff.mp (haddress "")
  obtain ⟨hmem, hbound⟩ := SymbolTable.find?_eq_some_iff.mp hfind
  exact ⟨binding, hmem, hbound, hfield, by rwa [hfield]⟩

end Word

end Chip8.Proofs
