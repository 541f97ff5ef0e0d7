import Mathlib
import Chip8.Proofs.Encoding

/-!
# Opcodes

The table of opcodes, in the notation of the manuals of the machine, says what operands an
instruction takes and what its word is. Main statement: `word_opcode`.
-/

namespace Chip8.Proofs

/-! ### The notation -/

/-- The word of a mnemonic: a hexadecimal digit stands for itself, `x` and `y` for registers, `kk`
for a byte, `n` for a nibble and `nnn` for an address. -/
def opcode : Mnemonic → String
  | .cls => "00E0"
  | .ret => "00EE"
  | .halt => "00FD"
  | .sys => "0nnn"
  | .jp => "1nnn"
  | .call => "2nnn"
  | .seByte => "3xkk"
  | .sneByte => "4xkk"
  | .seReg => "5xy0"
  | .ldByte => "6xkk"
  | .addByte => "7xkk"
  | .ldReg => "8xy0"
  | .or => "8xy1"
  | .and => "8xy2"
  | .xor => "8xy3"
  | .addReg => "8xy4"
  | .sub => "8xy5"
  | .shr => "8x06"
  | .subn => "8xy7"
  | .shl => "8x0E"
  | .sneReg => "9xy0"
  | .ldI => "Annn"
  | .jpV0 => "Bnnn"
  | .rnd => "Cxkk"
  | .drw => "Dxyn"
  | .skp => "Ex9E"
  | .sknp => "ExA1"
  | .getDt => "Fx07"
  | .waitKey => "Fx0A"
  | .setDt => "Fx15"
  | .setSt => "Fx18"
  | .addI => "Fx1E"
  | .ldF => "Fx29"
  | .ldB => "Fx33"
  | .storeRegs => "Fx55"
  | .loadRegs => "Fx65"

/-- A digit or a field of an opcode. -/
inductive OpcodePart where
  | digit (value : Nat)
  | field (slot : Slot)
deriving DecidableEq

/-- The parts of an opcode from left to right. -/
def opcodeParts : List Char → List OpcodePart
  | [] => []
  | 'x' :: rest => .field .register :: opcodeParts rest
  | 'y' :: rest => .field .register :: opcodeParts rest
  | 'k' :: 'k' :: rest => .field .byte :: opcodeParts rest
  | 'n' :: 'n' :: 'n' :: rest => .field .address :: opcodeParts rest
  | 'n' :: rest => .field .nibble :: opcodeParts rest
  | c :: rest => .digit ((Numeral.digit? 16 c).getD 0) :: opcodeParts rest

/-- The fields that the operands go into, in order. -/
def operandFields (parts : List OpcodePart) : List Slot :=
  parts.filterMap fun
    | .digit _ => none
    | .field slot => some slot

/-- The number of an opcode in base sixteen, behind a first part, with numbers for its fields. -/
def opcodeNumber (first : Nat) : List OpcodePart → List Nat → Nat
  | .digit value :: parts, numbers => opcodeNumber (first * 16 + value) parts numbers
  | .field slot :: parts, number :: numbers =>
    opcodeNumber (first * 16 ^ slot.width + number) parts numbers
  | _, _ => first

/-! ### Patterns in the notation -/

def patternParts (pattern : WordPattern) : List OpcodePart :=
  .digit pattern.lead :: pattern.slots.map .field ++ pattern.trail.map .digit

/-- The table agrees with the patterns that words are made from. -/
lemma opcodeParts_opcode (mnemonic : Mnemonic) :
    opcodeParts (opcode mnemonic).toList = patternParts mnemonic.pattern := by
  cases mnemonic <;> rfl

lemma operandFields_patternParts (pattern : WordPattern) :
    operandFields (patternParts pattern) = pattern.slots := by
  simp [operandFields, patternParts, List.filterMap_map]

lemma opcodeNumber_digits (first : Nat) (digits : List Nat) :
    opcodeNumber first (digits.map .digit) [] =
      first * 16 ^ digits.length + Numeral.value 16 digits := by
  induction digits generalizing first with
  | nil => simp [opcodeNumber, Numeral.value]
  | cons digit digits ih =>
    rw [List.map_cons, opcodeNumber, ih, Numeral.value_cons, List.length_cons, Nat.pow_succ]
    ring

lemma opcodeNumber_fields {slots : List Slot} {numbers : List Nat}
    (hlength : numbers.length = slots.length) (first : Nat) (parts : List OpcodePart) :
    opcodeNumber first (slots.map .field ++ parts) numbers =
      opcodeNumber (fieldsAfter first slots numbers) parts [] := by
  induction slots generalizing first numbers with
  | nil =>
    obtain rfl := List.eq_nil_of_length_eq_zero hlength
    rfl
  | cons slot slots ih =>
    cases numbers with
    | nil => simp at hlength
    | cons number numbers =>
      rw [List.map_cons, List.cons_append, opcodeNumber, fieldsAfter]
      exact ih (by simpa using hlength) _

lemma opcodeNumber_patternParts {pattern : WordPattern} {numbers : List Nat}
    (hlength : numbers.length = pattern.slots.length) :
    opcodeNumber 0 (patternParts pattern) numbers = patternNumber pattern numbers := by
  rw [patternParts, List.cons_append, opcodeNumber, opcodeNumber_fields hlength,
    opcodeNumber_digits, patternNumber]
  simp

/-! ### Words -/

/-- An instruction has a word exactly if there is an operand for each field of its opcode and every
operand fits, and the word is then the opcode with the operands in its fields. Otherwise a wrong
number of operands is the fault, or else the first operand that does not fit. -/
theorem word_opcode (target : Target) (table : SymbolTable) (instruction : Instruction) :
    let parts := opcodeParts (opcode instruction.mnemonic).toList
    let fields := operandFields parts
    let owner := instruction.mnemonic.name
    (∀ word, instruction.word target table = .ok word ↔ ∃ numbers,
      FitsAll target table fields instruction.operands numbers ∧
      word.toNat = opcodeNumber 0 parts numbers) ∧
    ∀ fault, instruction.word target table = .error fault ↔ ∃ cause,
      fault = .source instruction.line cause ∧
      (instruction.operands.length ≠ fields.length ∧
          cause = .arity owner fields.length instruction.operands.length ∨
        instruction.operands.length = fields.length ∧
          FirstMisfit target table owner fields instruction.operands cause) := by
  intro parts fields owner
  have hparts : parts = patternParts instruction.mnemonic.pattern := opcodeParts_opcode _
  have hfields : fields = instruction.mnemonic.pattern.slots := by
    rw [← operandFields_patternParts, ← hparts]
  constructor
  · intro word
    rw [word_eq_ok_iff, hfields, hparts]
    apply exists_congr
    intro numbers
    apply and_congr_right
    intro hfits
    rw [opcodeNumber_patternParts hfits.length_numbers]
  · intro fault
    rw [word_eq_error_iff, hfields]
    rfl

end Chip8.Proofs
