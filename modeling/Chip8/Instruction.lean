import Chip8.Mnemonic
import Chip8.Nibble
import Chip8.SymbolTable

/-!
# Instructions

An instruction is a mnemonic with operands. Its word is the pattern of the mnemonic with every
operand field filled: a field takes the number of a register, a literal, or the address of a label,
and the number has to fit the width of the field.
-/

namespace Chip8

/-- A mnemonic with its operands and the line of the source it comes from. -/
structure Instruction where
  mnemonic : Mnemonic
  operands : List Operand
  line : Nat
deriving DecidableEq

/-- The number that an operand puts into a field; the owner is the mnemonic of the field. -/
def Slot.number (target : Target) (table : SymbolTable) (owner : String) :
    Slot → Operand → Except Cause Nat
  | .register, .register number => .ok number
  | .register, operand => .error (.operand owner (.badRegister operand.text))
  | _, .literal value => .ok value
  | .address, .label name => table.address target owner name
  | _, operand => .error (.operand owner (.badLiteral operand.text))

/-- The nibbles that an operand puts into a field. -/
def Slot.fill (target : Target) (table : SymbolTable) (owner : String) (slot : Slot)
    (operand : Operand) : Except Cause (List Nat) := do
  let number ← slot.number target table owner operand
  (Nibble.fixed number slot.width).mapError (.operand owner)

/-- The nibbles of the operand fields, up to the first field that cannot be filled. -/
def Slot.fillAll (target : Target) (table : SymbolTable) (owner : String) :
    List Slot → List Operand → Except Cause (List Nat)
  | slot :: slots, operand :: operands => do
    let first ← slot.fill target table owner operand
    let others ← fillAll target table owner slots operands
    pure (first ++ others)
  | _, _ => pure []

namespace Mnemonic

/-- The four nibbles of the word that a mnemonic and its operands assemble to. -/
def nibbles (target : Target) (table : SymbolTable) (mnemonic : Mnemonic)
    (operands : List Operand) : Except Cause (List Nat) := do
  requireCount mnemonic.name mnemonic.arity operands.length
  let fields ← Slot.fillAll target table mnemonic.name mnemonic.pattern.slots operands
  pure (mnemonic.pattern.lead :: fields ++ mnemonic.pattern.trail)

end Mnemonic

namespace Instruction

/-- The canonical text: the name of the mnemonic and the operands, a space between each two. -/
def text (instruction : Instruction) : String :=
  String.intercalate " " (instruction.mnemonic.name :: instruction.operands.map Operand.text)

/-- The word of an instruction on a target, with the labels of a table. -/
def word (target : Target) (table : SymbolTable) (instruction : Instruction) :
    Except Fault UInt16 :=
  atLine instruction.line
    ((instruction.mnemonic.nibbles target table instruction.operands).map Nibble.word)

end Instruction

end Chip8
