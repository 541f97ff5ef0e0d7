import Chip8.Text.Words

/-!
# Mnemonics

The 36 instructions of the language and the pattern of the word each of them assembles to: a
leading nibble that tells families apart, the operand fields in order, and the nibbles that tell
the members of a family apart. Every pattern is four nibbles wide.
-/

namespace Chip8

inductive Mnemonic where
  | cls | ret | halt
  | sys | jp | call | ldI | jpV0
  | seByte | sneByte | ldByte | addByte | rnd
  | seReg | ldReg | or | and | xor | addReg | sub | subn | sneReg
  | drw
  | shr | shl | skp | sknp
  | getDt | waitKey | setDt | setSt | addI | ldF | ldB | storeRegs | loadRegs
deriving DecidableEq

/-- What an operand field holds. -/
inductive Slot where
  | register | byte | nibble | address
deriving DecidableEq

/-- The width of an operand field in nibbles. -/
def Slot.width : Slot → Nat
  | .register | .nibble => 1
  | .byte => 2
  | .address => 3

/-- The fixed nibbles and the operand fields of a word. -/
structure WordPattern where
  lead : Nat
  slots : List Slot
  trail : List Nat
deriving DecidableEq

def WordPattern.width (pattern : WordPattern) : Nat :=
  1 + pattern.slots.foldr (fun slot total => slot.width + total) 0 + pattern.trail.length

namespace Mnemonic

def all : List Mnemonic :=
  [.cls, .ret, .halt, .sys, .jp, .call, .ldI, .jpV0, .seByte, .sneByte, .ldByte, .addByte, .rnd,
    .seReg, .ldReg, .or, .and, .xor, .addReg, .sub, .subn, .sneReg, .drw, .shr, .shl, .skp, .sknp,
    .getDt, .waitKey, .setDt, .setSt, .addI, .ldF, .ldB, .storeRegs, .loadRegs]

def name : Mnemonic → String
  | cls => "CLS"
  | ret => "RET"
  | halt => "HALT"
  | sys => "SYS"
  | jp => "JP"
  | call => "CALL"
  | ldI => "LD_I"
  | jpV0 => "JP_V0"
  | seByte => "SE_BYTE"
  | sneByte => "SNE_BYTE"
  | ldByte => "LD_BYTE"
  | addByte => "ADD_BYTE"
  | rnd => "RND"
  | seReg => "SE_REG"
  | ldReg => "LD_REG"
  | or => "OR"
  | and => "AND"
  | xor => "XOR"
  | addReg => "ADD_REG"
  | sub => "SUB"
  | subn => "SUBN"
  | sneReg => "SNE_REG"
  | drw => "DRW"
  | shr => "SHR"
  | shl => "SHL"
  | skp => "SKP"
  | sknp => "SKNP"
  | getDt => "GET_DT"
  | waitKey => "WAIT_KEY"
  | setDt => "SET_DT"
  | setSt => "SET_ST"
  | addI => "ADD_I"
  | ldF => "LD_F"
  | ldB => "LD_B"
  | storeRegs => "STORE_REGS"
  | loadRegs => "LOAD_REGS"

/-- The word pattern, in the usual notation from `00E0` and `0nnn` to `Fx65`. -/
def pattern : Mnemonic → WordPattern
  | cls => ⟨0x0, [], [0x0, 0xE, 0x0]⟩
  | ret => ⟨0x0, [], [0x0, 0xE, 0xE]⟩
  | halt => ⟨0x0, [], [0x0, 0xF, 0xD]⟩
  | sys => ⟨0x0, [.address], []⟩
  | jp => ⟨0x1, [.address], []⟩
  | call => ⟨0x2, [.address], []⟩
  | ldI => ⟨0xA, [.address], []⟩
  | jpV0 => ⟨0xB, [.address], []⟩
  | seByte => ⟨0x3, [.register, .byte], []⟩
  | sneByte => ⟨0x4, [.register, .byte], []⟩
  | ldByte => ⟨0x6, [.register, .byte], []⟩
  | addByte => ⟨0x7, [.register, .byte], []⟩
  | rnd => ⟨0xC, [.register, .byte], []⟩
  | seReg => ⟨0x5, [.register, .register], [0x0]⟩
  | ldReg => ⟨0x8, [.register, .register], [0x0]⟩
  | or => ⟨0x8, [.register, .register], [0x1]⟩
  | and => ⟨0x8, [.register, .register], [0x2]⟩
  | xor => ⟨0x8, [.register, .register], [0x3]⟩
  | addReg => ⟨0x8, [.register, .register], [0x4]⟩
  | sub => ⟨0x8, [.register, .register], [0x5]⟩
  | subn => ⟨0x8, [.register, .register], [0x7]⟩
  | sneReg => ⟨0x9, [.register, .register], [0x0]⟩
  | drw => ⟨0xD, [.register, .register, .nibble], []⟩
  | shr => ⟨0x8, [.register], [0x0, 0x6]⟩
  | shl => ⟨0x8, [.register], [0x0, 0xE]⟩
  | skp => ⟨0xE, [.register], [0x9, 0xE]⟩
  | sknp => ⟨0xE, [.register], [0xA, 0x1]⟩
  | getDt => ⟨0xF, [.register], [0x0, 0x7]⟩
  | waitKey => ⟨0xF, [.register], [0x0, 0xA]⟩
  | setDt => ⟨0xF, [.register], [0x1, 0x5]⟩
  | setSt => ⟨0xF, [.register], [0x1, 0x8]⟩
  | addI => ⟨0xF, [.register], [0x1, 0xE]⟩
  | ldF => ⟨0xF, [.register], [0x2, 0x9]⟩
  | ldB => ⟨0xF, [.register], [0x3, 0x3]⟩
  | storeRegs => ⟨0xF, [.register], [0x5, 0x5]⟩
  | loadRegs => ⟨0xF, [.register], [0x6, 0x5]⟩

/-- The number of operands. -/
def arity (mnemonic : Mnemonic) : Nat :=
  mnemonic.pattern.slots.length

/-- The mnemonic that a word names, whatever the case of its ASCII letters. -/
def ofName? (text : String) : Option Mnemonic :=
  all.find? fun mnemonic => mnemonic.name == upper text

end Mnemonic

end Chip8
