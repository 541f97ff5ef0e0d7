import Chip8.Text.Numeral

/-!
# Targets

Where a program is loaded, how much memory there is, and how the number of an instruction becomes
the address of its label. An address field has three hexadecimal digits, so a target with more
than `0x1000` bytes is refused, and so is one whose load base lies outside its memory.
-/

namespace Chip8

/-- What a label counts above the load base: instructions, or bytes at two for each instruction. -/
inductive Addressing where
  | index
  | byte
deriving DecidableEq

structure Target where
  loadBase : UInt16 := 0x200
  memorySize : UInt16 := 0x1000
  addressing : Addressing := .index
deriving DecidableEq

/-- Why a target is refused. -/
inductive TargetFault where
  | memoryTooLarge (memorySize : UInt16)
  | baseOutsideMemory (loadBase memorySize : UInt16)
deriving DecidableEq

/-- The largest memory that an address field reaches. -/
def maxMemorySize : UInt16 := 0x1000

def TargetFault.message : TargetFault → String
  | .memoryTooLarge memorySize =>
    s!"memory size {Numeral.hexPrefixed memorySize.toNat} exceeds " ++
      Numeral.hexPrefixed maxMemorySize.toNat
  | .baseOutsideMemory loadBase memorySize =>
    s!"load base {Numeral.hexPrefixed loadBase.toNat} is not below memory size " ++
      Numeral.hexPrefixed memorySize.toNat

namespace Target

/-- The first fault of a target, the size of its memory before its load base. -/
def fault? (target : Target) : Option TargetFault :=
  if maxMemorySize < target.memorySize then some (.memoryTooLarge target.memorySize)
  else if target.memorySize ≤ target.loadBase then
    some (.baseOutsideMemory target.loadBase target.memorySize)
  else none

/-- How far the label of an instruction lies above the load base. -/
def offset (target : Target) (index : Nat) : Nat :=
  match target.addressing with
  | .index => index
  | .byte => 2 * index

/-- The address of the label of an instruction. The sum with the load base has 32 bits and wraps
around. -/
def labelAddress (target : Target) (index : Nat) : UInt32 :=
  target.loadBase.toUInt32 + UInt32.ofNat (target.offset index)

end Target

end Chip8
