import Mathlib
import Chip8.Stack
import Chip8.Proofs.Encoding

/-!
# A machine that runs words

The part of the machine that a program without jumps needs: sixteen registers, the pointer `I` and
the memory. `Executes` says what the words of some code do to it.
-/

namespace Chip8.Proofs

/-- The memory has `0x1000` bytes; what the function holds above them is never used. -/
structure Machine where
  registers : Fin 16 → UInt8
  pointer : UInt16
  memory : Nat → UInt8

/-- The register that values go through. -/
def v0 : Fin 16 := 0

namespace Machine

def setRegister (machine : Machine) (register : Fin 16) (value : UInt8) : Machine :=
  { machine with registers := Function.update machine.registers register value }

def setPointer (machine : Machine) (address : Nat) : Machine :=
  { machine with pointer := UInt16.ofNat address }

def setMemory (machine : Machine) (address : Nat) (value : UInt8) : Machine :=
  { machine with memory := Function.update machine.memory address value }

/-- Stores the registers up to the last one where the pointer is, which does not move. -/
def storeRegisters (machine : Machine) (last : Fin 16) : Option Machine :=
  let start := machine.pointer.toNat
  if start + last.val < 0x1000 then
    some { machine with memory := fun address =>
      if start ≤ address ∧ address ≤ start + last.val then
        machine.registers (Fin.ofNat 16 (address - start))
      else machine.memory address }
  else none

/-- Loads the registers up to the last one from where the pointer is, which does not move. -/
def loadRegisters (machine : Machine) (last : Fin 16) : Option Machine :=
  let start := machine.pointer.toNat
  if start + last.val < 0x1000 then
    some { machine with registers := fun register =>
      if register ≤ last then machine.memory (start + register.val)
      else machine.registers register }
  else none

/-- The register that a word names in the nibble with the given weight. -/
def registerAt (word : UInt16) (weight : Nat) : Fin 16 :=
  Fin.ofNat 16 (word.toNat / weight)

/-- Carries out one word: `6xkk`, `7xkk`, `8xy0`, `Annn`, `Fx29`, `Fx55` or `Fx65`. -/
def step (machine : Machine) (word : UInt16) : Option Machine :=
  let x := registerAt word 0x100
  let y := registerAt word 0x10
  let low := word.toNat % 0x100
  match word.toNat / 0x1000 with
  | 0x6 => some (machine.setRegister x (UInt8.ofNat low))
  | 0x7 => some (machine.setRegister x (machine.registers x + UInt8.ofNat low))
  | 0x8 =>
    if word.toNat % 0x10 = 0 then some (machine.setRegister x (machine.registers y)) else none
  | 0xA => some (machine.setPointer (word.toNat % 0x1000))
  | 0xF =>
    match low with
    | 0x29 => some (machine.setPointer ((machine.registers x).toNat * 5))
    | 0x55 => machine.storeRegisters x
    | 0x65 => machine.loadRegisters x
    | _ => none
  | _ => none

def run (machine : Machine) (words : List UInt16) : Option Machine :=
  words.foldlM step machine

lemma run_append (machine : Machine) (first second : List UInt16) :
    machine.run (first ++ second) = (machine.run first).bind (·.run second) := by
  unfold run
  rw [List.foldlM_append]
  rfl

/-! ### Words in fields -/

lemma fields_of_toNat {word : UInt16} {high low : Nat} {x : Fin 16}
    (hword : word.toNat = (high * 16 + x.val) * 0x100 + low) (hlow : low < 0x100) :
    word.toNat / 0x1000 = high ∧ registerAt word 0x100 = x ∧
      word.toNat % 0x100 = low := by
  have hx := x.isLt
  refine ⟨by omega, ?_, by omega⟩
  apply Fin.ext
  rw [registerAt, Fin.val_ofNat]
  omega

section Step

variable {word : UInt16} {low : Nat} {x : Fin 16} (machine : Machine)

lemma step_loadByte (hword : word.toNat = (0x6 * 16 + x.val) * 0x100 + low) (hlow : low < 0x100) :
    machine.step word = some (machine.setRegister x (UInt8.ofNat low)) := by
  obtain ⟨hhigh, hx, hrest⟩ := fields_of_toNat hword hlow
  simp [step, hhigh, hx, hrest]

lemma step_addByte (hword : word.toNat = (0x7 * 16 + x.val) * 0x100 + low) (hlow : low < 0x100) :
    machine.step word =
      some (machine.setRegister x (machine.registers x + UInt8.ofNat low)) := by
  obtain ⟨hhigh, hx, hrest⟩ := fields_of_toNat hword hlow
  simp [step, hhigh, hx, hrest]

lemma step_copy {y : Fin 16} (hword : word.toNat = (0x8 * 16 + x.val) * 0x100 + y.val * 16) :
    machine.step word = some (machine.setRegister x (machine.registers y)) := by
  have hy := y.isLt
  obtain ⟨hhigh, hx, -⟩ := fields_of_toNat hword (by omega)
  have hlast : word.toNat % 0x10 = 0 := by omega
  have hsecond : registerAt word 0x10 = y := by
    apply Fin.ext
    rw [registerAt, Fin.val_ofNat]
    omega
  simp [step, hhigh, hx, hlast, hsecond]

lemma step_setPointer {address : Nat} (hword : word.toNat = 0xA000 + address)
    (haddress : address < 0x1000) : machine.step word = some (machine.setPointer address) := by
  have hhigh : word.toNat / 0x1000 = 0xA := by omega
  have hrest : word.toNat % 0x1000 = address := by omega
  simp [step, hhigh, hrest]

lemma step_sprite (hword : word.toNat = (0xF * 16 + x.val) * 0x100 + 0x29) :
    machine.step word = some (machine.setPointer ((machine.registers x).toNat * 5)) := by
  obtain ⟨hhigh, hx, hrest⟩ := fields_of_toNat hword (by omega)
  simp [step, hhigh, hx, hrest]

lemma step_store (hword : word.toNat = (0xF * 16 + x.val) * 0x100 + 0x55) :
    machine.step word = machine.storeRegisters x := by
  obtain ⟨hhigh, hx, hrest⟩ := fields_of_toNat hword (by omega)
  simp [step, hhigh, hx, hrest]

lemma step_load (hword : word.toNat = (0xF * 16 + x.val) * 0x100 + 0x65) :
    machine.step word = machine.loadRegisters x := by
  obtain ⟨hhigh, hx, hrest⟩ := fields_of_toNat hword (by omega)
  simp [step, hhigh, hx, hrest]

end Step

end Machine

/-! ### What code does -/

/-- The words of the code take the machine from one state to the other. -/
def Executes (target : Target) (table : SymbolTable) (code : List Instruction)
    (before after : Machine) : Prop :=
  ∃ words, code.mapM (Instruction.word target table) = .ok words ∧ before.run words = some after

section Executes

variable {target : Target} {table : SymbolTable} {before middle after : Machine} {line : Nat}

lemma Executes.nil : Executes target table [] before before :=
  ⟨[], rfl, rfl⟩

lemma Executes.append {first second : List Instruction}
    (hfirst : Executes target table first before middle)
    (hsecond : Executes target table second middle after) :
    Executes target table (first ++ second) before after := by
  obtain ⟨words, hwords, hrun⟩ := hfirst
  obtain ⟨others, hothers, hrest⟩ := hsecond
  refine ⟨words ++ others, ?_, ?_⟩
  · rw [List.mapM_append, hwords, hothers]
    rfl
  · rw [Machine.run_append, hrun]
    exact hrest

lemma executes_singleton (instruction : Instruction) {numbers : List Nat}
    (hfits : FitsAll target table instruction.mnemonic.pattern.slots instruction.operands numbers)
    (hstep : ∀ word : UInt16, word.toNat = patternNumber instruction.mnemonic.pattern numbers →
      before.step word = some after) : Executes target table [instruction] before after := by
  obtain ⟨word, hword, hnumber⟩ := exists_word instruction hfits
  refine ⟨[word], ?_, ?_⟩
  · rw [List.mapM_cons, hword]
    rfl
  · unfold Machine.run
    rw [List.foldlM_cons, hstep word hnumber]
    rfl

lemma fitsAll_byte (x : Fin 16) (value : UInt8) : FitsAll target table [.register, .byte]
    [.register x.val, .literal value.toNat] [x.val, value.toNat] :=
  .cons (.register x.isLt) (.cons (.literal (by decide) value.toNat_lt) .nil)

lemma fitsAll_register (x : Fin 16) :
    FitsAll target table [.register] [.register x.val] [x.val] :=
  .cons (.register x.isLt) .nil

lemma patternNumber_byte (lead x value : Nat) :
    patternNumber ⟨lead, [.register, .byte], []⟩ [x, value] = (lead * 16 + x) * 0x100 + value := by
  simp [patternNumber, fieldsAfter, Slot.width, Numeral.value]

lemma patternNumber_register (lead x first second : Nat) :
    patternNumber ⟨lead, [.register], [first, second]⟩ [x] =
      (lead * 16 + x) * 0x100 + (first * 16 + second) := by
  simp [patternNumber, fieldsAfter, Slot.width, Numeral.value]
  omega

lemma executes_loadByte (x : Fin 16) (value : UInt8) : Executes target table
    [⟨.ldByte, [.register x.val, .literal value.toNat], line⟩] before
    (before.setRegister x value) := by
  apply executes_singleton _ (fitsAll_byte x value)
  intro word hword
  rw [before.step_loadByte (hword.trans (patternNumber_byte _ _ _)) value.toNat_lt,
    UInt8.ofNat_toNat]

lemma executes_addByte (x : Fin 16) (value : UInt8) : Executes target table
    [⟨.addByte, [.register x.val, .literal value.toNat], line⟩] before
    (before.setRegister x (before.registers x + value)) := by
  apply executes_singleton _ (fitsAll_byte x value)
  intro word hword
  rw [before.step_addByte (hword.trans (patternNumber_byte _ _ _)) value.toNat_lt,
    UInt8.ofNat_toNat]

lemma executes_copy (x y : Fin 16) : Executes target table [Stack.copy line x.val y.val] before
    (before.setRegister x (before.registers y)) := by
  apply executes_singleton _ (.cons (.register x.isLt) (fitsAll_register y))
  intro word hword
  apply before.step_copy
  rw [hword]
  simp [Stack.copy, Mnemonic.pattern, patternNumber, fieldsAfter, Slot.width, Numeral.value]
  omega

lemma executes_setPointer {address : Nat} (haddress : address < 0x1000) :
    Executes target table [Stack.setPointer line address] before (before.setPointer address) := by
  apply executes_singleton _ (.cons (.literal (by decide) haddress) .nil)
  intro word hword
  apply before.step_setPointer _ haddress
  rw [hword]
  simp [Stack.setPointer, Mnemonic.pattern, patternNumber, fieldsAfter, Slot.width, Numeral.value]

lemma executes_sprite (x : Fin 16) : Executes target table [⟨.ldF, [.register x.val], line⟩] before
    (before.setPointer ((before.registers x).toNat * 5)) := by
  apply executes_singleton _ (fitsAll_register x)
  intro word hword
  exact before.step_sprite (hword.trans (patternNumber_register _ _ _ _))

lemma executes_store (hpointer : before.pointer.toNat < 0x1000) : Executes target table
    [Stack.store line] before (before.setMemory before.pointer.toNat (before.registers v0)) := by
  apply executes_singleton _ (fitsAll_register v0)
  intro word hword
  rw [before.step_store (hword.trans (patternNumber_register _ _ _ _))]
  have hmemory : (fun address => if before.pointer.toNat ≤ address ∧
        address ≤ before.pointer.toNat + v0.val then
          before.registers (Fin.ofNat 16 (address - before.pointer.toNat))
        else before.memory address) =
      Function.update before.memory before.pointer.toNat (before.registers v0) := by
    funext address
    by_cases haddress : address = before.pointer.toNat
    · simp [haddress, v0]
    · rw [Function.update_of_ne haddress, if_neg]
      simp [v0]
      omega
  simp only [Machine.storeRegisters]
  rw [if_pos (by simpa [v0] using hpointer), hmemory]
  rfl

lemma executes_load (hpointer : before.pointer.toNat < 0x1000) : Executes target table
    [Stack.load line] before (before.setRegister v0 (before.memory before.pointer.toNat)) := by
  apply executes_singleton _ (fitsAll_register v0)
  intro word hword
  rw [before.step_load (hword.trans (patternNumber_register _ _ _ _))]
  have hregisters : (fun register : Fin 16 => if register ≤ v0 then
        before.memory (before.pointer.toNat + register.val) else before.registers register) =
      Function.update before.registers v0 (before.memory before.pointer.toNat) := by
    funext register
    by_cases hregister : register = v0
    · rw [hregister, Function.update_self, if_pos le_rfl]
      rfl
    · rw [Function.update_of_ne hregister, if_neg (by simpa [v0] using hregister)]
  simp only [Machine.loadRegisters]
  rw [if_pos (by simpa [v0] using hpointer), hregisters]
  rfl

end Executes

end Chip8.Proofs
