import Chip8.Instruction

/-!
# The stack at the top of memory

The stack grows down from the last byte of memory, and the register `I` points at its next free
byte. The machine has no stack for data, so the assembler tracks that address, the cursor, while
it reads the program, and each directive becomes instructions with the cursor written into them.
Values go through `V0`, the first register that the block instructions store and load.
-/

namespace Chip8

/-- The address of the last byte of memory, and the cursor once the stack is ready. -/
structure Stack where
  top : Nat
  cursor : Option Nat := none
deriving DecidableEq

namespace Stack

/-- The register that values go through. -/
def relay : Nat := 0

/-- The greatest number of registers in one directive. -/
def maxPushed : Nat := 15

/-- The stack of a memory before any directive. -/
def ofMemorySize (memorySize : UInt16) : Stack where
  top := memorySize.toNat - 1

/-- Sets `I` to an address. -/
def setPointer (line address : Nat) : Instruction where
  mnemonic := .ldI
  operands := [.literal address]
  line := line

/-- Copies a register to another. -/
def copy (line destination source : Nat) : Instruction where
  mnemonic := .ldReg
  operands := [.register destination, .register source]
  line := line

/-- Stores the relay where `I` points. -/
def store (line : Nat) : Instruction where
  mnemonic := .storeRegs
  operands := [.register relay]
  line := line

/-- Loads the relay from where `I` points. -/
def load (line : Nat) : Instruction where
  mnemonic := .loadRegs
  operands := [.register relay]
  line := line

/-- The registers that the words name, up to the first word that names none. -/
def registers (directive : Directive) : List String → Except Cause (List Nat)
  | [] => pure []
  | token :: tokens => do
    let first ← (Token.register token).mapError (.operand directive.name)
    let others ← registers directive tokens
    pure (first :: others)

/-- The code that saves registers in order from a cursor down, and the cursor behind them; `none`
if the stack would grow below address zero. -/
def saveAll (line : Nat) : Nat → List Nat → Option (Nat × List Instruction)
  | cursor, [] => some (cursor, [])
  | 0, _ :: _ => none
  | cursor + 1, register :: others =>
    (saveAll line cursor others).map fun (final, code) =>
      (final, copy line relay register :: store line :: setPointer line cursor :: code)

/-- The cursor, which a directive needs. -/
def ready (stack : Stack) (directive : Directive) : Except Cause Nat :=
  match stack.cursor with
  | some cursor => .ok cursor
  | none => .error (.stackNotReady directive)

/-- What a directive does to the stack at hand. What it has set when it fails stays set. -/
abbrev Effect := ExceptT Cause (StateM Stack)

/-- Moves the cursor. -/
def moveTo (cursor : Nat) : Effect Unit :=
  modify fun stack => { stack with cursor := some cursor }

/-- Makes the stack empty, which only the first line of a program may do. -/
def start (tokens : List String) (line : Nat) (first : Bool) : Effect (List Instruction) := do
  require (first = true) (.notFirst .stackInit)
  requireCount Directive.stackInit.name 0 tokens.length
  let stack ← get
  moveTo stack.top
  pure [setPointer line stack.top]

/-- Saves up to fifteen registers in order. -/
def push (tokens : List String) (line : Nat) : Effect (List Instruction) := do
  let stack ← get
  let cursor ← stack.ready .push
  require (tokens ≠ []) (.arity Directive.push.name 1 0)
  require (tokens.length ≤ maxPushed) (.tooManyRegisters .push tokens.length)
  let saved ← registers .push tokens
  match saveAll line cursor saved with
  | some (final, code) =>
    moveTo final
    pure code
  | none => throw (.addressOutOfRange Directive.push.name 0 .stackOverflow)

/-- Restores the value saved last to one register. -/
def pop (tokens : List String) (line : Nat) : Effect (List Instruction) := do
  let stack ← get
  let cursor ← stack.ready .pop
  requireCount Directive.pop.name 1 tokens.length
  let restored ← registers .pop tokens
  require (cursor < stack.top) (.addressOutOfRange Directive.pop.name (cursor + 1) .emptyStack)
  moveTo (cursor + 1)
  pure (setPointer line (cursor + 1) :: load line ::
    restored.map fun register => copy line register relay)

/-- Points `I` at the next free byte again. -/
def reset (tokens : List String) (line : Nat) : Effect (List Instruction) := do
  let stack ← get
  let cursor ← stack.ready .resetSp
  requireCount Directive.resetSp.name 0 tokens.length
  pure [setPointer line cursor]

/-- Carries out a directive and gives its code. -/
def expand (directive : Directive) (tokens : List String) (line : Nat) (first : Bool) :
    Effect (List Instruction) :=
  match directive with
  | .stackInit => start tokens line first
  | .push => push tokens line
  | .pop => pop tokens line
  | .resetSp => reset tokens line

/-- The stack behind a directive, and the code of the directive or why it has none. -/
def step (stack : Stack) (directive : Directive) (tokens : List String) (line : Nat)
    (first : Bool) : Stack × Except Cause (List Instruction) :=
  Prod.swap ((expand directive tokens line first).run.run stack)

end Stack

end Chip8
