import Chip8.Directive
import Chip8.Target
import Chip8.Token

/-!
# Faults

What can be wrong with a line of source, and the texts that report it. A fault of the source
carries the number of its line, counted from one; only a refused target has none.
-/

namespace Chip8

/-- Why an address lies outside the memory it was meant for. -/
inductive AddressFault where
  | labelBeyondMemory | stackOverflow | emptyStack
deriving DecidableEq

def AddressFault.message : AddressFault → String
  | .labelBeyondMemory => "label beyond end of memory"
  | .stackOverflow => "stack overflow below address 0"
  | .emptyStack => "pop from empty stack"

/-- What is wrong with a line. The owner of a fault is the mnemonic or directive it concerns. -/
inductive Cause where
  | operand (owner : String) (fault : OperandFault)
  | arity (owner : String) (expected found : Nat)
  | unknownMnemonic (head : String)
  | unresolvedLabel (owner label : String)
  | addressOutOfRange (owner : String) (address : Nat) (fault : AddressFault)
  | duplicateLabel (label : String) (firstLine : Nat)
  | badLabelName (name : String)
  | trailingLabel (label : String)
  | notFirst (directive : Directive)
  | stackNotReady (directive : Directive)
  | tooManyRegisters (directive : Directive) (count : Nat)
deriving DecidableEq

/-- The text of a cause behind the line number. -/
def Cause.message : Cause → String
  | .operand owner (.badRegister token) =>
    s!"{owner}: invalid register '{token}' (expected V0-VF)"
  | .operand owner fault => s!"{owner}: {fault.message}"
  | .arity owner expected found => s!"{owner}: expected {expected} operand(s), found {found}"
  | .unknownMnemonic head => s!"unknown mnemonic: {head}"
  | .unresolvedLabel owner label => s!"{owner}: unresolved label: {label}"
  | .addressOutOfRange owner address fault =>
    s!"{owner}: address 0x{Numeral.hexPadded 3 address} out of range ({fault.message})"
  | .duplicateLabel label firstLine =>
    s!"duplicate label: {label} (first defined on line {firstLine})"
  | .badLabelName name => s!"invalid label name: {name}"
  | .trailingLabel label => s!"label {label} is not followed by any instruction"
  | .notFirst directive => s!"{directive.name} must be the first line of the program"
  | .stackNotReady directive => s!"{directive.name} used before STACK_INIT"
  | .tooManyRegisters directive count =>
    s!"{directive.name}: {count} registers given, at most 15 can be pushed"

/-- Passes if a condition holds and fails with a cause if it does not. -/
def require (condition : Prop) [Decidable condition] (cause : Cause) : Except Cause Unit :=
  if condition then .ok () else .error cause

/-- Refuses any number of operands but the expected one. -/
def requireCount (owner : String) (expected found : Nat) : Except Cause Unit :=
  require (found = expected) (.arity owner expected found)

/-- Why a program cannot be assembled. -/
inductive Fault where
  | target (fault : TargetFault)
  | source (line : Nat) (cause : Cause)
deriving DecidableEq

namespace Fault

/-- The line of a fault in the source. -/
def line? : Fault → Option Nat
  | .target _ => none
  | .source line _ => some line

def message : Fault → String
  | .target fault => s!"invalid options: {fault.message}"
  | .source line cause => s!"line {line}: {cause.message}"

end Fault

/-- A result of one line, with the number of that line on its fault. -/
def atLine {α : Type} (line : Nat) : Except Cause α → Except Fault α
  | .ok result => .ok result
  | .error cause => .error (.source line cause)

end Chip8
