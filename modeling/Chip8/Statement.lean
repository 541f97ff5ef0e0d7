import Chip8.Instruction

/-!
# Statements

A line of source holds one statement: its words before the first semicolon, the first of which is
a directive or a mnemonic in any case. A line with no words is blank.
-/

namespace Chip8

inductive Statement where
  | blank
  /-- Binds a name to the next instruction; the name is not checked yet. -/
  | label (name : String)
  /-- A stack directive with the words behind it, which are not read yet. -/
  | stack (directive : Directive) (operands : List String)
  | instruction (instruction : Instruction)
deriving DecidableEq

/-- The words of a line before its comment. -/
def tokensOf (line : String) : List String :=
  (words (line.toList.takeWhile (· != ';'))).map String.ofList

/-- The operands that the words denote, up to the first one that denotes none. -/
def Token.operands (owner : String) : List String → Except Cause (List Operand)
  | [] => pure []
  | token :: tokens => do
    let first ← (Token.operand token).mapError (.operand owner)
    let others ← operands owner tokens
    pure (first :: others)

/-- The instruction that a mnemonic and the words behind it write. -/
def Instruction.read (line : Nat) (head : String) (tokens : List String) :
    Except Cause Instruction :=
  match Mnemonic.ofName? head with
  | none => .error (.unknownMnemonic head)
  | some mnemonic => do
    requireCount mnemonic.name mnemonic.arity tokens.length
    let operands ← Token.operands mnemonic.name tokens
    pure { mnemonic, operands, line }

namespace Statement

/-- The word that introduces a label. -/
def labelKeyword : String := "LABEL"

/-- The statement that the words of a line write. -/
def ofTokens (line : Nat) : List String → Except Cause Statement
  | [] => .ok .blank
  | head :: tokens =>
    if upper head = labelKeyword then
      match tokens with
      | [name] => .ok (.label name)
      | _ => .error (.arity labelKeyword 1 tokens.length)
    else
      match Directive.ofName? head with
      | some directive => .ok (.stack directive tokens)
      | none => (Instruction.read line head tokens).map .instruction

/-- The statement on a line; the number of the line goes into its instruction. -/
def read (line : Nat) (text : String) : Except Cause Statement :=
  ofTokens line (tokensOf text)

end Statement

end Chip8
