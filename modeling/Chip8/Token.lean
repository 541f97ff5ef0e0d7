import Chip8.Text.Numeral

/-!
# Tokens and the operands they denote

A token is a register, a numeral, the name of a label, or nothing that the language knows. The
three readings exclude each other: a register and a name start with a letter, a numeral with a
digit, and no name has the form of a register.
-/

namespace Chip8

/-- The value of one operand field: a register number, a number, or a label to look up. -/
inductive Operand where
  | register (number : Nat)
  | literal (value : Nat)
  | label (name : String)
deriving DecidableEq

/-- Why a token or a value is no operand. -/
inductive OperandFault where
  | badRegister (token : String)
  | badLiteral (token : String)
  /-- The value has more than this many hexadecimal digits. -/
  | tooWide (token : String) (digits : Nat)
deriving DecidableEq

def OperandFault.message : OperandFault → String
  | .badRegister token => s!"invalid register '{token}'"
  | .badLiteral token => s!"invalid literal '{token}'"
  | .tooWide token digits => s!"value '{token}' does not fit in {digits} hex digit(s)"

/-- The canonical text of an operand. -/
def Operand.text : Operand → String
  | .register number => "V" ++ String.ofList (Numeral.hex number)
  | .literal value => Numeral.hexPrefixed value
  | .label name => name

namespace Token

/-- The register that two characters name: the letter V and one hexadecimal digit. -/
def registerNumber? : List Char → Option Nat
  | [letter, digit] =>
    if letter = 'V' ∨ letter = 'v' then Numeral.digit? 16 digit else none
  | _ => none

def register (token : String) : Except OperandFault Nat :=
  match registerNumber? token.toList with
  | some number => .ok number
  | none => .error (.badRegister token)

/-- The value of a numeral that denotes a number of 64 bits. -/
def literal (token : String) : Except OperandFault Nat :=
  match Numeral.read? token.toList with
  | some value => if value < UInt64.size then .ok value else .error (.tooWide token 16)
  | none => .error (.badLiteral token)

/-- Whether a token can only be a register or a name, as it starts with a letter. -/
def startsWithLetter (token : String) : Bool :=
  token.toList.head?.any Char.isAlpha

/-- Whether a character may stand in a name: an ASCII letter or digit, or an underscore. -/
def isNameChar (c : Char) : Bool :=
  c.isAlphanum || c == '_'

/-- Whether a token can name a label. -/
def isLabelName (token : String) : Bool :=
  startsWithLetter token && token.toList.all isNameChar &&
    (registerNumber? token.toList).isNone

/-- The operand that a token denotes. -/
def operand (token : String) : Except OperandFault Operand :=
  match registerNumber? token.toList with
  | some number => .ok (.register number)
  | none =>
    if startsWithLetter token then
      if token.toList.all isNameChar then .ok (.label token) else .error (.badLiteral token)
    else (literal token).map .literal

end Token

end Chip8
