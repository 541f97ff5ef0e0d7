import Chip8.Token

/-!
# Nibbles

A number that fits is written as a fixed count of base-sixteen digits, most significant first. Four
of them make a word.
-/

namespace Chip8.Nibble

/-- The base-sixteen digit at a place, counted from the least significant one. -/
def digitAt (value place : Nat) : Nat :=
  (value >>> (4 * place)) % 16

/-- The lowest base-sixteen digits of a number, most significant first. -/
def lowest (value : Nat) : Nat → List Nat
  | 0 => []
  | place + 1 => digitAt value place :: lowest value place

/-- The digits of a number that has none but zeros above the given count of them. -/
def fixed (value digits : Nat) : Except OperandFault (List Nat) :=
  if value >>> (4 * digits) = 0 then .ok (lowest value digits)
  else .error (.tooWide (Numeral.hexPrefixed value) digits)

/-- The word that four digits spell. -/
def word (digits : List Nat) : UInt16 :=
  UInt16.ofNat (Numeral.value 16 digits)

end Chip8.Nibble
