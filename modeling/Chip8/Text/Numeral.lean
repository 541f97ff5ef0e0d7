/-!
# Positional numerals

Digits in bases up to sixteen, the numerals of the source language (decimal, or hexadecimal
behind `0x`), and the upper-case hexadecimal text that the assembler prints.
-/

namespace Chip8.Numeral

/-- The digit that an ASCII digit or a letter `a` to `f` of either case stands for. -/
def digitValue? (c : Char) : Option Nat :=
  if '0' ≤ c ∧ c ≤ '9' then some (c.toNat - '0'.toNat)
  else if 'a' ≤ c ∧ c ≤ 'f' then some (c.toNat - 'a'.toNat + 10)
  else if 'A' ≤ c ∧ c ≤ 'F' then some (c.toNat - 'A'.toNat + 10)
  else none

/-- The digit that a character stands for in a base of at most sixteen. -/
def digit? (base : Nat) (c : Char) : Option Nat :=
  (digitValue? c).filter (· < base)

/-- The number that a digit sequence denotes, most significant digit first. -/
def value (base : Nat) (digits : List Nat) : Nat :=
  digits.foldl (fun total digit => base * total + digit) 0

/-- The value of a nonempty text of digits; `none` for any other text. -/
def positional? (base : Nat) (text : List Char) : Option Nat :=
  if text.isEmpty then none else (text.mapM (digit? base)).map (value base)

/-- The value of a numeral: hexadecimal behind `0x` or `0X`, otherwise decimal. -/
def read? : List Char → Option Nat
  | '0' :: 'x' :: digits => positional? 16 digits
  | '0' :: 'X' :: digits => positional? 16 digits
  | digits => positional? 10 digits

/-- The shortest upper-case hexadecimal text of a number. -/
def hex (n : Nat) : List Char :=
  (Nat.toDigits 16 n).map Char.toUpper

/-- Hexadecimal text with zeros in front up to a least width. -/
def hexPadded (width n : Nat) : String :=
  String.ofList ((hex n).leftpad width '0')

/-- Hexadecimal text behind `0x`. -/
def hexPrefixed (n : Nat) : String :=
  "0x" ++ String.ofList (hex n)

end Chip8.Numeral
