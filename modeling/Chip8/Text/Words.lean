/-!
# Words of a line

Blank characters are those with the Unicode property White_Space. The words of a text are its
maximal runs of other characters, in order.
-/

namespace Chip8

/-- The code points with the Unicode property White_Space, as closed ranges. -/
def blankRanges : List (Nat × Nat) :=
  [(0x09, 0x0D), (0x20, 0x20), (0x85, 0x85), (0xA0, 0xA0), (0x1680, 0x1680), (0x2000, 0x200A),
    (0x2028, 0x2029), (0x202F, 0x202F), (0x205F, 0x205F), (0x3000, 0x3000)]

def isBlank (c : Char) : Bool :=
  blankRanges.any fun (first, last) => decide (first ≤ c.toNat) && decide (c.toNat ≤ last)

/-- The maximal runs of characters that are not blank. -/
def words (text : List Char) : List (List Char) :=
  (text.splitOnP isBlank).filter (!·.isEmpty)

/-- The text with the ASCII letters in upper case and every other character unchanged. -/
def upper (text : String) : String :=
  String.ofList (text.toList.map Char.toUpper)

end Chip8
