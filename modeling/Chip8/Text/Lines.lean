/-!
# Lines of a text

A line ends at a line feed, and a carriage return right before that line feed belongs to the
ending. Text after the last line feed is a line of its own unless it is empty; it has no ending,
so a carriage return in it stays.
-/

namespace Chip8

/-- The text without a carriage return at its end. -/
def dropReturn (line : List Char) : List Char :=
  if line.getLast? = some '\r' then line.dropLast else line

/-- The lines of a text, without their endings. -/
def splitLines (text : List Char) : List (List Char) :=
  let pieces := text.splitOn '\n'
  pieces.dropLast.map dropReturn ++ (pieces.getLast?.toList.filter (!·.isEmpty))

/-- The lines of a text, without their endings. -/
def linesOf (text : String) : List String :=
  (splitLines text.toList).map String.ofList

end Chip8
