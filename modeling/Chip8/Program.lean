import Chip8.Instruction

/-!
# Programs

A program is a sequence of entries, one for each instruction: the word, the address it is loaded
at, and the labels that stand before it. Its bytes are the words, high byte first; its listing has
a line for each label and each entry.
-/

namespace Chip8

structure Entry where
  /-- The address of the first byte, which wraps around at 16 bits. -/
  address : UInt16
  word : UInt16
  instruction : Instruction
  labels : List String
deriving DecidableEq

namespace Entry

/-- The line of the source that the entry comes from. -/
def line (entry : Entry) : Nat :=
  entry.instruction.line

def text (entry : Entry) : String :=
  entry.instruction.text

def bytes (entry : Entry) : List UInt8 :=
  [(entry.word >>> 8).toUInt8, entry.word.toUInt8]

/-- Text with blanks in front up to a least width. -/
def alignRight (width : Nat) (text : String) : String :=
  String.ofList (text.toList.leftpad width ' ')

/-- The line of the listing for a label. -/
def labelRow (label : String) : String :=
  s!"{label}:\n"

/-- The line of the listing for the word: address, word, line of the source, text. -/
def wordRow (entry : Entry) : String :=
  let address := Numeral.hexPadded 3 entry.address.toNat
  let word := Numeral.hexPadded 4 entry.word.toNat
  s!"{address}  {word}  {alignRight 5 (toString entry.line)}  {entry.text}\n"

def rows (entry : Entry) : List String :=
  entry.labels.map labelRow ++ [entry.wordRow]

end Entry

structure Program where
  entries : List Entry := []
deriving DecidableEq

namespace Program

def size (program : Program) : Nat :=
  program.entries.length

def bytes (program : Program) : List UInt8 :=
  program.entries.flatMap Entry.bytes

def listing (program : Program) : String :=
  String.join (program.entries.flatMap Entry.rows)

/-- The entry of the instruction with a given number, in a program loaded at a base address. -/
def entry (base : UInt16) (target : Target) (table : SymbolTable) (index : Nat)
    (instruction : Instruction) : Except Fault Entry :=
  (instruction.word target table).map fun word =>
    { address := base + UInt16.ofNat (2 * index)
      word
      instruction
      labels := table.namesAt index }

/-- The program of a sequence of instructions, or the fault of the first of them that has no word.
The base is the address of the first entry; labels are resolved on the target. -/
def link (base : UInt16) (target : Target) (table : SymbolTable) (code : List Instruction) :
    Except Fault Program :=
  (code.zipIdx.mapM fun (instruction, index) => entry base target table index instruction).map
    fun entries => { entries }

end Program

end Chip8
