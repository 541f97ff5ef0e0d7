import Chip8.Program
import Chip8.Stack
import Chip8.Statement
import Chip8.Text.Lines

/-!
# Assembly

A program is assembled in two passes. The first reads the lines in order into a draft: the
instructions so far, the labels bound to them, and the stack. The second gives every instruction
its word, with all labels known. The first fault found is the result.
-/

namespace Chip8

/-- What the lines read so far amount to. -/
structure Draft where
  table : SymbolTable := {}
  stack : Stack
  code : Array Instruction := #[]
  /-- Whether a line that is not blank has been read. -/
  begun : Bool := false
  /-- The label bound last. -/
  lastLabel : Option Binding := none

namespace Draft

def new (target : Target) : Draft where
  stack := .ofMemorySize target.memorySize

/-- The draft with one more statement. -/
def add (draft : Draft) (line : Nat) : Statement → Except Cause Draft
  | .blank => pure draft
  | .label name => do
    let binding : Binding := { name, index := draft.code.size, line }
    let table ← draft.table.bind binding
    pure { draft with table, begun := true, lastLabel := some binding }
  | .stack directive operands => do
    let (stack, code) := draft.stack.step directive operands line (!draft.begun)
    let code ← code
    pure { draft with stack, code := draft.code ++ code, begun := true }
  | .instruction instruction =>
    pure { draft with code := draft.code.push instruction, begun := true }

/-- The draft with one more line of source. -/
def addLine (draft : Draft) (line : Nat) (text : String) : Except Fault Draft :=
  atLine line do draft.add line (← Statement.read line text)

/-- The draft with further lines, the first of which has the given number. -/
def addLines (draft : Draft) (line : Nat) : List String → Except Fault Draft
  | [] => .ok draft
  | text :: texts =>
    match draft.addLine line text with
    | .ok next => next.addLines (line + 1) texts
    | .error fault => .error fault

/-- The label bound last, if no instruction follows it. -/
def trailing? (draft : Draft) : Option Binding :=
  draft.lastLabel.filter (·.index == draft.code.size)

/-- The program of a draft. -/
def finish (target : Target) (draft : Draft) : Except Fault Program :=
  match draft.trailing? with
  | some label => .error (.source label.line (.trailingLabel label.name))
  | none => Program.link target.loadBase target draft.table draft.code.toList

end Draft

/-- Assembles lines of source for a target. -/
def assemble (target : Target) (lines : List String) : Except Fault Program :=
  match target.fault? with
  | some fault => .error (.target fault)
  | none =>
    match (Draft.new target).addLines 1 lines with
    | .ok draft => draft.finish target
    | .error fault => .error fault

/-- Assembles a text of source for a target. -/
def assembleText (target : Target) (text : String) : Except Fault Program :=
  assemble target (linesOf text)

end Chip8
