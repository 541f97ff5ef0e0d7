import Chip8.Text.Words

/-!
# Stack directives

The four directives that keep a stack at the top of memory. Each stands for instructions that
depend on the directives before it.
-/

namespace Chip8

inductive Directive where
  | stackInit | push | pop | resetSp
deriving DecidableEq

namespace Directive

def all : List Directive := [.stackInit, .push, .pop, .resetSp]

def name : Directive → String
  | stackInit => "STACK_INIT"
  | push => "PUSH"
  | pop => "POP"
  | resetSp => "RESET_SP"

/-- The directive that a word names, whatever the case of its ASCII letters. -/
def ofName? (text : String) : Option Directive :=
  all.find? fun directive => directive.name == upper text

end Directive

end Chip8
