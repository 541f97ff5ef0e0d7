import Chip8.Assembly
import Chip8.Command.Files
import Chip8.Command.Request

/-!
# The command `c8asm`

Reads the input, assembles it, writes the output, and reports on standard output. Nothing is
written unless the whole program is assembled. What reads and writes files is a parameter, so the
same command runs on the files of the machine and on a store of files. So is the reader of the
arguments, which is a library's part of the command; `Request.ofArguments` stands in for it. Log
output is left out, and so is the text of the reader that tells why it refuses the arguments.
-/

namespace Chip8.Command

/-- The operations on files that the command needs. -/
structure FileAccess (m : Type → Type) where
  read : String → m (Except FileFault (List UInt8))
  write : String → List UInt8 → m (Except FileFault Unit)

/-- What the command leaves on its output channels, and its exit code. -/
structure Report where
  exitCode : UInt8
  output : String := ""
  errors : String := ""
deriving DecidableEq

def versionText : String := "c8asm 1.0.0\n"

def helpText : String :=
  "Two-pass CHIP-8 assembler\n\n" ++
  "Usage: c8asm [OPTIONS] <INPUT>\n" ++
  "\nArguments:\n" ++
  "  <INPUT>  Input assembly file\n" ++
  "\nOptions:\n" ++
  "  -o, --output <OUTPUT>            " ++
    "Output ROM file (defaults to INPUT with a .ch8 extension)\n" ++
  "  -v, --verbose                    Show detailed output\n" ++
  "      --listing                    Print an address/word/source listing to stdout\n" ++
  "      --byte-labels                Resolve labels to byte addresses (base + 2 * index)\n" ++
  "      --load-base <LOAD_BASE>      Program load address [default: 0x200]\n" ++
  "      --memory-size <MEMORY_SIZE>  Target memory size in bytes [default: 0x1000]\n" ++
  "  -h, --help                       Print help\n" ++
  "  -V, --version                    Print version\n"

/-- The text that bytes encode in UTF-8. -/
def decodeText (bytes : List UInt8) : Except FileFault String :=
  match String.fromUTF8? ⟨bytes.toArray⟩ with
  | some text => .ok text
  | none => .error .notText

/-- Why nothing was assembled. -/
inductive Failure where
  | unreadable (path : String) (fault : FileFault)
  | rejected (input : String) (fault : Fault)
  | unwritable (path : String) (fault : FileFault)
deriving DecidableEq

def Failure.message : Failure → String
  | .unreadable path fault => s!"{path}: failed to read file {path}: {fault.message}"
  | .rejected input fault => s!"{input}: {fault.message}"
  | .unwritable path fault => s!"Error: failed to write file {path}: {fault.message}"

namespace Settings

/-- Where the program goes: the path asked for, or the input with the extension `ch8`. -/
def output (settings : Settings) : String :=
  settings.output?.getD (withExtension "ch8" settings.input)

/-- The program of the bytes of the input, as far as they could be read. -/
def program (settings : Settings) (content : Except FileFault (List UInt8)) :
    Except Failure Program :=
  match content >>= decodeText with
  | .error fault => .error (.unreadable settings.input fault)
  | .ok text => (assembleText settings.target text).mapError (.rejected settings.input)

/-- The report on a program that has been written, or on the failure to make one. -/
def report (settings : Settings) : Except Failure Program → Report
  | .error failure => { exitCode := 1, errors := s!"{failure.message}\n" }
  | .ok program => {
      exitCode := 0
      output := (if settings.listing then program.listing else "") ++
        s!"{settings.input} -> {settings.output}\n" }

end Settings

/-- Reads the input, assembles it and writes the output. -/
def build {m : Type → Type} [Monad m] (access : FileAccess m) (settings : Settings) :
    m (Except Failure Program) := do
  match settings.program (← access.read settings.input) with
  | .error failure => pure (.error failure)
  | .ok program =>
    match ← access.write settings.output program.bytes with
    | .error fault => pure (.error (.unwritable settings.output fault))
    | .ok () => pure (.ok program)

/-- Runs the command on arguments that the reader makes a request of or refuses. -/
def runWith {m : Type → Type} [Monad m] {ε : Type} (reader : List String → Except ε Request)
    (access : FileAccess m) (arguments : List String) : m Report :=
  match reader arguments with
  | .error _ => pure { exitCode := 2 }
  | .ok .help => pure { exitCode := 0, output := helpText }
  | .ok .version => pure { exitCode := 0, output := versionText }
  | .ok (.assemble settings) => do pure (settings.report (← build access settings))

/-- Runs the command on its arguments. -/
def run {m : Type → Type} [Monad m] (access : FileAccess m) (arguments : List String) :
    m Report :=
  runWith Request.ofArguments access arguments

namespace FileStore

/-- Access to a store of files; a write that fails leaves it as it was. -/
def access : FileAccess (StateM FileStore) where
  read path := do pure ((← get).read path)
  write path bytes := do
    match (← get).write path bytes with
    | .ok store => do set store; pure (.ok ())
    | .error fault => pure (.error fault)

/-- The report of the command on a store of files, and the store behind it. -/
def runWith {ε : Type} (reader : List String → Except ε Request) (store : FileStore)
    (arguments : List String) : Report × FileStore :=
  (Command.runWith reader access arguments).run store

def run (store : FileStore) (arguments : List String) : Report × FileStore :=
  store.runWith Request.ofArguments arguments

end FileStore

end Chip8.Command
