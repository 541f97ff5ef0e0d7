import Chip8.Command.Run

/-!
# The program `c8asm`

Runs the command on the files of the machine.
-/

namespace Chip8.Command

/-- The number of an error, which some operations report negated. -/
def errorNumber (code : UInt32) : UInt32 :=
  if code < 0x80000000 then code else 0 - code

/-- The fault that an error of the machine stands for. -/
def faultOfError : IO.Error → FileFault
  | .noFileOrDirectory _ _ _ => .notFound
  | .inappropriateType _ code _ =>
    if errorNumber code = 21 then .isDirectory else .notDirectory
  | .invalidArgument _ code details =>
    if errorNumber code = 36 then .nameTooLong else .other details
  | error => .other (toString error)

/-- Access to the files of the machine. -/
def machineAccess : FileAccess IO where
  read path := do
    try pure (.ok (← IO.FS.readBinFile path).toList)
    catch error => pure (.error (faultOfError error))
  write path bytes := do
    try
      IO.FS.writeBinFile path ⟨bytes.toArray⟩
      pure (.ok ())
    catch error => pure (.error (faultOfError error))

end Chip8.Command

def main (arguments : List String) : IO UInt32 := do
  let report ← Chip8.Command.run Chip8.Command.machineAccess arguments
  IO.print report.output
  IO.eprint report.errors
  pure report.exitCode.toUInt32
