import Mathlib
import Chip8.Proofs.StackHistory

/-!
# Canonical text

The text of an instruction reads as that instruction, wherever it comes from: from a line that
writes it or from a stack directive. So the text of what a line writes is a normal form of the line.
Main statement: `read_canonical`.
-/

namespace Chip8.Proofs

/-- The instruction comes from the line with the number: it is written there, or it is code of a
directive there, carried out on the stack of some memory behind any other directives. -/
inductive FromLine (line : Nat) (instruction : Instruction) : Prop
  | written {text : String} (hread : Statement.read line text = .ok (.instruction instruction)) :
      FromLine line instruction
  | expanded {memorySize : UInt16} {earlier : List Call} {call : Call} {code : List Instruction}
      (hline : call.line = line)
      (hcode : (call.perform (Call.run (.ofMemorySize memorySize) earlier)).2 = .ok code)
      (hmem : instruction ∈ code) : FromLine line instruction

lemma Call.run_top_lt (memorySize : UInt16) (calls : List Call) :
    (run (.ofMemorySize memorySize) calls).top < UInt64.size := by
  have htop : (run (.ofMemorySize memorySize) calls).top = memorySize.toNat - 1 := run_top _ calls
  have hlt := memorySize.toNat_lt
  have hsize : UInt64.size = 2 ^ 64 := rfl
  omega

/-- An instruction from a line carries its number, and its operands are what some tokens denote. -/
theorem FromLine.line_and_canonical {line : Nat} {instruction : Instruction}
    (h : FromLine line instruction) : instruction.line = line ∧ Canonical instruction := by
  cases h with
  | written hread => exact ⟨line_of_read hread, canonical_of_read hread⟩
  | @expanded memorySize earlier call code hline hcode hmem =>
    obtain ⟨cursor, hexpansion, -⟩ := Call.exists_expansion hcode
    have hcounted : Counted (Call.run (.ofMemorySize memorySize) earlier)
        (Call.accepted (.ofMemorySize memorySize) earlier) := counted_run rfl earlier
    have hstack := hexpansion.stackInstruction hcounted.bound instruction hmem
    exact ⟨hstack.line_eq.trans hline, hstack.canonical (Call.run_top_lt memorySize earlier)⟩

theorem FromLine.reads {line : Nat} {instruction : Instruction}
    (h : FromLine line instruction) :
    Statement.read line instruction.text = .ok (.instruction instruction) := by
  obtain ⟨hline, hcanonical⟩ := h.line_and_canonical
  rw [read_text hcanonical line, ← hline]

/-! ### A normal form of lines -/

/-- The text of the instruction that a line writes, if it writes one. -/
def canonicalText? (line : Nat) (text : String) : Option String :=
  match Statement.read line text with
  | .ok (.instruction instruction) => some instruction.text
  | _ => none

lemma canonicalText?_eq_some_iff {line : Nat} {text canonical : String} :
    canonicalText? line text = some canonical ↔ ∃ instruction,
      Statement.read line text = .ok (.instruction instruction) ∧ instruction.text = canonical := by
  unfold canonicalText?
  split
  · next instruction hread => simp [hread]
  · next hread =>
    simp only [reduceCtorEq, false_iff, not_exists, not_and]
    exact fun instruction hinstruction => absurd hinstruction (hread instruction)

/-- The text of an instruction from a line reads as the instruction. Hence the text of the
instruction on a line is a normal form: it is its own, and lines that share it read the same. -/
theorem read_canonical (line : Nat) :
    (∀ instruction, FromLine line instruction →
      Statement.read line instruction.text = .ok (.instruction instruction)) ∧
    (∀ text, (canonicalText? line text).bind (canonicalText? line) = canonicalText? line text) ∧
    ∀ first second canonical, canonicalText? line first = some canonical →
      canonicalText? line second = some canonical →
      Statement.read line first = Statement.read line second := by
  refine ⟨fun instruction h => h.reads, ?_, ?_⟩
  · intro text
    cases htext : canonicalText? line text with
    | none => rfl
    | some canonical =>
      obtain ⟨instruction, hread, rfl⟩ := canonicalText?_eq_some_iff.mp htext
      exact canonicalText?_eq_some_iff.mpr ⟨instruction, (FromLine.written hread).reads, rfl⟩
  · intro first second canonical hfirst hsecond
    obtain ⟨instruction, hread, rfl⟩ := canonicalText?_eq_some_iff.mp hfirst
    obtain ⟨other, hother, htext⟩ := canonicalText?_eq_some_iff.mp hsecond
    have hagain := (FromLine.written hread).reads
    rw [← htext, (FromLine.written hother).reads] at hagain
    rw [hread, hother, hagain]

/-- `v10` names no register, and its case stays. -/
theorem read_canonical_label :
    let jump : Instruction := ⟨.jp, [.label "v10"], 3⟩
    FromLine 3 jump ∧ jump.text = "JP v10" ∧
      Statement.read 3 "JP v10" = .ok (.instruction jump) := by
  intro jump
  have hread : Statement.read 3 " jp\tv10 ; again" = .ok (.instruction jump) := by decide +kernel
  have htext : jump.text = "JP v10" := by decide
  refine ⟨.written hread, htext, ?_⟩
  rw [← htext]
  exact (read_canonical 3).1 jump (.written hread)

end Chip8.Proofs
