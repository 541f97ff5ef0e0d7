import Mathlib
import Chip8.Proofs.FirstFailure
import Chip8.Proofs.TwoRuns

/-!
# Lines with nothing on them

Blank lines and comments between the lines of a source change the numbers of the lines below them
and nothing else. The numbers of lines are data that the assembler carries along: whatever place a
line moves to, the run on the moved lines is the run on the lines with every number moved. Main
statement: `assemble_insert_bare`.
-/

namespace Chip8.Proofs

/-! ### Moved line numbers -/

section Moved

variable (place : Nat → Nat)

/-- The cause with the line of the first definition moved. No other cause names a line. -/
def renumberCause : Cause → Cause
  | .duplicateLabel label firstLine => .duplicateLabel label (place firstLine)
  | cause => cause

def renumberFault : Fault → Fault
  | .target fault => .target fault
  | .source line cause => .source (place line) (renumberCause place cause)

def renumberInstruction (instruction : Instruction) : Instruction :=
  { instruction with line := place instruction.line }

def renumberEntry (entry : Entry) : Entry :=
  { entry with instruction := renumberInstruction place entry.instruction }

def renumberProgram (program : Program) : Program where
  entries := program.entries.map (renumberEntry place)

def renumberBinding (binding : Binding) : Binding :=
  { binding with line := place binding.line }

def renumberTable (table : SymbolTable) : SymbolTable where
  bindings := table.bindings.map (renumberBinding place)
  ordered := by
    rw [List.pairwise_map]
    exact table.ordered
  named := by
    intro binding hmem
    obtain ⟨original, horiginal, rfl⟩ := List.mem_map.mp hmem
    exact table.named original horiginal

def renumberDraft (draft : Draft) : Draft where
  table := renumberTable place draft.table
  stack := draft.stack
  code := draft.code.map (renumberInstruction place)
  begun := draft.begun
  lastLabel := draft.lastLabel.map (renumberBinding place)

/-- The second outcome of a step is the first one with the numbers of lines moved. -/
def StepMoves {α : Type} (moved : α → α) : Except Cause α → Except Cause α → Prop :=
  Alike (fun cause other => renumberCause place cause = other) fun a b => moved a = b

/-- The second outcome of a run is the first one with the numbers of lines moved. -/
def RunMoves {α : Type} (moved : α → α) : Except Fault α → Except Fault α → Prop :=
  Alike (fun fault other => renumberFault place fault = other) fun a b => moved a = b

end Moved

section Steps

variable (place : Nat → Nat) {line : Nat}

/-! ### Causes that name no line -/

lemma renumberCause_of_read {text : String} {cause : Cause}
    (h : Statement.read line text = .error cause) : renumberCause place cause = cause := by
  obtain ⟨head, tokens, -, rfl | h⟩ := ofTokens_error h
  · rfl
  · rcases instruction_read_eq_error_iff.mp h with
      ⟨-, rfl⟩ | ⟨mnemonic, -, ⟨-, rfl⟩ | ⟨-, hoperands⟩⟩
    · rfl
    · rfl
    · obtain ⟨-, -, -, fault, -, -, -, rfl⟩ := operands_eq_error_iff.mp hoperands
      rfl

lemma renumberCause_of_directive {directive : Directive} {cause : Cause}
    (h : DirectiveCause directive cause) : renumberCause place cause = cause := by
  cases h <;> rfl

lemma renumberCause_of_word {target : Target} {table : SymbolTable} {instruction : Instruction}
    {cause : Cause} (h : instruction.word target table = .error (.source line cause)) :
    renumberCause place cause = cause := by
  obtain ⟨other, hfault, hcause⟩ := word_eq_error_iff.mp h
  obtain ⟨-, rfl⟩ := Fault.source.inj hfault
  rcases hcause with ⟨-, rfl⟩ | ⟨-, hmisfit⟩
  · rfl
  · cases hmisfit.fieldCause <;> rfl

/-! ### Labels -/

lemma insertByName_map (g : Binding → Binding) (hname : ∀ binding, (g binding).name = binding.name)
    (binding : Binding) (bindings : List Binding) :
    SymbolTable.insertByName (g binding) (bindings.map g) =
      (SymbolTable.insertByName binding bindings).map g := by
  induction bindings with
  | nil => rfl
  | cons head rest ih =>
    rw [List.map_cons, SymbolTable.insertByName, SymbolTable.insertByName, hname, hname, ih]
    split <;> rfl

lemma find?_renumberTable (table : SymbolTable) (name : String) :
    (renumberTable place table).find? name = (table.find? name).map (renumberBinding place) := by
  unfold SymbolTable.find? renumberTable
  rw [List.find?_map]
  rfl

lemma sameIndices_renumberTable (table : SymbolTable) :
    SameIndices table (renumberTable place table) := by
  intro name
  rw [indexOf?, indexOf?, find?_renumberTable, Option.map_map]
  rfl

lemma bind_renumber (table : SymbolTable) (binding : Binding) :
    StepMoves place (renumberTable place) (table.bind binding)
      ((renumberTable place table).bind (renumberBinding place binding)) := by
  have hfind := find?_renumberTable place table binding.name
  cases h : table.bind binding with
  | ok next =>
    obtain ⟨hvalid, hfresh, hnext⟩ := SymbolTable.bind_eq_ok_iff.mp h
    have hmoved : (renumberTable place table).bind (renumberBinding place binding) =
        .ok (renumberTable place next) := by
      refine SymbolTable.bind_eq_ok_iff.mpr ⟨hvalid, ?_, ?_⟩
      · rw [renumberBinding, hfind, hfresh]
        rfl
      · change next.bindings.map (renumberBinding place) = _
        rw [hnext]
        exact (insertByName_map (renumberBinding place) (fun _ => rfl) binding table.bindings).symm
    rw [hmoved]
    exact .ok rfl
  | error cause =>
    have hmoved : (renumberTable place table).bind (renumberBinding place binding) =
        .error (renumberCause place cause) := by
      refine SymbolTable.bind_eq_error_iff.mpr ?_
      rcases SymbolTable.bind_eq_error_iff.mp h with ⟨hinvalid, rfl⟩ | ⟨hvalid, first, hfirst, rfl⟩
      · exact Or.inl ⟨hinvalid, rfl⟩
      · refine Or.inr ⟨hvalid, renumberBinding place first, ?_, rfl⟩
        rw [renumberBinding, hfind, hfirst]
        rfl
    rw [hmoved]
    exact .error rfl

/-! ### Code -/

lemma saveAll_renumber (line cursor : Nat) (registers : List Nat) :
    Stack.saveAll (place line) cursor registers =
      (Stack.saveAll line cursor registers).map fun (final, code) =>
        (final, code.map (renumberInstruction place)) := by
  induction registers generalizing cursor with
  | nil => cases cursor <;> rfl
  | cons register registers ih =>
    cases cursor with
    | zero => rfl
    | succ cursor =>
      rw [Stack.saveAll, Stack.saveAll, ih, Option.map_map, Option.map_map]
      rfl

/-- A directive stands for the same code on every line. -/
lemma code_renumber (stack : Stack) (directive : Directive) (tokens : List String) (line : Nat)
    (first : Bool) : stack.code directive tokens (place line) first =
      (stack.code directive tokens line first).map fun (cursor, code) =>
        (cursor, code.map (renumberInstruction place)) := by
  cases directive with
  | stackInit =>
    simp only [Stack.code, Stack.startCode, map_bind]
    rfl
  | push =>
    simp only [Stack.code, Stack.pushCode, map_bind, saveAll_renumber]
    refine bind_congr fun cursor => bind_congr fun _ => bind_congr fun _ =>
      bind_congr fun registers => ?_
    cases Stack.saveAll line cursor registers <;> rfl
  | pop =>
    simp only [Stack.code, Stack.popCode, map_bind]
    refine bind_congr fun cursor => bind_congr fun _ => bind_congr fun registers =>
      bind_congr fun _ => ?_
    simp only [pure, Except.pure, Except.map, List.map_cons, List.map_map]
    rfl
  | resetSp =>
    simp only [Stack.code, Stack.resetCode, map_bind]
    rfl

/-! ### The first pass -/

lemma add_renumber (draft : Draft) {statement : Statement}
    (hline : ∀ instruction, statement = .instruction instruction → instruction.line = line) :
    StepMoves place (renumberDraft place) (draft.add line statement)
      ((renumberDraft place draft).add (place line) (renumber (place line) statement)) := by
  have hsize : (renumberDraft place draft).code.size = draft.code.size := Array.size_map
  cases statement with
  | blank => exact .ok rfl
  | label name =>
    change StepMoves _ _ _ ((renumberDraft place draft).add _ (.label name))
    rw [add_label, add_label, hsize]
    refine (bind_renumber place draft.table ⟨name, draft.code.size, line⟩).map ?_
    rintro table _ rfl
    rfl
  | stack directive tokens =>
    change StepMoves _ _ _ ((renumberDraft place draft).add _ (.stack directive tokens))
    rw [add_stack, add_stack, renumberDraft, code_renumber]
    cases hcode : draft.stack.code directive tokens line (!draft.begun) with
    | error cause =>
      exact .error (renumberCause_of_directive place (directiveCause_of_code hcode))
    | ok result =>
      have hmap : (draft.code ++ result.2).map (renumberInstruction place) =
          draft.code.map (renumberInstruction place) ++
            result.2.map (renumberInstruction place) := by
        apply Array.toList_inj.mp
        simp
      refine .ok ?_
      simp only [renumberDraft, hmap]
  | instruction instruction =>
    obtain rfl := hline instruction rfl
    refine .ok ?_
    simp [renumberDraft, renumberInstruction]

/-- A line that is moved adds the same to a draft whose lines are moved. -/
theorem addLine_renumber (draft : Draft) (line : Nat) (text : String) :
    RunMoves place (renumberDraft place) (draft.addLine line text)
      ((renumberDraft place draft).addLine (place line) text) := by
  have hline : StepMoves place (renumberDraft place)
      (Statement.read line text >>= draft.add line)
      (Statement.read (place line) text >>= (renumberDraft place draft).add (place line)) := by
    rw [read_renumber line (place line)]
    cases hread : Statement.read line text with
    | error cause => exact .error (renumberCause_of_read place hread)
    | ok statement =>
      refine add_renumber place draft ?_
      rintro instruction rfl
      exact line_of_read hread
  refine Alike.atLine hline ?_
  rintro cause _ rfl
  rfl

/-- Lines that move together add the same to a draft whose lines are moved. -/
theorem addLines_renumber {gap : Nat} {texts : List String}
    (hplace : ∀ number, line ≤ number → number < line + texts.length →
      place number = number + gap) (draft : Draft) :
    RunMoves place (renumberDraft place) (draft.addLines line texts)
      ((renumberDraft place draft).addLines (line + gap) texts) := by
  have hsame : List.Forall₂ Eq texts texts := List.forall₂_refl texts
  refine addLines_alike hsame ?_ rfl
  rintro number text _ draft _ hlow hhigh rfl rfl
  rw [← hplace number hlow hhigh]
  exact addLine_renumber place draft number text

/-! ### The second pass -/

lemma word_renumber (target : Target) (table : SymbolTable) (instruction : Instruction) :
    RunMoves place id (instruction.word target table)
      ((renumberInstruction place instruction).word target (renumberTable place table)) := by
  have hmoved : (renumberInstruction place instruction).word target (renumberTable place table) =
      atLine (place instruction.line)
        ((instruction.mnemonic.nibbles target table instruction.operands).map Nibble.word) := by
    rw [(sameIndices_renumberTable place table).nibbles_eq]
    rfl
  rw [hmoved]
  cases hword : instruction.word target table with
  | ok word =>
    rw [atLine_eq_ok_iff.mpr (atLine_eq_ok_iff.mp hword)]
    exact .ok rfl
  | error fault =>
    obtain ⟨cause, hcause, rfl⟩ := atLine_eq_error_iff.mp hword
    rw [hcause]
    refine .error ?_
    rw [renumberFault, renumberCause_of_word place hword]

lemma entry_renumber (base : UInt16) (target : Target) (table : SymbolTable) (index : Nat)
    (instruction : Instruction) :
    RunMoves place (renumberEntry place) (Program.entry base target table index instruction)
      (Program.entry base target (renumberTable place table) index
        (renumberInstruction place instruction)) := by
  unfold Program.entry
  rw [← (sameIndices_renumberTable place table).namesAt_eq index]
  refine (word_renumber place target table instruction).map ?_
  rintro word _ rfl
  rfl

theorem finish_renumber (target : Target) (draft : Draft) :
    RunMoves place (renumberProgram place) (draft.finish target)
      ((renumberDraft place draft).finish target) := by
  have hcode : List.Forall₂ (fun instruction moved => renumberInstruction place instruction = moved)
      draft.code.toList (renumberDraft place draft).code.toList := by
    rw [renumberDraft, Array.toList_map, List.forall₂_map_right_iff, List.forall₂_same]
    exact fun _ _ => rfl
  have hlink : RunMoves place (renumberProgram place)
      (Program.link target.loadBase target draft.table draft.code.toList)
      (Program.link target.loadBase target (renumberTable place draft.table)
        (renumberDraft place draft).code.toList) := by
    refine (link_alike (R := fun entry moved => renumberEntry place entry = moved) hcode ?_).imp
      (fun _ _ hfault => hfault) ?_
    · rintro index instruction _ rfl
      exact entry_renumber place target.loadBase target draft.table index instruction
    · rintro program ⟨entries⟩ hentries
      rw [← List.forall₂_map_left_iff, List.forall₂_eq_eq_eq] at hentries
      exact congrArg Program.mk hentries
  have htrailing : (renumberDraft place draft).trailing? =
      draft.trailing?.map (renumberBinding place) :=
    trailing?_map (fun _ => rfl) rfl Array.size_map
  exact finish_alike htrailing (fun _ => rfl) hlink

end Steps

/-! ### Blank lines between lines -/

/-- Where a line goes when a number of lines is put behind the first ones. -/
def behind (first count line : Nat) : Nat :=
  if line ≤ first then line else line + count

lemma addLines_of_bare {blanks : List String} (h : ∀ text ∈ blanks, Bare text) (draft : Draft)
    (line : Nat) : draft.addLines line blanks = .ok draft := by
  induction blanks generalizing line with
  | nil => rfl
  | cons text blanks ih =>
    have hline : draft.addLine line text = .ok draft := by
      rw [Draft.addLine, (h text (by simp)).read_eq]
      rfl
    rw [Draft.addLines, hline]
    exact ih (fun other hother => h other (by simp [hother])) (line + 1)

lemma scan_renumber {place : Nat → Nat} {lines : List String}
    (h : ∀ number ≤ lines.length, place number = number) (target : Target) :
    RunMoves place (renumberDraft place) (scan target lines) (scan target lines) := by
  have hplace : ∀ number, 1 ≤ number → number < 1 + lines.length → place number = number + 0 :=
    fun number _ hhigh => h number (by omega)
  have hnew : renumberDraft place (Draft.new target) = Draft.new target := by
    simp [renumberDraft, renumberTable, Draft.new]
  have hrun := addLines_renumber place hplace (Draft.new target)
  rw [hnew] at hrun
  exact hrun

theorem scan_insert_bare (target : Target) (above below : List String) {blanks : List String}
    (h : ∀ text ∈ blanks, Bare text) :
    RunMoves (behind above.length blanks.length)
      (renumberDraft (behind above.length blanks.length))
      (scan target (above ++ below)) (scan target (above ++ blanks ++ below)) := by
  have hkept : ∀ number ≤ above.length, behind above.length blanks.length number = number :=
    fun number hle => if_pos hle
  have hmoved : ∀ number, above.length + 1 ≤ number →
      number < above.length + 1 + below.length →
      behind above.length blanks.length number = number + blanks.length :=
    fun number hlow _ => if_neg (by omega)
  rw [scan_append, List.append_assoc, scan_append]
  refine (scan_renumber hkept target).bind ?_
  rintro draft _ rfl
  rw [addLines_append, addLines_of_bare h]
  exact addLines_renumber _ hmoved draft

/-- Lines with nothing on them can stand anywhere: the result is the same, with the numbers of the
lines below them greater. -/
theorem assemble_insert_bare (target : Target) (above below : List String) {blanks : List String}
    (h : ∀ text ∈ blanks, Bare text) :
    Alike
      (fun fault moved => renumberFault (behind above.length blanks.length) fault = moved)
      (fun program moved => renumberProgram (behind above.length blanks.length) program = moved)
      (assemble target (above ++ below)) (assemble target (above ++ blanks ++ below)) := by
  refine assemble_alike (fun _ => rfl) (scan_insert_bare target above below h) ?_
  rintro draft _ rfl
  exact finish_renumber (behind above.length blanks.length) target draft

/-- A name is bound a second time below the blank lines. -/
theorem assemble_insert_bare_duplicate :
    (∀ text ∈ ["", "\t; note"], Bare text) ∧
    assemble {} (["CLS"] ++ ["LABEL a", "RET", "LABEL a"]) =
      .error (.source 4 (.duplicateLabel "a" 2)) ∧
    assemble {} (["CLS"] ++ ["", "\t; note"] ++ ["LABEL a", "RET", "LABEL a"]) =
      .error (.source 6 (.duplicateLabel "a" 4)) := by
  have hbare : ∀ text ∈ ["", "\t; note"], Bare text := by
    have hread : ∀ text ∈ ["", "\t; note"], Statement.read 0 text = .ok .blank := by
      decide +kernel
    exact fun text htext => bare_of_read (hread text htext)
  have hfault : assemble {} (["CLS"] ++ ["LABEL a", "RET", "LABEL a"]) =
      .error (.source 4 (.duplicateLabel "a" 2)) := by
    decide +kernel
  have halike := assemble_insert_bare {} ["CLS"] ["LABEL a", "RET", "LABEL a"] hbare
  rw [hfault] at halike
  obtain ⟨fault, hmoved, rfl⟩ := halike.exists_of_error
  exact ⟨hbare, hfault, hmoved⟩

end Chip8.Proofs
