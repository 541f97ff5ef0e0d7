import Mathlib
import Chip8.Proofs.Encoding
import Chip8.Proofs.Expansion
import Chip8.Proofs.Passes
import Chip8.Proofs.Tables

/-!
# Layout of programs

The code of a program is the code of its lines in order, and a label is bound to the number of
instructions that the lines above it add. Main statement: `assemble_layout`.
-/

namespace Chip8.Proofs

/-! ### The code of each line -/

/-- The number of instructions that a statement stands for. -/
def statementSize : Statement → Nat
  | .blank => 0
  | .label _ => 0
  | .instruction _ => 1
  | .stack .stackInit _ => 1
  | .stack .push tokens => 3 * tokens.length
  | .stack .pop _ => 3
  | .stack .resetSp _ => 1

/-- What a statement stands for after the lines above it. -/
def StatementCode (target : Target) (above : List String) : Statement → List Instruction → Prop
  | .blank, code => code = []
  | .label _, code => code = []
  | .instruction instruction, code => code = [instruction]
  | .stack directive tokens, code => ∃ draft cursor, scan target above = .ok draft ∧
      Expansion draft.stack (above.length + 1) (!draft.begun) directive tokens cursor code

section Step

variable {line : Nat} {draft next : Draft} {statement : Statement} {code : List Instruction}

lemma Step.code_eq (h : Step line draft statement code next) :
    next.code.toList = draft.code.toList ++ code := by
  cases h <;> simp

lemma Step.length_eq (h : Step line draft statement code next) :
    code.length = statementSize statement := by
  cases h with
  | blank => rfl
  | label => rfl
  | instruction => rfl
  | stack hcode =>
    cases code_eq_ok_iff.mp hcode with
    | start => rfl
    | push _ _ _ hregisters hsave =>
      rw [(Stack.cursor_of_saveAll hsave).2, statementSize, hregisters.length_eq]
    | pop => rfl
    | reset => rfl

lemma Step.stack_top (h : Step line draft statement code next) :
    next.stack.top = draft.stack.top := by
  cases h <;> rfl

lemma Step.cursor_le (h : Step line draft statement code next)
    (hcursor : ∀ cursor, draft.stack.cursor = some cursor → cursor ≤ draft.stack.top) :
    ∀ cursor, next.stack.cursor = some cursor → cursor ≤ next.stack.top := by
  cases h with
  | blank => exact hcursor
  | label => exact hcursor
  | instruction => exact hcursor
  | stack hcode =>
    intro cursor hsome
    obtain rfl := Option.some.inj hsome
    exact (code_eq_ok_iff.mp hcode).cursor_le hcursor

/-- The code of a statement carries its line, and a reader takes its text for the same code. -/
lemma Step.line_and_canonical {text : String} (h : Step line draft statement code next)
    (hread : Statement.read line text = .ok statement)
    (hcursor : ∀ cursor, draft.stack.cursor = some cursor → cursor ≤ draft.stack.top)
    (htop : draft.stack.top < UInt64.size) :
    ∀ instruction ∈ code, instruction.line = line ∧ Canonical instruction := by
  cases h with
  | blank => simp
  | label => simp
  | instruction =>
    simp only [List.mem_singleton, forall_eq]
    exact ⟨line_of_read hread, canonical_of_read hread⟩
  | stack hcode =>
    intro instruction hmem
    have hstack := (code_eq_ok_iff.mp hcode).stackInstruction hcursor instruction hmem
    exact ⟨hstack.line_eq, hstack.canonical htop⟩

lemma Step.statementCode {target : Target} {above : List String}
    (h : Step (above.length + 1) draft statement code next)
    (habove : scan target above = .ok draft) :
    StatementCode target above statement code := by
  cases h with
  | blank => rfl
  | label => rfl
  | instruction => rfl
  | stack hcode => exact ⟨draft, _, habove, code_eq_ok_iff.mp hcode⟩

end Step

/-- The number of instructions in the first blocks. -/
def codeBefore {α : Type} (blocks : List (List α)) (k : Nat) : Nat :=
  (blocks.take k).flatten.length

lemma codeBefore_cons {α : Type} (block : List α) (blocks : List (List α)) (k : Nat) :
    codeBefore (block :: blocks) (k + 1) = block.length + codeBefore blocks k := by
  simp [codeBefore]

lemma codeBefore_succ {α : Type} {blocks : List (List α)} {k : Nat} {block : List α}
    (h : blocks[k]? = some block) :
    codeBefore blocks (k + 1) = codeBefore blocks k + block.length := by
  simp [codeBefore, List.take_add_one, h]

lemma codeBefore_mono {α : Type} (blocks : List (List α)) {j k : Nat} (h : j ≤ k) :
    codeBefore blocks j ≤ codeBefore blocks k :=
  (List.take_sublist_take_left h).flatten.length_le

section Scan

variable {target : Target} {lines : List String} {blocks : List (List Instruction)} {draft : Draft}

lemma Scan.length_eq (h : Scan target lines blocks draft) : blocks.length = lines.length := by
  induction h with
  | nil => rfl
  | concat _ _ _ ih => simp [ih]

lemma Scan.code_eq (h : Scan target lines blocks draft) : draft.code.toList = blocks.flatten := by
  induction h with
  | nil => rfl
  | concat _ _ hstep ih => simp [hstep.code_eq, ih]

lemma Scan.size_eq (h : Scan target lines blocks draft) :
    draft.code.size = blocks.flatten.length := by
  rw [← h.code_eq, Array.length_toList]

lemma Scan.stack_top (h : Scan target lines blocks draft) :
    draft.stack.top = target.memorySize.toNat - 1 := by
  induction h with
  | nil => rfl
  | concat _ _ hstep ih => exact hstep.stack_top.trans ih

lemma Scan.cursor_le (h : Scan target lines blocks draft) :
    ∀ cursor, draft.stack.cursor = some cursor → cursor ≤ draft.stack.top := by
  induction h with
  | nil => simp [Draft.new, Stack.ofMemorySize]
  | concat _ _ hstep ih => exact hstep.cursor_le ih

lemma Scan.top_lt (h : Scan target lines blocks draft) : draft.stack.top < UInt64.size := by
  have hsize := target.memorySize.toNat_lt
  rw [h.stack_top]
  change _ < 18446744073709551616
  omega

/-- Each line in turn: the lines above it are accepted, and its code is its block. -/
theorem Scan.line (h : Scan target lines blocks draft) {k : Nat} {text : String}
    (htext : lines[k]? = some text) : ∃ above statement block next,
      Scan target (lines.take k) (blocks.take k) above ∧
      Statement.read (k + 1) text = .ok statement ∧ blocks[k]? = some block ∧
      Step (k + 1) above statement block next ∧
      Scan target (lines.take (k + 1)) (blocks.take (k + 1)) next := by
  induction h with
  | nil => simp at htext
  | @concat lines blocks draft next text' statement block above hread hstep ih =>
    have hlength := above.length_eq
    rcases Nat.lt_trichotomy k lines.length with hk | rfl | hk
    · rw [List.getElem?_append_left hk] at htext
      rw [List.take_append_of_le_length (by omega), List.take_append_of_le_length (by omega),
        List.take_append_of_le_length (by omega), List.take_append_of_le_length (by omega),
        List.getElem?_append_left (by omega)]
      exact ih htext
    · obtain rfl : text' = text := by simpa using htext
      refine ⟨draft, statement, block, next, ?_, hread, ?_, hstep, ?_⟩
      · simpa [← hlength] using above
      · simp [← hlength]
      · rw [List.take_of_length_le (by simp), List.take_of_length_le (by simp [hlength])]
        exact .concat above hread hstep
    · rw [List.getElem?_eq_none (by simp; omega)] at htext
      simp at htext

/-- Each block in turn is the code of a line. -/
lemma Scan.block (h : Scan target lines blocks draft) {k : Nat} {block : List Instruction}
    (hblock : blocks[k]? = some block) : ∃ text above statement next, lines[k]? = some text ∧
      Scan target (lines.take k) (blocks.take k) above ∧
      Statement.read (k + 1) text = .ok statement ∧ Step (k + 1) above statement block next ∧
      Scan target (lines.take (k + 1)) (blocks.take (k + 1)) next := by
  have hk : k < lines.length := h.length_eq ▸ (List.getElem?_eq_some_iff.mp hblock).1
  have htext := List.getElem?_eq_getElem hk
  obtain ⟨above, statement, code, next, habove, hread, hcode, hstep, hnext⟩ := h.line htext
  obtain rfl := Option.some.inj (hblock.symm.trans hcode)
  exact ⟨_, above, statement, next, htext, habove, hread, hstep, hnext⟩

end Scan

/-! ### The labels -/

/-- The line with the given place, counted from zero, binds the name. -/
def LabelLine (lines : List String) (k : Nat) (name : String) : Prop :=
  ∃ text, lines[k]? = some text ∧ Statement.read (k + 1) text = .ok (.label name)

lemma labelLine_concat {lines : List String} {text name : String} {k : Nat} :
    LabelLine (lines ++ [text]) k name ↔ LabelLine lines k name ∨
      k = lines.length ∧ Statement.read (lines.length + 1) text = .ok (.label name) := by
  unfold LabelLine
  rcases Nat.lt_trichotomy k lines.length with hk | rfl | hk
  · have hne : k ≠ lines.length := by omega
    simp [List.getElem?_append_left hk, hne]
  · simp
  · have hne : k ≠ lines.length := by omega
    rw [List.getElem?_eq_none (by simp; omega), List.getElem?_eq_none (by omega)]
    simp [hne]

section Labels

variable {target : Target} {lines : List String} {blocks : List (List Instruction)} {draft : Draft}

lemma LabelLine.lt {k : Nat} {name : String} (h : LabelLine lines k name) : k < lines.length := by
  obtain ⟨text, htext, -⟩ := h
  exact (List.getElem?_eq_some_iff.mp htext).1

/-- A binding records its line and the number of instructions above it. -/
theorem Scan.mem_bindings_iff (h : Scan target lines blocks draft) {binding : Binding} :
    binding ∈ draft.table.bindings ↔ ∃ k, LabelLine lines k binding.name ∧
      binding.line = k + 1 ∧ binding.index = codeBefore blocks k := by
  induction h with
  | nil => simp [Draft.new, LabelLine]
  | @concat lines blocks draft next text statement block above hread hstep ih =>
    have hlength := above.length_eq
    have hbefore : ∀ k, LabelLine lines k binding.name →
        codeBefore (blocks ++ [block]) k = codeBefore blocks k := by
      intro k hk
      have hlt := hk.lt
      rw [codeBefore, codeBefore, List.take_append_of_le_length (by omega)]
    have hlast : codeBefore (blocks ++ [block]) lines.length = draft.code.size := by
      rw [codeBefore, ← hlength, List.take_left, above.size_eq]
    -- The last line binds at the end of the code; every other line binds where it did.
    have hsplit : (∃ k, LabelLine (lines ++ [text]) k binding.name ∧ binding.line = k + 1 ∧
          binding.index = codeBefore (blocks ++ [block]) k) ↔
        (∃ k, LabelLine lines k binding.name ∧ binding.line = k + 1 ∧
          binding.index = codeBefore blocks k) ∨
        statement = .label binding.name ∧ binding.line = lines.length + 1 ∧
          binding.index = draft.code.size := by
      simp only [labelLine_concat, hread, Except.ok.injEq]
      constructor
      · rintro ⟨k, hk | ⟨rfl, hname⟩, hline, hindex⟩
        · exact Or.inl ⟨k, hk, hline, hindex.trans (hbefore k hk)⟩
        · exact Or.inr ⟨hname, hline, hindex.trans hlast⟩
      · rintro (⟨k, hk, hline, hindex⟩ | ⟨hname, hline, hindex⟩)
        · exact ⟨k, Or.inl hk, hline, hindex.trans (hbefore k hk).symm⟩
        · exact ⟨lines.length, Or.inr ⟨rfl, hname⟩, hline, hindex.trans hlast.symm⟩
    rw [hsplit, ← ih]
    cases hstep with
    | blank => simp
    | stack => simp
    | instruction => simp
    | @label name table hbind =>
      rw [mem_bindings_bind hbind, or_comm]
      obtain ⟨bindingName, index, number⟩ := binding
      simp only [Statement.label.injEq, Binding.mk.injEq]
      grind

lemma Scan.index_le (h : Scan target lines blocks draft) {binding : Binding}
    (hmem : binding ∈ draft.table.bindings) : binding.index ≤ draft.code.size := by
  obtain ⟨k, -, -, hindex⟩ := h.mem_bindings_iff.mp hmem
  have hle := (List.take_sublist k blocks).flatten.length_le
  rw [h.size_eq, hindex]
  exact hle

/-- No two lines bind the same name. -/
lemma Scan.labelLine_unique (h : Scan target lines blocks draft) {name : String} {k k' : Nat}
    (hk : LabelLine lines k name) (hk' : LabelLine lines k' name) : k = k' := by
  have hfirst : (⟨name, codeBefore blocks k, k + 1⟩ : Binding) ∈ draft.table.bindings :=
    h.mem_bindings_iff.mpr ⟨k, hk, rfl, rfl⟩
  have hsecond : (⟨name, codeBefore blocks k', k' + 1⟩ : Binding) ∈ draft.table.bindings :=
    h.mem_bindings_iff.mpr ⟨k', hk', rfl, rfl⟩
  have hline := congrArg Binding.line (eq_of_mem_of_name_eq hfirst hsecond rfl)
  simpa using hline

end Labels

/-! ### The program -/

lemma codeBefore_map {α β : Type} (f : α → β) (blocks : List (List α)) (k : Nat) :
    codeBefore (blocks.map (List.map f)) k = codeBefore blocks k := by
  unfold codeBefore
  rw [← List.map_take, ← List.map_flatten, List.length_map]

lemma exists_blocks {α β : Type} {f : α → β} {l : List α} {blocks : List (List β)}
    (h : l.map f = blocks.flatten) :
    ∃ parts : List (List α), l = parts.flatten ∧ parts.map (List.map f) = blocks := by
  induction blocks generalizing l with
  | nil =>
    rw [List.flatten_nil, List.map_eq_nil_iff] at h
    exact ⟨[], h, rfl⟩
  | cons block blocks ih =>
    rw [List.flatten_cons, List.map_eq_append_iff] at h
    obtain ⟨first, rest, rfl, rfl, hrest⟩ := h
    obtain ⟨parts, rfl, rfl⟩ := ih hrest
    exact ⟨first :: parts, rfl, rfl⟩

lemma bytes_eq (program : Program) : program.bytes = program.entries.flatMap fun entry =>
    [UInt8.ofNat (entry.word.toNat / 256), UInt8.ofNat (entry.word.toNat % 256)] := by
  have hentry : ∀ entry : Entry, entry.bytes =
      [UInt8.ofNat (entry.word.toNat / 256), UInt8.ofNat (entry.word.toNat % 256)] := by
    intro entry
    unfold Entry.bytes
    congr 1
    · apply UInt8.toNat_inj.mp
      simp [Nat.shiftRight_eq_div_pow]
    · congr 1
      apply UInt8.toNat_inj.mp
      simp
  unfold Program.bytes
  congr 1
  exact funext hentry

/-- The label that an instruction names is bound by one line, and its address is in the word. -/
lemma Scan.label_address {target : Target} {lines : List String}
    {blocks : List (List Instruction)} {draft : Draft} (h : Scan target lines blocks draft)
    (hsize : draft.code.size < 2 ^ 30) {instruction : Instruction} {word : UInt16} {name : String}
    (hword : instruction.word target draft.table = .ok word)
    (hname : .label name ∈ instruction.operands) :
    ∃ k, (∀ k', LabelLine lines k' name ↔ k' = k) ∧
      word.toNat % 0x1000 = target.loadBase.toNat + target.offset (codeBefore blocks k) := by
  obtain ⟨binding, hmem, rfl, hfield, -⟩ := exists_binding_of_label hword hname
  obtain ⟨k, hk, -, hindex⟩ := h.mem_bindings_iff.mp hmem
  have hle := h.index_le hmem
  refine ⟨k, ?_, ?_⟩
  · intro k'
    constructor
    · intro hk'
      exact h.labelLine_unique hk' hk
    · rintro rfl
      exact hk
  · rw [hfield, ← hindex, toNat_labelAddress_of_lt (by omega)]

/-- The entries of a program, line by line: the code of each line in order, with the number of the
line and the bytes of the words. A label has the address of the entry that follows it. -/
structure Layout (target : Target) (lines : List String) (program : Program)
    (blocks : List (List Entry)) : Prop where
  entries : program.entries = blocks.flatten
  length : blocks.length = lines.length
  line : ∀ (k : Nat) (block : List Entry), blocks[k]? = some block →
    ∀ entry ∈ block, entry.line = k + 1
  statement : ∀ (k : Nat) (text : String) (block : List Entry), lines[k]? = some text →
    blocks[k]? = some block → ∃ statement, Statement.read (k + 1) text = .ok statement ∧
      block.length = statementSize statement ∧
      StatementCode target (lines.take k) statement (block.map (·.instruction))
  bytes : program.bytes = program.entries.flatMap fun entry =>
    [UInt8.ofNat (entry.word.toNat / 256), UInt8.ofNat (entry.word.toNat % 256)]
  label : ∀ entry ∈ program.entries, ∀ name, .label name ∈ entry.instruction.operands →
    ∃ k, (∀ k', LabelLine lines k' name ↔ k' = k) ∧ entry.word.toNat % 0x1000 =
      target.loadBase.toNat + target.offset (codeBefore blocks k)

theorem assemble_layout {target : Target} {lines : List String} {program : Program}
    (h : assemble target lines = .ok program) (hsize : program.size < 2 ^ 30) :
    ∃ blocks, Layout target lines program blocks := by
  obtain ⟨-, draft, hscan, -, hlink⟩ := assemble_eq_ok_iff.mp h
  obtain ⟨codes, hcodes⟩ := scan_eq_ok_iff.mp hscan
  have hinstructions := link_instructions hlink
  obtain ⟨blocks, hentries, rfl⟩ := exists_blocks (hinstructions.trans hcodes.code_eq)
  have hcode : draft.code.size < 2 ^ 30 := by
    rw [← Array.length_toList, ← hinstructions, List.length_map]
    exact hsize
  have hlength : blocks.length = lines.length := by simpa using hcodes.length_eq
  refine ⟨blocks, hentries, hlength, ?_, ?_, bytes_eq program, ?_⟩
  · intro k block hblock entry hmem
    have hk : k < lines.length := hlength ▸ (List.getElem?_eq_some_iff.mp hblock).1
    obtain ⟨above, statement, code, next, habove, hread, hcode, hstep, -⟩ :=
      hcodes.line (List.getElem?_eq_getElem hk)
    obtain rfl : block.map (·.instruction) = code := by simpa [hblock] using hcode
    have hlast := hstep.line_and_canonical hread habove.cursor_le habove.top_lt
    exact (hlast entry.instruction (List.mem_map_of_mem hmem)).1
  · intro k text block htext hblock
    obtain ⟨above, statement, code, next, habove, hread, hcode, hstep, -⟩ := hcodes.line htext
    obtain rfl : block.map (·.instruction) = code := by simpa [hblock] using hcode
    have hlt : k < lines.length := (List.getElem?_eq_some_iff.mp htext).1
    have hk : (lines.take k).length = k := List.length_take_of_le (by omega)
    refine ⟨statement, hread, by simpa using hstep.length_eq, ?_⟩
    rw [← hk] at hstep
    simpa [hk] using hstep.statementCode (scan_eq_ok_iff.mpr ⟨_, habove⟩)
  · intro entry hmem name hname
    obtain ⟨k, hunique, haddress⟩ := hcodes.label_address hcode (link_word hlink entry hmem) hname
    rw [codeBefore_map] at haddress
    exact ⟨k, hunique, haddress⟩

/-- A jump ahead over the three instructions of a `PUSH`. -/
theorem assemble_layout_jump : ∃ program blocks,
    assemble { addressing := .byte } ["STACK_INIT", "JP end", "push V1 ; save", "label end", "HALT"]
      = .ok program ∧
    program.entries.map (·.word) = [0xAFFF, 0x120A, 0x8010, 0xF055, 0xAFFE, 0x00FD] ∧
    program.size < 2 ^ 30 ∧
    Layout { addressing := .byte } ["STACK_INIT", "JP end", "push V1 ; save", "label end", "HALT"]
      program blocks := by
  have hwords : (assemble { addressing := .byte }
      ["STACK_INIT", "JP end", "push V1 ; save", "label end", "HALT"]).map
        (fun program => program.entries.map (·.word)) =
      .ok [0xAFFF, 0x120A, 0x8010, 0xF055, 0xAFFE, 0x00FD] := by
    decide +kernel
  obtain ⟨program, hprogram, hwords⟩ := map_eq_ok_iff.mp hwords
  have hsize : program.size < 2 ^ 30 := by
    rw [Program.size, ← List.length_map (·.word), hwords]
    decide
  obtain ⟨blocks, hlayout⟩ := assemble_layout hprogram hsize
  exact ⟨program, blocks, hprogram, hwords, hsize, hlayout⟩

end Chip8.Proofs
