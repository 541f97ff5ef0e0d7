import Mathlib
import Chip8.Proofs.Relisting

/-!
# Where faults come from

On an accepted target the code of directives has words whatever labels there are, and the address
of a label fits its field. So a fault of the second pass lies with an instruction of the source, and
a number that is too wide is a numeral that its line holds. Main statement:
`assemble_fault_origins`.
-/

namespace Chip8.Proofs

/-! ### Code of directives -/

/-- The line with the given place, counted from zero, is a stack directive. -/
def StackLine (lines : List String) (k : Nat) (directive : Directive) (tokens : List String) :
    Prop :=
  ∃ text, lines[k]? = some text ∧ Statement.read (k + 1) text = .ok (.stack directive tokens)

/-- The instruction is in the code that a stack directive of the source adds. -/
def FromDirective (target : Target) (lines : List String) (instruction : Instruction) : Prop :=
  ∃ k directive tokens above code, StackLine lines k directive tokens ∧
    scan target (lines.take k) = .ok above ∧
    (above.stack.step directive tokens (k + 1) (!above.begun)).2 = .ok code ∧ instruction ∈ code

section Directives

variable {target place : Target} {table : SymbolTable} {lines : List String}
  {blocks : List (List Instruction)} {draft : Draft}

lemma StackInstruction.exists_word {line top : Nat} {instruction : Instruction}
    (h : StackInstruction line top instruction) (htop : top < 16 ^ Slot.address.width)
    (place : Target) (table : SymbolTable) : ∃ word, instruction.word place table = .ok word := by
  have hfits : ∃ numbers,
      FitsAll place table instruction.mnemonic.pattern.slots instruction.operands numbers := by
    cases h with
    | setPointer haddress => exact ⟨_, .cons (.literal (by decide) (haddress.trans_lt htop)) .nil⟩
    | copy hdestination hsource =>
      exact ⟨_, .cons (.register hdestination) (.cons (.register hsource) .nil)⟩
    | store => exact ⟨_, .cons (.register (by decide)) .nil⟩
    | load => exact ⟨_, .cons (.register (by decide)) .nil⟩
  obtain ⟨numbers, hnumbers⟩ := hfits
  obtain ⟨word, hword, -⟩ := Proofs.exists_word instruction hnumbers
  exact ⟨word, hword⟩

/-- The stack of an accepted target lies in the reach of an address field. -/
lemma Scan.top_lt_address (h : Scan target lines blocks draft) (htarget : target.fault? = none) :
    draft.stack.top < 16 ^ Slot.address.width := by
  obtain ⟨hmemory, hbase⟩ := fault?_eq_none_iff.mp htarget
  rw [h.stack_top]
  change _ < 0x1000
  omega

lemma FromDirective.stackInstruction {instruction : Instruction}
    (h : FromDirective target lines instruction) :
    ∃ line, StackInstruction line (target.memorySize.toNat - 1) instruction := by
  obtain ⟨k, directive, tokens, above, code, -, habove, hcode, hmem⟩ := h
  obtain ⟨blocks, hblocks⟩ := scan_eq_ok_iff.mp habove
  obtain ⟨cursor, hexpansion⟩ := step_eq_ok_iff.mp hcode
  rw [← hblocks.stack_top]
  exact ⟨k + 1, hexpansion.stackInstruction hblocks.cursor_le instruction hmem⟩

theorem FromDirective.exists_word {instruction : Instruction}
    (h : FromDirective target lines instruction) (htarget : target.fault? = none) (place : Target)
    (table : SymbolTable) : ∃ word, instruction.word place table = .ok word := by
  obtain ⟨line, hstack⟩ := h.stackInstruction
  obtain ⟨hmemory, hbase⟩ := fault?_eq_none_iff.mp htarget
  refine hstack.exists_word ?_ place table
  change _ < 0x1000
  omega

end Directives

/-! ### The second pass -/

section SecondPass

variable {target : Target} {table : SymbolTable} {lines : List String}
  {blocks : List (List Instruction)} {draft : Draft} {fault : Fault}

lemma address_lt_of_accepted (htarget : target.fault? = none) {owner name : String} {address : Nat}
    (h : table.address target owner name = .ok address) : address < 16 ^ Slot.address.width := by
  obtain ⟨binding, -, -, hlt⟩ := address_eq_ok_iff.mp h
  obtain ⟨hmemory, -⟩ := fault?_eq_none_iff.mp htarget
  change address < 0x1000
  omega

/-- The first instruction without a word is written on a line of its own, and one of its operands
does not go into its field. -/
theorem Scan.origin_of_link_error (h : Scan target lines blocks draft)
    (htarget : target.fault? = none) {base : UInt16}
    (hlink : Program.link base target draft.table draft.code.toList = .error fault) :
    ∃ k text instruction cause, fault = .source (k + 1) cause ∧ lines[k]? = some text ∧
      Statement.read (k + 1) text = .ok (.instruction instruction) ∧
      FirstMisfit target draft.table instruction.mnemonic.name instruction.mnemonic.pattern.slots
        instruction.operands cause := by
  obtain ⟨instruction, hcode, hword⟩ := exists_word_error hlink
  obtain ⟨i, hi⟩ := List.mem_iff_getElem?.mp hcode
  rw [h.code_eq] at hi
  obtain ⟨k, block, hblock, hmem, -, -⟩ := exists_block_of_getElem? hi
  obtain ⟨text, above, statement, next, htext, habove, hread, hstep, -⟩ := h.block hblock
  cases hstep with
  | blank => simp at hmem
  | label => simp at hmem
  | stack hcode =>
    have hstack := (code_eq_ok_iff.mp hcode).stackInstruction habove.cursor_le instruction hmem
    obtain ⟨word, hsome⟩ :=
      hstack.exists_word (habove.top_lt_address htarget) target draft.table
    rw [hsome] at hword
    simp at hword
  | instruction =>
    obtain rfl := List.mem_singleton.mp hmem
    have harity := (canonical_of_read hread).arity
    obtain ⟨cause, rfl, hcause⟩ := word_eq_error_iff.mp hword
    rw [line_of_read hread]
    rcases hcause with ⟨hne, -⟩ | ⟨-, hmisfit⟩
    · exact absurd harity hne
    · exact ⟨k, text, instruction, cause, rfl, htext, hread, hmisfit⟩

lemma not_stackLine_of_read {k : Nat} {text : String} {statement : Statement}
    (htext : lines[k]? = some text) (hread : Statement.read (k + 1) text = .ok statement)
    (hstatement : ∀ directive tokens, statement ≠ .stack directive tokens) :
    ∀ directive tokens, ¬StackLine lines k directive tokens := by
  rintro directive tokens ⟨text', htext', hread'⟩
  obtain rfl := Option.some.inj (htext.symm.trans htext')
  apply hstatement directive tokens
  exact Except.ok.inj (hread.symm.trans hread')

/-- The fault of the second pass is on a line that is no directive, and the number of operands is
right. -/
lemma Scan.origin_of_finish_error (h : Scan target lines blocks draft)
    (htarget : target.fault? = none) (hfault : draft.finish target = .error fault) : ∃ k cause,
      fault = .source (k + 1) cause ∧ k < lines.length ∧
      (∀ directive tokens, ¬StackLine lines k directive tokens) ∧
      ∀ owner expected found, cause ≠ .arity owner expected found := by
  rcases finish_eq_error_iff.mp hfault with ⟨label, hlabel, rfl⟩ | ⟨-, hlink⟩
  · obtain ⟨hmem, -, -⟩ := h.trailing?_eq_some_iff.mp hlabel
    obtain ⟨k, ⟨text, htext, hread⟩, hline, -⟩ := h.mem_bindings_iff.mp hmem
    have hk := (List.getElem?_eq_some_iff.mp htext).1
    rw [hline]
    exact ⟨k, _, rfl, hk, not_stackLine_of_read htext hread (by simp), by simp⟩
  · obtain ⟨k, text, instruction, cause, rfl, htext, hread, hmisfit⟩ :=
      h.origin_of_link_error htarget hlink
    have hk := (List.getElem?_eq_some_iff.mp htext).1
    refine ⟨k, cause, rfl, hk, not_stackLine_of_read htext hread (by simp), ?_⟩
    rintro owner expected found rfl
    cases hmisfit.fieldCause

end SecondPass

/-! ### Numbers that are too wide -/

/-- The line writes an instruction, and its operand with the given place is the numeral of a value
for the field with that place. -/
structure WritesNumeral (text : String) (mnemonic : Mnemonic) (i : Nat) (slot : Slot)
    (numeral : String) (value : Nat) : Prop where
  words : ∃ head tokens, tokensOf text = head :: tokens ∧
    Mnemonic.ofName? head = some mnemonic ∧ tokens.length = mnemonic.arity ∧
    tokens[i]? = some numeral
  slot : mnemonic.pattern.slots[i]? = some slot
  value : Numeral.read? numeral.toList = some value

/-- The value of a numeral does not fit the field or has more than 64 bits; a fault reports it by a
token and the number of digits that would fit. -/
inductive TooWide (slot : Slot) (numeral : String) (value : Nat) : String → Nat → Prop
  | field (hwidth : 16 ^ slot.width ≤ value) :
      TooWide slot numeral value (Numeral.hexPrefixed value) slot.width
  | number (hlarge : UInt64.size ≤ value) : TooWide slot numeral value numeral 16

/-- Some operand of the instruction on the line is a numeral that is too wide. -/
def WideNumeral (text owner token : String) (digits : Nat) : Prop :=
  ∃ mnemonic i slot numeral value, mnemonic.name = owner ∧
    WritesNumeral text mnemonic i slot numeral value ∧ TooWide slot numeral value token digits

section TooWide

variable {target : Target} {table : SymbolTable} {lines : List String} {owner token : String}
  {digits : Nat}

/-- Registers and the addresses of labels fit, so what is too wide is a literal. -/
lemma literal_of_tooWide (htarget : target.fault? = none) {slot : Slot} {operand : Operand}
    {number : Nat} (hoperand : Readable operand)
    (hnumber : slot.number target table owner operand = .ok number)
    (hwidth : 16 ^ slot.width ≤ number) : operand = .literal number := by
  rcases number_eq_ok_iff.mp hnumber with ⟨rfl, rfl⟩ | ⟨-, hliteral⟩ | ⟨rfl, name, -, haddress⟩
  · cases hoperand with
    | register hregister => exact absurd hregister (Nat.not_lt_of_le hwidth)
  · exact hliteral
  · have hlt := address_lt_of_accepted htarget haddress
    exact absurd hlt (Nat.not_lt_of_le hwidth)

lemma FirstMisfit.exists_literal (htarget : target.fault? = none) {slots : List Slot}
    {operands : List Operand} (hoperands : ∀ operand ∈ operands, Readable operand) {other : String}
    (h : FirstMisfit target table owner slots operands (.operand other (.tooWide token digits))) :
    other = owner ∧ ∃ (i : Nat) (slot : Slot) (value : Nat), slots[i]? = some slot ∧
      operands[i]? = some (.literal value) ∧ 16 ^ slot.width ≤ value ∧
      token = Numeral.hexPrefixed value ∧ digits = slot.width := by
  generalize hcause : Cause.operand other (.tooWide token digits) = cause at h
  induction h with
  | @here slot operand slots operands cause hmisfit =>
    cases hmisfit with
    | register => simp at hcause
    | literal => simp at hcause
    | label haddress =>
      subst hcause
      simp [address_eq_error_iff] at haddress
    | @tooWide _ _ number hnumber hwidth =>
      obtain ⟨rfl, hfault⟩ := Cause.operand.inj hcause
      obtain ⟨rfl, rfl⟩ := OperandFault.tooWide.inj hfault
      have hliteral := literal_of_tooWide htarget (hoperands operand (by simp)) hnumber hwidth
      exact ⟨rfl, 0, slot, number, rfl, by simp [hliteral], hwidth, rfl, rfl⟩
  | later _ _ ih =>
    obtain ⟨howner, i, slot, value, hslot, hoperand, hwide⟩ :=
      ih (fun operand hmem => hoperands operand (by simp [hmem])) hcause
    exact ⟨howner, i + 1, slot, value, hslot, hoperand, hwide⟩

/-- A line that the reader refuses for a wide number holds the numeral. -/
lemma wideNumeral_of_read {line : Nat} {text : String}
    (h : Statement.read line text = .error (.operand owner (.tooWide token digits))) :
    WideNumeral text owner token digits := by
  obtain ⟨head, tokens, htokens, hcause | hread⟩ := ofTokens_error h
  · simp at hcause
  rcases instruction_read_eq_error_iff.mp hread with
    ⟨-, hcause⟩ | ⟨mnemonic, hmnemonic, ⟨-, hcause⟩ | ⟨harity, hoperands⟩⟩
  · simp at hcause
  · simp at hcause
  obtain ⟨before, numeral, after, fault, rfl, -, hfault, hcause⟩ :=
    operands_eq_error_iff.mp hoperands
  obtain ⟨rfl, rfl⟩ := Cause.operand.inj hcause
  obtain ⟨value, hvalue, hlarge, rfl, rfl⟩ := tooWide_of_operand hfault
  have hlt : before.length < mnemonic.pattern.slots.length := by
    change before.length < mnemonic.arity
    simp only [List.length_append, List.length_cons] at harity
    omega
  exact ⟨mnemonic, before.length, _, token, value, rfl,
    ⟨⟨head, _, htokens, hmnemonic, harity, by simp⟩, List.getElem?_eq_getElem hlt, hvalue⟩,
    .number hlarge⟩

/-- A line whose instruction has no word for a wide number holds the numeral. -/
lemma wideNumeral_of_misfit (htarget : target.fault? = none) {line : Nat} {text : String}
    {instruction : Instruction} (hread : Statement.read line text = .ok (.instruction instruction))
    (h : FirstMisfit target table instruction.mnemonic.name instruction.mnemonic.pattern.slots
      instruction.operands (.operand owner (.tooWide token digits))) :
    WideNumeral text owner token digits := by
  obtain ⟨rfl, i, slot, value, hslot, hoperand, hwidth, rfl, rfl⟩ :=
    h.exists_literal htarget (canonical_of_read hread).readable
  obtain ⟨head, tokens, htokens, hinstruction⟩ := ofTokens_instruction hread
  obtain ⟨hmnemonic, harity, hoperands, -⟩ := instruction_read_eq_ok_iff.mp hinstruction
  obtain ⟨hi, hliteral⟩ := List.getElem?_eq_some_iff.mp hoperand
  have hj : i < tokens.length := by rwa [hoperands.length_eq]
  have htoken : Token.operand tokens[i] = .ok (.literal value) := by
    rw [← hliteral]
    exact hoperands.get hj hi
  exact ⟨instruction.mnemonic, i, slot, tokens[i], value, rfl,
    ⟨⟨head, tokens, htokens, hmnemonic, harity, List.getElem?_eq_getElem hj⟩, hslot,
      literal_of_operand htoken⟩, .field hwidth⟩

lemma add_ne_tooWide {draft : Draft} {line : Nat} {statement : Statement} :
    draft.add line statement ≠ .error (.operand owner (.tooWide token digits)) := by
  intro h
  cases statement with
  | blank => simp [Draft.add, pure, Except.pure] at h
  | label name =>
    rcases bind_eq_error_iff.mp h with hbind | ⟨next, -, hnext⟩
    · simp [SymbolTable.bind_eq_error_iff] at hbind
    · simp [pure, Except.pure] at hnext
  | stack directive tokens =>
    rcases bind_eq_error_iff.mp h with hcode | ⟨code, -, hnext⟩
    · cases directiveCause_of_code (step_eq_error_iff.mp hcode)
    · simp [pure, Except.pure] at hnext
  | instruction instruction => simp [Draft.add, pure, Except.pure] at h

lemma wideNumeral_of_assemble (htarget : target.fault? = none) {number : Nat}
    (h : assemble target lines = .error (.source number (.operand owner (.tooWide token digits)))) :
    ∃ k text, number = k + 1 ∧ lines[k]? = some text ∧ WideNumeral text owner token digits := by
  rw [assemble_of_accepted htarget] at h
  rcases bind_eq_error_iff.mp h with hscan | ⟨draft, hscan, hfinish⟩
  · obtain ⟨stop, hstop⟩ := scan_eq_error_iff.mp hscan
    obtain ⟨k, above, text, rfl, htext, -, hline⟩ := hstop.exists_line
    obtain ⟨cause, hcause, hfault⟩ := atLine_eq_error_iff.mp hline
    obtain ⟨rfl, rfl⟩ := Fault.source.inj hfault
    rcases bind_eq_error_iff.mp hcause with hread | ⟨statement, -, hadd⟩
    · exact ⟨k, text, rfl, htext, wideNumeral_of_read hread⟩
    · exact absurd hadd add_ne_tooWide
  · obtain ⟨blocks, hblocks⟩ := scan_eq_ok_iff.mp hscan
    rcases finish_eq_error_iff.mp hfinish with ⟨label, -, hfault⟩ | ⟨-, hlink⟩
    · simp at hfault
    · obtain ⟨k, text, instruction, cause, hfault, htext, hread, hmisfit⟩ :=
        hblocks.origin_of_link_error htarget hlink
      obtain ⟨rfl, rfl⟩ := Fault.source.inj hfault
      exact ⟨k, text, rfl, htext, wideNumeral_of_misfit htarget hread hmisfit⟩

end TooWide

/-! ### The faults of a source -/

/-- The code of directives has words. A fault of the second pass is on a line that is no directive
and not about the number of operands, the address of a label fits its field, and a number that is
too wide is a numeral on its line. -/
structure FaultOrigins (target : Target) (lines : List String) : Prop where
  generated : ∀ instruction, FromDirective target lines instruction →
    ∀ place table, ∃ word, instruction.word place table = .ok word
  secondPass : ∀ draft fault, scan target lines = .ok draft →
    draft.finish target = .error fault → ∃ k cause, fault = .source (k + 1) cause ∧
      k < lines.length ∧ (∀ directive tokens, ¬StackLine lines k directive tokens) ∧
      ∀ owner expected found, cause ≠ .arity owner expected found
  address : ∀ (table : SymbolTable) (owner name : String) (address : Nat),
    table.address target owner name = .ok address → address < 16 ^ Slot.address.width
  tooWide : ∀ number owner token digits,
    assemble target lines = .error (.source number (.operand owner (.tooWide token digits))) →
    ∃ k text, number = k + 1 ∧ lines[k]? = some text ∧ WideNumeral text owner token digits

/-- On an accepted target the source itself is at fault. -/
theorem assemble_fault_origins {target : Target} (h : target.fault? = none) (lines : List String) :
    FaultOrigins target lines := by
  refine ⟨fun instruction hinstruction => hinstruction.exists_word h, ?_, ?_, ?_⟩
  · intro draft fault hscan hfault
    obtain ⟨blocks, hblocks⟩ := scan_eq_ok_iff.mp hscan
    exact hblocks.origin_of_finish_error h hfault
  · intro table owner name address haddress
    exact address_lt_of_accepted h haddress
  · intro number owner token digits hfault
    exact wideNumeral_of_assemble h hfault

/-- The code of a `PUSH` above a literal that its field does not hold. -/
theorem assemble_fault_origins_literal :
    ({} : Target).fault? = none ∧
    FromDirective {} ["STACK_INIT", "PUSH V1", "LD_BYTE V0 256"] (Stack.store 2) ∧
    assemble {} ["STACK_INIT", "PUSH V1", "LD_BYTE V0 256"] =
      .error (.source 3 (.operand "LD_BYTE" (.tooWide "0x100" 2))) ∧
    FaultOrigins {} ["STACK_INIT", "PUSH V1", "LD_BYTE V0 256"] := by
  have htarget : ({} : Target).fault? = none := by decide
  have hread : Statement.read 2 "PUSH V1" = .ok (.stack .push ["V1"]) := by decide +kernel
  have hcode : (scan {} ["STACK_INIT"]).map
      (fun above => (above.stack.step .push ["V1"] 2 (!above.begun)).2) =
      .ok (.ok [Stack.copy 2 0 1, Stack.store 2, Stack.setPointer 2 0xFFE]) := by
    decide +kernel
  have hfault : assemble {} ["STACK_INIT", "PUSH V1", "LD_BYTE V0 256"] =
      .error (.source 3 (.operand "LD_BYTE" (.tooWide "0x100" 2))) := by
    decide +kernel
  obtain ⟨above, habove, hcode⟩ := map_eq_ok_iff.mp hcode
  refine ⟨htarget, ?_, hfault, assemble_fault_origins htarget _⟩
  exact ⟨1, .push, ["V1"], above, _, ⟨"PUSH V1", rfl, hread⟩, habove, hcode, by simp⟩

end Chip8.Proofs
