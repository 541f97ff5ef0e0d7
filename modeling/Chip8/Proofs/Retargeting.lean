import Mathlib
import Chip8.Proofs.FaultOrigins

/-!
# Roomier targets

A source that assembles for a target also assembles for one with a lower load base and more memory.
An address that a label stands for moves with the load base, one that a directive points `I` at
moves with the end of memory, and nothing else in the words changes. Main statement:
`assemble_roomier`.
-/

namespace Chip8.Proofs

/-- The place counts labels as the target does, loads at or below it and has at least its memory. -/
structure Roomier (target place : Target) : Prop where
  addressing : place.addressing = target.addressing
  base : place.loadBase.toNat ≤ target.loadBase.toNat
  memory : target.memorySize.toNat ≤ place.memorySize.toNat

/-! ### Stacks with more room -/

/-- The stack with the given number of bytes more below it. -/
def raise (room : Nat) (stack : Stack) : Stack where
  top := stack.top + room
  cursor := stack.cursor.map (· + room)

/-- The second instruction points `I` higher than the first by the given number of bytes, or is the
first and does not set `I`. -/
inductive Lifts (room : Nat) : Instruction → Instruction → Prop
  | pointer {line address : Nat} :
      Lifts room (Stack.setPointer line address) (Stack.setPointer line (address + room))
  | other {instruction : Instruction} (hmnemonic : instruction.mnemonic ≠ .ldI) :
      Lifts room instruction instruction

section Raise

variable {stack : Stack} {line : Nat} {first : Bool} {directive : Directive} {tokens : List String}
  {cursor : Nat} {code : List Instruction}

lemma saveAll_raise (room : Nat) {final : Nat} {registers : List Nat}
    (h : Stack.saveAll line cursor registers = some (final, code)) : ∃ lifted,
      Stack.saveAll line (cursor + room) registers = some (final + room, lifted) ∧
      List.Forall₂ (Lifts room) code lifted := by
  induction registers generalizing cursor code with
  | nil =>
    obtain ⟨rfl, rfl⟩ : cursor = final ∧ [] = code := by simpa [Stack.saveAll] using h
    exact ⟨[], by simp [Stack.saveAll], .nil⟩
  | cons register registers ih =>
    obtain ⟨low, rest, rfl, hrest, rfl⟩ := saveAll_cons_eq_some_iff.mp h
    obtain ⟨lifted, hlifted, hcode⟩ := ih hrest
    refine ⟨Stack.copy line Stack.relay register :: Stack.store line ::
      Stack.setPointer line (low + room) :: lifted, ?_, ?_⟩
    · exact saveAll_cons_eq_some_iff.mpr ⟨low + room, lifted, by omega, hlifted, rfl⟩
    · exact .cons (.other (by simp [Stack.copy])) (.cons (.other (by simp [Stack.store]))
        (.cons .pointer hcode))

/-- A directive that a stack accepts is accepted on the raised stack, with the cursor as much
higher. -/
theorem Expansion.raise (h : Expansion stack line first directive tokens cursor code)
    (room : Nat) : ∃ lifted,
      Expansion (raise room stack) line first directive tokens (cursor + room) lifted ∧
      List.Forall₂ (Lifts room) code lifted := by
  have hraised : ∀ above, stack.cursor = some above →
      (Proofs.raise room stack).cursor = some (above + room) := by
    intro above habove
    rw [Proofs.raise, habove]
    rfl
  cases h with
  | start hfirst => exact ⟨_, .start hfirst, .cons .pointer .nil⟩
  | push hcursor hnonempty hcount hregisters hsave =>
    obtain ⟨lifted, hlifted, hcode⟩ := saveAll_raise room hsave
    exact ⟨lifted, .push (hraised _ hcursor) hnonempty hcount hregisters hlifted, hcode⟩
  | @pop above register _ hcursor hregister hnonempty =>
    have hexpansion : Expansion (Proofs.raise room stack) line first .pop _ (above + room + 1) _ :=
      .pop (hraised _ hcursor) hregister (Nat.add_lt_add_right hnonempty room)
    rw [Nat.add_right_comm] at hexpansion
    exact ⟨_, hexpansion, .cons .pointer (.cons (.other (by simp [Stack.load]))
      (.cons (.other (by simp [Stack.copy])) .nil))⟩
  | reset hcursor => exact ⟨_, .reset (hraised _ hcursor), .cons .pointer .nil⟩

end Raise

/-! ### The first pass -/

/-- The instruction sets `I` and comes from a stack directive. -/
def SetsPointer (target : Target) (lines : List String) (instruction : Instruction) : Prop :=
  instruction.mnemonic = .ldI ∧ FromDirective target lines instruction

/-- An instruction of the source and the one in its place on a target with more memory. -/
inductive Moves (target : Target) (lines : List String) (room : Nat) :
    Instruction → Instruction → Prop
  | directive {instruction moved : Instruction} (hfrom : FromDirective target lines instruction)
      (hlifts : Lifts room instruction moved) : Moves target lines room instruction moved
  | kept {instruction : Instruction} (hfrom : ¬FromDirective target lines instruction) :
      Moves target lines room instruction instruction

/-- The second draft has its stack raised, and its code points `I` as much higher. -/
structure Raised (target : Target) (lines : List String) (room : Nat) (draft raised : Draft) :
    Prop where
  table : raised.table = draft.table
  stack : raised.stack = raise room draft.stack
  code : List.Forall₂ (Moves target lines room) draft.code.toList raised.code.toList
  begun : raised.begun = draft.begun
  lastLabel : raised.lastLabel = draft.lastLabel

section FirstPass

variable {target place : Target} {lines : List String} {k room : Nat} {text : String}
  {draft raised next : Draft} {statement : Statement} {code : List Instruction}

lemma Raised.size_eq (h : Raised target lines room draft raised) :
    raised.code.size = draft.code.size := by
  have hlength := h.code.length_eq
  simp only [Array.length_toList] at hlength
  exact hlength.symm

lemma Raised.trailing?_eq (h : Raised target lines room draft raised) :
    raised.trailing? = draft.trailing? := by
  unfold Draft.trailing?
  rw [h.lastLabel, h.size_eq]

lemma not_fromDirective_of_read {instruction : Instruction} (htext : lines[k]? = some text)
    (hread : Statement.read (k + 1) text = .ok (.instruction instruction)) :
    ¬FromDirective target lines instruction := by
  rintro ⟨j, directive, tokens, above, code, hline, habove, hcode, hmem⟩
  obtain ⟨blocks, hblocks⟩ := scan_eq_ok_iff.mp habove
  obtain ⟨cursor, hexpansion⟩ := step_eq_ok_iff.mp hcode
  have hnumber := (hexpansion.stackInstruction hblocks.cursor_le instruction hmem).line_eq
  rw [line_of_read hread, Nat.add_right_cancel_iff] at hnumber
  subst hnumber
  exact not_stackLine_of_read htext hread (by simp) directive tokens hline

lemma Moves.of_step {directive : Directive} {tokens : List String} {cursor : Nat}
    {lifted : List Instruction} (hline : StackLine lines k directive tokens)
    (habove : scan target (lines.take k) = .ok draft)
    (hexpansion : Expansion draft.stack (k + 1) (!draft.begun) directive tokens cursor code)
    (hlifts : List.Forall₂ (Lifts room) code lifted) :
    List.Forall₂ (Moves target lines room) code lifted := by
  have hfrom : ∀ instruction ∈ code, FromDirective target lines instruction := by
    intro instruction hmem
    exact ⟨k, directive, tokens, draft, code, hline, habove,
      step_eq_ok_iff.mpr ⟨cursor, hexpansion⟩, hmem⟩
  refine List.Forall₂.imp ?_ ((List.forall₂_and_left code lifted).mpr ⟨hfrom, hlifts⟩)
  rintro instruction moved ⟨hmem, hlift⟩
  exact .directive hmem hlift

/-- A line that the first draft takes can be added to the raised draft as well. -/
theorem Raised.step (h : Raised target lines room draft raised) (htext : lines[k]? = some text)
    (habove : scan target (lines.take k) = .ok draft)
    (hread : Statement.read (k + 1) text = .ok statement)
    (hstep : Step (k + 1) draft statement code next) : ∃ lifted higher,
      Step (k + 1) raised statement lifted higher ∧ Raised target lines room next higher := by
  cases hstep with
  | blank => exact ⟨[], raised, .blank, h⟩
  | label hbind =>
    rw [← h.table, ← h.size_eq] at hbind
    refine ⟨[], _, .label hbind, rfl, h.stack, h.code, rfl, ?_⟩
    simp only [h.size_eq]
  | @stack directive tokens cursor code hcode =>
    have hexpansion := code_eq_ok_iff.mp hcode
    obtain ⟨lifted, hraised, hlifts⟩ := hexpansion.raise room
    rw [← h.stack, ← h.begun] at hraised
    have hmoves := Moves.of_step ⟨text, htext, hread⟩ habove hexpansion hlifts
    refine ⟨lifted, _, .stack (code_eq_ok_iff.mpr hraised), h.table, ?_, ?_, rfl, h.lastLabel⟩
    · simp [h.stack, Proofs.raise]
    · simpa using List.rel_append h.code hmoves
  | @instruction instruction =>
    have hkept : ¬FromDirective target lines instruction := not_fromDirective_of_read htext hread
    refine ⟨_, _, .instruction, h.table, h.stack, ?_, rfl, h.lastLabel⟩
    simpa using List.rel_append h.code (.cons (.kept hkept) .nil)

/-- The first pass accepts on the roomier target every source that it accepts on the other. -/
theorem exists_raised_scan (htarget : target.fault? = none) (hroom : Roomier target place)
    (hk : k ≤ lines.length) (h : scan target (lines.take k) = .ok draft) : ∃ raised,
      scan place (lines.take k) = .ok raised ∧
      Raised target lines (place.memorySize.toNat - target.memorySize.toNat) draft raised := by
  refine scan_take_induction (P := fun k draft => ∃ raised,
    scan place (lines.take k) = .ok raised ∧
    Raised target lines (place.memorySize.toNat - target.memorySize.toNat) draft raised) ?_ ?_ hk h
  · refine ⟨Draft.new place, rfl, rfl, ?_, .nil, rfl, rfl⟩
    obtain ⟨-, hbase⟩ := fault?_eq_none_iff.mp htarget
    have hmemory := hroom.memory
    simp only [Draft.new, Stack.ofMemorySize, raise, Option.map_none, Stack.mk.injEq, and_true]
    omega
  · rintro k text above statement code next htext habove hread hstep ⟨raised, hscan, hraised⟩
    obtain ⟨lifted, higher, hnext, hhigher⟩ := hraised.step htext habove hread hstep
    refine ⟨higher, ?_, hhigher⟩
    rw [scan_take_succ htext, hscan]
    exact addLine_eq_ok_iff.mpr ⟨statement, lifted, hread, hnext⟩

end FirstPass

/-! ### Words -/

/-- The word of an instruction on another target. The address of a label moves with the load base,
that of a pointer into the stack with the end of memory, and the leading nibble stays. -/
structure WordMoves (target place : Target) (lines : List String) (instruction : Instruction)
    (word moved : UInt16) : Prop where
  lead : moved.toNat / 0x1000 = word.toNat / 0x1000
  label : ∀ name, .label name ∈ instruction.operands → (moved.toNat : Int) =
    word.toNat + ((place.loadBase.toNat : Int) - target.loadBase.toNat)
  pointer : SetsPointer target lines instruction → (moved.toNat : Int) =
    word.toNat + ((place.memorySize.toNat : Int) - target.memorySize.toNat)
  kept : (∀ name, .label name ∉ instruction.operands) → ¬SetsPointer target lines instruction →
    moved = word

section Words

variable {target place : Target} {table : SymbolTable} {lines : List String}
  {instruction moved : Instruction} {word : UInt16}

lemma WordMoves.refl (hlabel : ∀ name, .label name ∉ instruction.operands)
    (hpointer : ¬SetsPointer target lines instruction) (word : UInt16) :
    WordMoves target place lines instruction word word :=
  ⟨rfl, fun name hname => absurd hname (hlabel name), fun h => absurd h hpointer, fun _ _ => rfl⟩

lemma FitsAll.retarget {slots : List Slot} {operands : List Operand} {numbers : List Nat}
    (h : FitsAll target table slots operands numbers) (hlabel : ∀ name, .label name ∉ operands)
    (place : Target) : FitsAll place table slots operands numbers := by
  induction h with
  | nil => exact .nil
  | cons hfits _ ih =>
    refine .cons ?_ (ih fun name hname => hlabel name (List.mem_cons_of_mem _ hname))
    cases hfits with
    | register hnumber => exact .register hnumber
    | literal hslot hvalue => exact .literal hslot hvalue
    | label => exact absurd List.mem_cons_self (hlabel _)

lemma word_retarget (hlabel : ∀ name, .label name ∉ instruction.operands)
    (hword : instruction.word target table = .ok word) (place : Target) :
    instruction.word place table = .ok word := by
  obtain ⟨numbers, hfits, hnumber⟩ := word_eq_ok_iff.mp hword
  exact word_eq_ok_iff.mpr ⟨numbers, hfits.retarget hlabel place, hnumber⟩

/-- A label has an address on the roomier target, as far below the other as the load base is. -/
lemma exists_address_roomier (hroom : Roomier target place)
    (hindex : ∀ binding ∈ table.bindings, binding.index < 2 ^ 30) {name : String} {address : Nat}
    (haddress : ∀ owner, table.address target owner name = .ok address) : ∃ lower,
      (∀ owner, table.address place owner name = .ok lower) ∧
      lower + target.loadBase.toNat = address + place.loadBase.toNat := by
  obtain ⟨binding, hfind, rfl, hmemory⟩ := address_eq_ok_iff.mp (haddress "")
  have hlt := hindex binding (SymbolTable.find?_eq_some_iff.mp hfind).1
  have hoffset : place.offset binding.index = target.offset binding.index := by
    unfold Target.offset
    rw [hroom.addressing]
  rw [toNat_labelAddress_of_lt hlt] at hmemory ⊢
  refine ⟨place.loadBase.toNat + target.offset binding.index, ?_, by omega⟩
  intro owner
  have hbase := hroom.base
  have hroomy := hroom.memory
  refine address_eq_ok_iff.mpr ⟨binding, hfind, ?_, by omega⟩
  rw [toNat_labelAddress_of_lt hlt, hoffset]

lemma exists_word_of_label (hroom : Roomier target place)
    (hindex : ∀ binding ∈ table.bindings, binding.index < 2 ^ 30)
    (hfrom : ¬FromDirective target lines instruction)
    (hword : instruction.word target table = .ok word) {name : String}
    (hname : .label name ∈ instruction.operands) : ∃ other,
      instruction.word place table = .ok other ∧
      WordMoves target place lines instruction word other := by
  obtain ⟨hslots, hoperands⟩ := operands_of_label hword hname
  obtain ⟨address, hfits, hnumber⟩ := exists_fits_of_word hslots hoperands hword
  cases hfits with
  | label haddress hwidth =>
    obtain ⟨lower, hlower, hmoved⟩ := exists_address_roomier hroom hindex haddress
    have hbase := hroom.base
    have hfits : Fits place table .address (.label name) lower :=
      .label hlower (lt_of_le_of_lt (by omega) hwidth)
    obtain ⟨other, hother, hvalue⟩ := exists_word_of_fits hslots hoperands hfits
    refine ⟨other, hother, by omega, fun _ _ => by omega, ?_, ?_⟩
    · rintro ⟨-, hpointer⟩
      exact absurd hpointer hfrom
    · intro hnone
      exact absurd hname (hnone name)

lemma exists_word_setPointer (target : Target) (table : SymbolTable) (line address : Nat)
    (h : address < 0x1000) : ∃ word, (Stack.setPointer line address).word target table = .ok word ∧
      word.toNat = 0xA000 + address := by
  have hslots : (Stack.setPointer line address).mnemonic.pattern.slots = [.address] := rfl
  have hoperands : (Stack.setPointer line address).operands = [.literal address] := rfl
  have hfits : Fits target table .address (.literal address) address := .literal (by decide) h
  obtain ⟨word, hword, hnumber⟩ := exists_word_of_fits hslots hoperands hfits
  change word.toNat = 0xA * 0x1000 + address at hnumber
  exact ⟨word, hword, by omega⟩

/-- The addresses of the stack stay in the reach of an address field. -/
lemma exists_word_of_pointer (htarget : target.fault? = none) (hplace : place.fault? = none)
    (hroom : Roomier target place) {line address : Nat}
    (hfrom : FromDirective target lines (Stack.setPointer line address))
    (hword : (Stack.setPointer line address).word target table = .ok word) : ∃ other,
      (Stack.setPointer line
        (address + (place.memorySize.toNat - target.memorySize.toNat))).word place table =
          .ok other ∧
      WordMoves target place lines (Stack.setPointer line address) word other := by
  obtain ⟨-, hbase⟩ := fault?_eq_none_iff.mp htarget
  obtain ⟨hreach, -⟩ := fault?_eq_none_iff.mp hplace
  have hmemory := hroom.memory
  obtain ⟨number, hstack⟩ := hfrom.stackInstruction
  obtain ⟨_, htop, hoperands⟩ := hstack.address_le rfl
  obtain ⟨rfl⟩ : address = _ := by simpa [Stack.setPointer] using hoperands
  obtain ⟨_, hsame, hnumber⟩ := exists_word_setPointer target table line address (by omega)
  obtain rfl := Except.ok.inj (hword.symm.trans hsame)
  obtain ⟨other, hother, hvalue⟩ := exists_word_setPointer place table line
    (address + (place.memorySize.toNat - target.memorySize.toNat)) (by omega)
  refine ⟨other, hother, by omega, by simp [Stack.setPointer], fun _ => by omega, ?_⟩
  intro _ hnone
  exact absurd ⟨rfl, hfrom⟩ hnone

/-- Every instruction with a word has one on the roomier target. -/
theorem Moves.exists_word (htarget : target.fault? = none) (hplace : place.fault? = none)
    (hroom : Roomier target place) (hindex : ∀ binding ∈ table.bindings, binding.index < 2 ^ 30)
    (h : Moves target lines (place.memorySize.toNat - target.memorySize.toNat) instruction moved)
    (hword : instruction.word target table = .ok word) : ∃ other,
      moved.word place table = .ok other ∧ WordMoves target place lines instruction word other := by
  cases h with
  | directive hfrom hlifts =>
    obtain ⟨line, hstack⟩ := hfrom.stackInstruction
    cases hlifts with
    | pointer => exact exists_word_of_pointer htarget hplace hroom hfrom hword
    | other hmnemonic =>
      exact ⟨word, word_retarget hstack.unlabelled hword place,
        .refl hstack.unlabelled (fun hpointer => hmnemonic hpointer.1) word⟩
  | kept hfrom =>
    by_cases hlabel : ∃ name, .label name ∈ instruction.operands
    · obtain ⟨name, hname⟩ := hlabel
      exact exists_word_of_label hroom hindex hfrom hword hname
    · rw [not_exists] at hlabel
      exact ⟨word, word_retarget hlabel hword place,
        .refl hlabel (fun hpointer => hfrom hpointer.2) word⟩

end Words

/-! ### The program -/

/-- An entry of a program and the entry in its place on another target. -/
structure Relocated (target place : Target) (lines : List String) (entry moved : Entry) : Prop where
  line : moved.line = entry.line
  labels : moved.labels = entry.labels
  word : WordMoves target place lines entry.instruction entry.word moved.word

section Program

variable {target place : Target} {table : SymbolTable} {lines : List String}
  {code moved : List Instruction} {program : Program}

lemma Moves.line_eq {room : Nat} {first second : Instruction}
    (h : Moves target lines room first second) : second.line = first.line := by
  cases h with
  | directive _ hlifts => cases hlifts <;> rfl
  | kept => rfl

theorem exists_relocated_link (htarget : target.fault? = none) (hplace : place.fault? = none)
    (hroom : Roomier target place) (hindex : ∀ binding ∈ table.bindings, binding.index < 2 ^ 30)
    (hcode : List.Forall₂ (Moves target lines
      (place.memorySize.toNat - target.memorySize.toNat)) code moved)
    (h : Program.link target.loadBase target table code = .ok program) : ∃ other,
      Program.link place.loadBase place table moved = .ok other ∧
      List.Forall₂ (Relocated target place lines) program.entries other.entries := by
  have hwords : ∀ first second word,
      Moves target lines (place.memorySize.toNat - target.memorySize.toNat) first second →
      first.word target table = .ok word → ∃ other, second.word place table = .ok other := by
    intro first second word hmoves hword
    obtain ⟨other, hother, -⟩ := hmoves.exists_word htarget hplace hroom hindex hword
    exact ⟨other, hother⟩
  obtain ⟨other, hother, hentries⟩ := exists_aligned_link hcode hwords h place.loadBase
  refine ⟨other, hother, hentries.imp ?_⟩
  rintro _ _ ⟨i, hmoves, hfirst, hsecond⟩
  obtain ⟨word, hword, hchange⟩ := hmoves.exists_word htarget hplace hroom hindex hfirst
  obtain rfl := Except.ok.inj (hsecond.symm.trans hword)
  exact ⟨hmoves.line_eq, rfl, hchange⟩

/-- A source that assembles for a target assembles for every accepted target with as low a load base
and as much memory: the addresses of labels and of the stack move along, and all else stays. -/
theorem assemble_roomier (hplace : place.fault? = none) (hroom : Roomier target place)
    (h : assemble target lines = .ok program) (hsize : program.size < 2 ^ 30) :
    ∃ other, assemble place lines = .ok other ∧
      List.Forall₂ (Relocated target place lines) program.entries other.entries := by
  obtain ⟨htarget, draft, hscan, htrailing, hlink⟩ := assemble_eq_ok_iff.mp h
  obtain ⟨blocks, hblocks⟩ := scan_eq_ok_iff.mp hscan
  have hindex : ∀ binding ∈ draft.table.bindings, binding.index < 2 ^ 30 := by
    intro binding hmem
    have hle := hblocks.index_le hmem
    have hcode := size_of_link hlink
    rw [Array.length_toList] at hcode
    omega
  rw [← List.take_length (l := lines)] at hscan
  obtain ⟨raised, hraised, hmoves⟩ := exists_raised_scan htarget hroom le_rfl hscan
  rw [List.take_length] at hraised
  obtain ⟨other, hother, hentries⟩ :=
    exists_relocated_link htarget hplace hroom hindex hmoves.code hlink
  refine ⟨other, assemble_eq_ok_iff.mpr ⟨hplace, raised, hraised, ?_, ?_⟩, hentries⟩
  · rw [hmoves.trailing?_eq, htrailing]
  · rw [hmoves.table]
    exact hother

end Program

/-- With twice the memory and the load base at zero, the jump lands `0x200` bytes lower, the stack
begins `0x800` bytes higher, and the literal stays. -/
theorem assemble_roomier_jump : ∃ program other,
    Target.fault? { loadBase := 0 } = none ∧
    Roomier { memorySize := 0x800 } { loadBase := 0 } ∧
    assemble { memorySize := 0x800 } ["STACK_INIT", "PUSH V1", "LABEL a", "LD_I 0x345", "JP a"] =
      .ok program ∧
    program.size < 2 ^ 30 ∧
    program.entries.map (·.word) = [0xA7FF, 0x8010, 0xF055, 0xA7FE, 0xA345, 0x1204] ∧
    assemble { loadBase := 0 } ["STACK_INIT", "PUSH V1", "LABEL a", "LD_I 0x345", "JP a"] =
      .ok other ∧
    List.Forall₂ (Relocated { memorySize := 0x800 } { loadBase := 0 }
      ["STACK_INIT", "PUSH V1", "LABEL a", "LD_I 0x345", "JP a"]) program.entries other.entries ∧
    other.entries.map (·.word) = [0xAFFF, 0x8010, 0xF055, 0xAFFE, 0xA345, 0x1004] := by
  have hwords : (assemble { memorySize := 0x800 }
      ["STACK_INIT", "PUSH V1", "LABEL a", "LD_I 0x345", "JP a"]).map
        (fun program => program.entries.map (·.word)) =
      .ok [0xA7FF, 0x8010, 0xF055, 0xA7FE, 0xA345, 0x1204] := by
    decide +kernel
  have hmoved : (assemble { loadBase := 0 }
      ["STACK_INIT", "PUSH V1", "LABEL a", "LD_I 0x345", "JP a"]).map
        (fun program => program.entries.map (·.word)) =
      .ok [0xAFFF, 0x8010, 0xF055, 0xAFFE, 0xA345, 0x1004] := by
    decide +kernel
  have hplace : Target.fault? { loadBase := 0 } = none := by decide
  have hroom : Roomier { memorySize := 0x800 } { loadBase := 0 } := ⟨rfl, by decide, by decide⟩
  obtain ⟨program, hprogram, hwords⟩ := map_eq_ok_iff.mp hwords
  have hsize : program.size < 2 ^ 30 := by
    have hlength := congrArg List.length hwords
    rw [List.length_map] at hlength
    rw [Program.size, hlength]
    decide
  obtain ⟨other, hother, hentries⟩ := assemble_roomier hplace hroom hprogram hsize
  rw [hother] at hmoved
  exact ⟨program, other, hplace, hroom, hprogram, hsize, hwords, hother, hentries,
    Except.ok.inj hmoved⟩

end Chip8.Proofs
