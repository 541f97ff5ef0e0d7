import Mathlib
import Chip8.Proofs.Directives
import Chip8.Proofs.Reading

/-!
# Code of stack directives

`Expansion` says which code a directive stands for and where it leaves the cursor;
`code_eq_ok_iff` says that the assembler agrees. `DirectiveCause` lists the causes for which it
refuses a directive.
-/

namespace Chip8.Proofs

/-- The words name the registers, in order. -/
def NamesRegisters (tokens : List String) (registers : List Nat) : Prop :=
  List.Forall₂ (fun token register => Token.registerNumber? token.toList = some register)
    tokens registers

/-- A directive with its words is accepted: the cursor behind it and its code. -/
inductive Expansion (stack : Stack) (line : Nat) (first : Bool) :
    Directive → List String → Nat → List Instruction → Prop
  | start (hfirst : first = true) :
      Expansion stack line first .stackInit [] stack.top [Stack.setPointer line stack.top]
  | push {cursor final : Nat} {tokens : List String} {registers : List Nat}
      {code : List Instruction} (hcursor : stack.cursor = some cursor) (hnonempty : tokens ≠ [])
      (hcount : tokens.length ≤ Stack.maxPushed) (hregisters : NamesRegisters tokens registers)
      (hsave : Stack.saveAll line cursor registers = some (final, code)) :
      Expansion stack line first .push tokens final code
  | pop {cursor register : Nat} {token : String} (hcursor : stack.cursor = some cursor)
      (hregister : Token.registerNumber? token.toList = some register)
      (hnonempty : cursor < stack.top) :
      Expansion stack line first .pop [token] (cursor + 1)
        [Stack.setPointer line (cursor + 1), Stack.load line, Stack.copy line register Stack.relay]
  | reset {cursor : Nat} (hcursor : stack.cursor = some cursor) :
      Expansion stack line first .resetSp [] cursor [Stack.setPointer line cursor]

section Inversion

variable {stack : Stack} {line : Nat} {first : Bool} {directive : Directive} {tokens : List String}
  {cursor : Nat} {code : List Instruction}

lemma registers_eq_mapM (directive : Directive) (tokens : List String) :
    Stack.registers directive tokens =
      tokens.mapM fun token => (Token.register token).mapError (.operand directive.name) := by
  induction tokens with
  | nil => rfl
  | cons token tokens ih => rw [List.mapM_cons, Stack.registers, ih]

lemma registers_eq_ok_iff {registers : List Nat} :
    Stack.registers directive tokens = .ok registers ↔ NamesRegisters tokens registers := by
  rw [registers_eq_mapM, mapM_eq_ok_iff]
  simp only [mapError_eq_ok_iff, Token.register_eq_ok_iff, NamesRegisters]

lemma startCode_eq_ok_iff : stack.startCode tokens line first = .ok (cursor, code) ↔
    Expansion stack line first .stackInit tokens cursor code := by
  simp only [Stack.startCode, bind_eq_ok_iff, requireCount, pure, Except.pure, Except.ok.injEq,
    Prod.mk.injEq]
  constructor
  · rintro ⟨⟨⟩, hfirst, ⟨⟩, hcount, rfl, rfl⟩
    obtain rfl := List.eq_nil_of_length_eq_zero (require_eq_ok_iff.mp hcount)
    exact .start (require_eq_ok_iff.mp hfirst)
  · intro h
    cases h with
    | start hfirst =>
      exact ⟨(), require_eq_ok_iff.mpr hfirst, (), require_eq_ok_iff.mpr rfl, rfl, rfl⟩

lemma pushCode_eq_ok_iff : stack.pushCode tokens line = .ok (cursor, code) ↔
    Expansion stack line first .push tokens cursor code := by
  simp only [Stack.pushCode, bind_eq_ok_iff, Stack.ready_eq_ok_iff, registers_eq_ok_iff]
  constructor
  · rintro ⟨start, hcursor, ⟨⟩, hnonempty, ⟨⟩, hcount, registers, hregisters, hsave⟩
    split at hsave
    · next result hresult =>
      obtain rfl := Except.ok.inj hsave
      exact .push hcursor (require_eq_ok_iff.mp hnonempty) (require_eq_ok_iff.mp hcount)
        hregisters hresult
    · simp [throw, throwThe, MonadExceptOf.throw] at hsave
  · intro h
    cases h with
    | push hcursor hnonempty hcount hregisters hsave =>
      refine ⟨_, hcursor, (), require_eq_ok_iff.mpr hnonempty, (), require_eq_ok_iff.mpr hcount, _,
        hregisters, ?_⟩
      rw [hsave]
      rfl

lemma popCode_eq_ok_iff : stack.popCode tokens line = .ok (cursor, code) ↔
    Expansion stack line first .pop tokens cursor code := by
  simp only [Stack.popCode, bind_eq_ok_iff, Stack.ready_eq_ok_iff, registers_eq_ok_iff,
    requireCount, pure, Except.pure, Except.ok.injEq, Prod.mk.injEq]
  constructor
  · rintro ⟨start, hcursor, ⟨⟩, hcount, registers, hregisters, ⟨⟩, hnonempty, rfl, rfl⟩
    obtain ⟨token, rfl⟩ := List.length_eq_one_iff.mp (require_eq_ok_iff.mp hcount)
    cases hregisters with
    | cons hregister hrest =>
      cases hrest
      exact .pop hcursor hregister (require_eq_ok_iff.mp hnonempty)
  · intro h
    cases h with
    | pop hcursor hregister hnonempty =>
      exact ⟨_, hcursor, (), require_eq_ok_iff.mpr rfl, _, .cons hregister .nil, (),
        require_eq_ok_iff.mpr hnonempty, rfl, rfl⟩

lemma resetCode_eq_ok_iff : stack.resetCode tokens line = .ok (cursor, code) ↔
    Expansion stack line first .resetSp tokens cursor code := by
  simp only [Stack.resetCode, bind_eq_ok_iff, Stack.ready_eq_ok_iff, requireCount, pure,
    Except.pure, Except.ok.injEq, Prod.mk.injEq]
  constructor
  · rintro ⟨start, hcursor, ⟨⟩, hcount, rfl, rfl⟩
    obtain rfl := List.eq_nil_of_length_eq_zero (require_eq_ok_iff.mp hcount)
    exact .reset hcursor
  · intro h
    cases h with
    | reset hcursor => exact ⟨_, hcursor, (), require_eq_ok_iff.mpr rfl, rfl, rfl⟩

theorem code_eq_ok_iff : stack.code directive tokens line first = .ok (cursor, code) ↔
    Expansion stack line first directive tokens cursor code := by
  cases directive with
  | stackInit => exact startCode_eq_ok_iff
  | push => exact pushCode_eq_ok_iff
  | pop => exact popCode_eq_ok_iff
  | resetSp => exact resetCode_eq_ok_iff

lemma step_eq_ok_iff : (stack.step directive tokens line first).2 = .ok code ↔
    ∃ cursor, Expansion stack line first directive tokens cursor code := by
  simp only [← code_eq_ok_iff]
  rw [Stack.step_eq]
  cases stack.code directive tokens line first <;> simp [Stack.settle, Prod.ext_iff]

lemma step_eq_error_iff {cause : Cause} :
    (stack.step directive tokens line first).2 = .error cause ↔
      stack.code directive tokens line first = .error cause := by
  rw [Stack.step_eq]
  cases stack.code directive tokens line first <;> simp [Stack.settle]

end Inversion

/-! ### Directives that are refused -/

/-- The causes for which a directive is refused. -/
inductive DirectiveCause (directive : Directive) : Cause → Prop
  | notFirst : DirectiveCause directive (.notFirst directive)
  | notReady : DirectiveCause directive (.stackNotReady directive)
  | arity {expected found : Nat} : DirectiveCause directive (.arity directive.name expected found)
  | tooMany {count : Nat} : DirectiveCause directive (.tooManyRegisters directive count)
  | badRegister {token : String} :
      DirectiveCause directive (.operand directive.name (.badRegister token))
  | address {address : Nat} {fault : AddressFault} :
      DirectiveCause directive (.addressOutOfRange directive.name address fault)

section Refusals

variable {stack : Stack} {line : Nat} {first : Bool} {directive : Directive} {tokens : List String}
  {cause : Cause}

lemma directiveCause_of_ready (h : stack.ready directive = .error cause) :
    DirectiveCause directive cause := by
  unfold Stack.ready at h
  split at h
  · simp at h
  · obtain rfl := Except.error.inj h
    exact .notReady

lemma directiveCause_of_require {condition : Prop} [Decidable condition] {refusal : Cause}
    (h : require condition refusal = .error cause) (hrefusal : DirectiveCause directive refusal) :
    DirectiveCause directive cause := by
  obtain ⟨-, rfl⟩ := require_eq_error_iff.mp h
  exact hrefusal

lemma directiveCause_of_registers (h : Stack.registers directive tokens = .error cause) :
    DirectiveCause directive cause := by
  rw [registers_eq_mapM] at h
  obtain ⟨-, token, -, -, -, htoken⟩ := mapM_eq_error_iff.mp h
  obtain ⟨fault, hfault, rfl⟩ := mapError_eq_error_iff.mp htoken
  unfold Token.register at hfault
  split at hfault
  · simp at hfault
  · obtain rfl := Except.error.inj hfault
    exact .badRegister

theorem directiveCause_of_code (h : stack.code directive tokens line first = .error cause) :
    DirectiveCause directive cause := by
  cases directive with
  | stackInit =>
    rcases bind_eq_error_iff.mp h with h | ⟨-, -, h⟩
    · exact directiveCause_of_require h .notFirst
    rcases bind_eq_error_iff.mp h with h | ⟨-, -, h⟩
    · exact directiveCause_of_require h .arity
    · simp [pure, Except.pure] at h
  | push =>
    rcases bind_eq_error_iff.mp h with h | ⟨cursor, -, h⟩
    · exact directiveCause_of_ready h
    rcases bind_eq_error_iff.mp h with h | ⟨-, -, h⟩
    · exact directiveCause_of_require h .arity
    rcases bind_eq_error_iff.mp h with h | ⟨-, -, h⟩
    · exact directiveCause_of_require h .tooMany
    rcases bind_eq_error_iff.mp h with h | ⟨saved, -, h⟩
    · exact directiveCause_of_registers h
    split at h
    · simp [pure, Except.pure] at h
    · obtain rfl := Except.error.inj h
      exact .address
  | pop =>
    rcases bind_eq_error_iff.mp h with h | ⟨cursor, -, h⟩
    · exact directiveCause_of_ready h
    rcases bind_eq_error_iff.mp h with h | ⟨-, -, h⟩
    · exact directiveCause_of_require h .arity
    rcases bind_eq_error_iff.mp h with h | ⟨restored, -, h⟩
    · exact directiveCause_of_registers h
    rcases bind_eq_error_iff.mp h with h | ⟨-, -, h⟩
    · exact directiveCause_of_require h .address
    · simp [pure, Except.pure] at h
  | resetSp =>
    rcases bind_eq_error_iff.mp h with h | ⟨cursor, -, h⟩
    · exact directiveCause_of_ready h
    rcases bind_eq_error_iff.mp h with h | ⟨-, -, h⟩
    · exact directiveCause_of_require h .arity
    · simp [pure, Except.pure] at h

end Refusals

/-! ### What the code consists of -/

/-- The instructions that directives stand for, on a stack with the given top. -/
inductive StackInstruction (line top : Nat) : Instruction → Prop
  | setPointer {address : Nat} (haddress : address ≤ top) :
      StackInstruction line top (Stack.setPointer line address)
  | copy {destination source : Nat} (hdestination : destination < 16) (hsource : source < 16) :
      StackInstruction line top (Stack.copy line destination source)
  | store : StackInstruction line top (Stack.store line)
  | load : StackInstruction line top (Stack.load line)

lemma StackInstruction.line_eq {line top : Nat} {instruction : Instruction}
    (h : StackInstruction line top instruction) : instruction.line = line := by
  cases h <;> rfl

lemma StackInstruction.canonical {line top : Nat} {instruction : Instruction}
    (h : StackInstruction line top instruction) (htop : top < UInt64.size) :
    Canonical instruction := by
  cases h with
  | setPointer haddress =>
    exact ⟨rfl, by simpa [Stack.setPointer] using .literal (by omega)⟩
  | copy hdestination hsource =>
    exact ⟨rfl, by simpa [Stack.copy] using ⟨.register hdestination, .register hsource⟩⟩
  | store => exact ⟨rfl, by simpa [Stack.store] using .register (by decide)⟩
  | load => exact ⟨rfl, by simpa [Stack.load] using .register (by decide)⟩

lemma StackInstruction.address_le {line top : Nat} {instruction : Instruction}
    (h : StackInstruction line top instruction) (hpointer : instruction.mnemonic = .ldI) :
    ∃ address ≤ top, instruction.operands = [.literal address] := by
  cases h with
  | @setPointer address haddress => exact ⟨address, haddress, rfl⟩
  | copy => simp [Stack.copy] at hpointer
  | store => simp [Stack.store] at hpointer
  | load => simp [Stack.load] at hpointer

lemma StackInstruction.unlabelled {line top : Nat} {instruction : Instruction}
    (h : StackInstruction line top instruction) (name : String) :
    .label name ∉ instruction.operands := by
  cases h <;> simp [Stack.setPointer, Stack.copy, Stack.store, Stack.load]

lemma NamesRegisters.lt {tokens : List String} {registers : List Nat}
    (h : NamesRegisters tokens registers) : ∀ register ∈ registers, register < 16 := by
  induction h with
  | nil => simp
  | cons hregister _ ih =>
    intro register hmem
    rcases List.mem_cons.mp hmem with rfl | hmem
    · exact Token.lt_of_registerNumber? hregister
    · exact ih register hmem

lemma NamesRegisters.eq {tokens : List String} {registers others : List Nat}
    (h : NamesRegisters tokens registers) (hothers : NamesRegisters tokens others) :
    registers = others := by
  induction h generalizing others with
  | nil =>
    cases hothers
    rfl
  | cons hregister _ ih =>
    cases hothers with
    | cons hother hrest =>
      rw [Option.some.inj (hregister.symm.trans hother), ih hrest]

lemma saveAll_cons_eq_some_iff {line cursor final register : Nat} {registers : List Nat}
    {code : List Instruction} :
    Stack.saveAll line cursor (register :: registers) = some (final, code) ↔
      ∃ low rest, cursor = low + 1 ∧ Stack.saveAll line low registers = some (final, rest) ∧
        code = Stack.copy line Stack.relay register :: Stack.store line ::
          Stack.setPointer line low :: rest := by
  cases cursor with
  | zero => simp [Stack.saveAll]
  | succ low => simp [Stack.saveAll, eq_comm]

lemma stackInstruction_of_saveAll {line top cursor final : Nat} {registers : List Nat}
    {code : List Instruction} (h : Stack.saveAll line cursor registers = some (final, code))
    (hregisters : ∀ register ∈ registers, register < 16) (hcursor : cursor ≤ top) :
    ∀ instruction ∈ code, StackInstruction line top instruction := by
  induction registers generalizing cursor code with
  | nil => simp_all [Stack.saveAll]
  | cons register registers ih =>
    obtain ⟨low, rest, rfl, hrest, rfl⟩ := saveAll_cons_eq_some_iff.mp h
    intro instruction hmem
    simp only [List.mem_cons] at hmem
    rcases hmem with rfl | rfl | rfl | hmem
    · exact .copy (by decide) (hregisters register (by simp))
    · exact .store
    · exact .setPointer (by omega)
    · exact ih hrest (fun other hother => hregisters other (by simp [hother])) (by omega)
        instruction hmem

section Code

variable {stack : Stack} {line : Nat} {first : Bool} {directive : Directive} {tokens : List String}
  {cursor : Nat} {code : List Instruction}

theorem Expansion.stackInstruction (h : Expansion stack line first directive tokens cursor code)
    (hcursor : ∀ above, stack.cursor = some above → above ≤ stack.top) :
    ∀ instruction ∈ code, StackInstruction line stack.top instruction := by
  cases h with
  | start =>
    simp only [List.mem_singleton, forall_eq]
    exact .setPointer le_rfl
  | push hsome _ _ hregisters hsave =>
    exact stackInstruction_of_saveAll hsave hregisters.lt (hcursor _ hsome)
  | pop _ hregister hnonempty =>
    simp only [List.mem_cons, List.not_mem_nil, or_false, forall_eq_or_imp, forall_eq]
    exact ⟨.setPointer hnonempty, .load, .copy (Token.lt_of_registerNumber? hregister) (by decide)⟩
  | reset hsome =>
    simp only [List.mem_singleton, forall_eq]
    exact .setPointer (hcursor _ hsome)

theorem Expansion.cursor_le (h : Expansion stack line first directive tokens cursor code)
    (hcursor : ∀ above, stack.cursor = some above → above ≤ stack.top) : cursor ≤ stack.top := by
  cases h with
  | start => exact le_rfl
  | push hsome _ _ _ hsave =>
    have hfinal := Stack.cursor_of_saveAll hsave
    have habove := hcursor _ hsome
    omega
  | pop _ _ hnonempty => exact hnonempty
  | reset hsome => exact hcursor _ hsome

end Code

end Chip8.Proofs
