import Mathlib
import Chip8.Proofs.StackCode
import Chip8.Proofs.StackHistory

/-!
# Registers saved on the stack

A push sends its registers through `V0` one after another, so a `V0` in its list finds the value of
the register before it. The pops of the same registers in the opposite order bring every other
register back. Main statement: `push_saves_registers`.
-/

namespace Chip8.Proofs

/-! ### The values of a push -/

/-- The values saved for registers in order, each of which stays behind in `V0`. -/
def relayed (values : Fin 16 → UInt8) : List (Fin 16) → List UInt8
  | [] => []
  | register :: registers =>
    values register :: relayed (Function.update values v0 (values register)) registers

section Relayed

variable {values : Fin 16 → UInt8} {registers : List (Fin 16)} {j : Nat}

lemma length_relayed : (relayed values registers).length = registers.length := by
  induction registers generalizing values with
  | nil => rfl
  | cons register registers ih => rw [relayed, List.length_cons, List.length_cons, ih]

lemma values_foldl_save (ideal : ListMachine) (registers : List (Fin 16)) :
    (registers.foldl ListMachine.save ideal).values =
      ideal.values ++ relayed ideal.registers registers := by
  induction registers generalizing ideal with
  | nil => simp [relayed]
  | cons register registers ih =>
    rw [List.foldl_cons, ih, relayed]
    simp [ListMachine.save, ListMachine.push, ListMachine.setRegister]

/-- A register other than `V0` is saved with its own value, and so is `V0` as long as no other
register has gone through it. -/
lemma relayed_kept {register : Fin 16} (hregister : registers[j]? = some register)
    (hrelay : register ≠ v0 ∨ ∀ i < j, registers[i]? = some v0) :
    (relayed values registers)[j]? = some (values register) := by
  induction registers generalizing values j with
  | nil => simp at hregister
  | cons first registers ih =>
    cases j with
    | zero =>
      obtain rfl : first = register := by simpa using hregister
      rfl
    | succ j =>
      have hothers : register ≠ v0 ∨ ∀ i < j, registers[i]? = some v0 := by
        apply hrelay.imp_right
        intro hbefore i hi
        simpa using hbefore (i + 1) (by omega)
      rw [relayed, List.getElem?_cons_succ, ih (by simpa using hregister) hothers]
      by_cases hsame : register = v0
      · have hfirst := hrelay.resolve_left (not_not.mpr hsame) 0 (by omega)
        obtain rfl : first = v0 := by simpa using hfirst
        rw [Function.update_eq_self]
      · rw [Function.update_of_ne hsame]

/-- Behind another register, `V0` is saved with the value that the other one was saved with. -/
lemma relayed_again (h : registers[j + 1]? = some v0) :
    (relayed values registers)[j + 1]? = (relayed values registers)[j]? := by
  induction registers generalizing values j with
  | nil => simp at h
  | cons first registers ih =>
    rw [List.getElem?_cons_succ] at h
    cases j with
    | zero =>
      rw [relayed, List.getElem?_cons_succ, List.getElem?_cons_zero,
        relayed_kept h (Or.inr (by simp)), Function.update_self]
    | succ j =>
      rw [relayed, List.getElem?_cons_succ, List.getElem?_cons_succ]
      exact ih h

end Relayed

/-- The bytes from the cursor down hold what the registers held before, except that a `V0` behind
another register only repeats the byte above. -/
structure Saves (registers : List (Fin 16)) (cursor : Nat) (before after : Machine) : Prop where
  kept : ∀ j register, registers[j]? = some register →
    (register ≠ v0 ∨ ∀ i < j, registers[i]? = some v0) →
    after.memory (cursor - j) = before.registers register
  again : ∀ j, registers[j + 1]? = some v0 →
    after.memory (cursor - (j + 1)) = after.memory (cursor - j)

/-- The values on the stack, from the top of memory down to the cursor. -/
def valuesAbove (machine : Machine) (top cursor : Nat) : List UInt8 :=
  (List.range (top - cursor)).map fun j => machine.memory (top - j)

section Push

variable {target : Target} {table : SymbolTable} {stack : Stack}
  {machine before after changed : Machine} {cursor line final : Nat} {first : Bool}
  {tokens : List String} {code : List Instruction} {registers : List (Fin 16)}

lemma tracks_valuesAbove (hcursor : stack.cursor = some cursor) (hle : cursor ≤ stack.top) :
    Tracks stack machine ⟨machine.registers, valuesAbove machine stack.top cursor⟩ := by
  have hlength : (valuesAbove machine stack.top cursor).length = stack.top - cursor := by
    simp [valuesAbove]
  constructor
  · refine ⟨rfl, hlength.trans_le (Nat.sub_le _ _), ?_⟩
    intro j hj
    simp [valuesAbove]
  · rw [hlength, hcursor, Nat.sub_sub_self hle]

lemma Agrees.saves {top : Nat} {values : List UInt8} {ideal : ListMachine}
    (h : Agrees top after ideal)
    (hvalues : ideal.values = values ++ relayed before.registers registers)
    (hcursor : top - values.length = cursor) : Saves registers cursor before after := by
  have hbyte : ∀ j value, (relayed before.registers registers)[j]? = some value →
      after.memory (cursor - j) = value := by
    intro j value hvalue
    have hplace : ideal.values[values.length + j]? = some value := by
      rw [hvalues, List.getElem?_append_right (by omega), Nat.add_sub_cancel_left]
      exact hvalue
    obtain ⟨hj, rfl⟩ := List.getElem?_eq_some_iff.mp hplace
    rw [← h.values _ hj, ← hcursor, Nat.sub_sub]
  constructor
  · intro j register hregister hrelay
    exact hbyte j _ (relayed_kept hregister hrelay)
  · intro j hregister
    have hj : j + 1 < (relayed before.registers registers).length := by
      rw [length_relayed]
      exact (List.getElem?_eq_some_iff.mp hregister).1
    have hvalue := List.getElem?_eq_getElem hj
    rw [hbyte (j + 1) _ hvalue, hbyte j _ ((relayed_again hregister).symm.trans hvalue)]

lemma Tracks.of_memory_eq {ideal : ListMachine} (h : Tracks stack after ideal)
    (hmemory : changed.memory = after.memory) :
    Tracks stack changed ⟨changed.registers, ideal.values⟩ := by
  constructor
  · refine ⟨rfl, h.agrees.depth, ?_⟩
    rw [hmemory]
    exact h.agrees.values
  · exact h.cursor

lemma Expansion.exists_registers (h : Expansion stack line first .push tokens final code) :
    ∃ registers : List (Fin 16), NamesRegisters tokens (registers.map Fin.val) := by
  cases h with
  | @push _ _ _ numbers _ _ _ _ hnames =>
    lift numbers to List (Fin 16) using hnames.lt
    exact ⟨numbers, hnames⟩

theorem Expansion.saves (h : Expansion stack line first .push tokens final code)
    (htop : stack.top < 0x1000) (hcursor : stack.cursor = some cursor) (hle : cursor ≤ stack.top)
    (hpointer : before.pointer.toNat = cursor)
    (hregisters : NamesRegisters tokens (registers.map Fin.val)) : ∃ after ideal,
      Executes target table code before after ∧ Saves registers cursor before after ∧
      Tracks { stack with cursor := some final } after ideal ∧
      ideal.values = valuesAbove before stack.top cursor ++ relayed before.registers registers := by
  have htracks : Tracks stack before ⟨before.registers, valuesAbove before stack.top cursor⟩ :=
    tracks_valuesAbove hcursor hle
  have hlength : cursor = stack.top - (valuesAbove before stack.top cursor).length :=
    Option.some.inj (hcursor.symm.trans htracks.cursor)
  obtain ⟨after, hexecutes, hafter, -⟩ :=
    htracks.push htop (hpointer.trans hlength) hregisters h
  have hvalues := values_foldl_save
    ⟨before.registers, valuesAbove before stack.top cursor⟩ registers
  exact ⟨after, _, hexecutes, hafter.agrees.saves hvalues hlength.symm, hafter, hvalues⟩

end Push

/-! ### Pops of the same registers -/

/-- The call is a `POP` of the register. -/
def Call.Pops (call : Call) (register : Fin 16) : Prop :=
  call.directive = .pop ∧ NamesRegisters call.tokens [register.val]

/-- The code of the calls one after another, none of which may be refused. -/
def Call.codeOf (stack : Stack) : List Call → Except Cause (List Instruction)
  | [] => pure []
  | call :: calls => do
    let code ← (call.perform stack).2
    let others ← codeOf (call.perform stack).1 calls
    pure (code ++ others)

/-- The registers other than `V0` are back, and `V0` has the value of the first one. -/
structure Restores (registers : List (Fin 16)) (saved changed restored : Fin 16 → UInt8) :
    Prop where
  listed : ∀ register ∈ registers, register ≠ v0 → restored register = saved register
  relay : ∀ register, registers.head? = some register → restored v0 = saved register
  others : ∀ register ∉ registers, register ≠ v0 → restored register = changed register

section Pop

variable {target : Target} {table : SymbolTable} {stack : Stack} {state : Machine} {call : Call}
  {calls : List Call} {code : List Instruction} {register : Fin 16} {registers : List (Fin 16)}
  {saved changed middle : Fin 16 → UInt8} {values : List UInt8} {value : UInt8}

lemma Call.codeOf_concat {last : List Instruction} (h : codeOf stack calls = .ok code)
    (hcall : (call.perform (run stack calls)).2 = .ok last) :
    codeOf stack (calls ++ [call]) = .ok (code ++ last) := by
  induction calls generalizing stack code with
  | nil =>
    obtain rfl := Except.ok.inj h
    have hfirst : (call.perform stack).2 = .ok last := hcall
    rw [List.nil_append, codeOf, hfirst]
    simp [codeOf, bind, Except.bind, pure, Except.pure]
  | cons first calls ih =>
    obtain ⟨own, hown, others, hothers, hcode⟩ := by
      simpa only [codeOf, bind_eq_ok_iff] using h
    obtain rfl := Except.ok.inj hcode
    rw [List.cons_append, codeOf, hown, ih hothers hcall]
    simp [bind, Except.bind, pure, Except.pure]

/-- A pop is accepted as long as there is a value, which goes to the register through `V0`. -/
lemma Tracks.perform_pop (h : Tracks stack state ⟨changed, values ++ [value]⟩)
    (htop : stack.top < 0x1000) (hcall : call.Pops register) : ∃ code next,
      (call.perform stack).2 = .ok code ∧ Executes target table code state next ∧
      Tracks (call.perform stack).1 next
        ⟨Function.update (Function.update changed v0 value) register value, values⟩ := by
  obtain ⟨directive, tokens, line, first⟩ := call
  obtain ⟨rfl, hnames⟩ := hcall
  cases hnames with
  | @cons token _ _ _ hregister hnil =>
    cases hnil
    have hdepth := h.agrees.depth
    simp only [List.length_append, List.length_singleton] at hdepth
    have hexpansion : Expansion stack line first .pop [token] _ _ :=
      .pop h.cursor hregister (by simp; omega)
    obtain ⟨next, restored, hexecutes, hrestore, hnext, -⟩ := h.pop htop hregister hexpansion
    rw [ListMachine.restore_concat] at hrestore
    obtain rfl := Option.some.inj hrestore
    have hperform : Call.perform ⟨.pop, [token], line, first⟩ stack = _ :=
      Call.perform_of_expansion hexpansion
    rw [hperform]
    exact ⟨_, next, rfl, hexecutes, by simpa using hnext⟩

lemma Restores.cons
    (h : Restores registers (Function.update saved v0 (saved register)) changed middle) :
    Restores (register :: registers) saved changed
      (Function.update (Function.update middle v0 (saved register)) register (saved register)) := by
  constructor
  · intro other hmem hne
    by_cases hother : other = register
    · rw [hother, Function.update_self]
    · rw [Function.update_of_ne hother, Function.update_of_ne hne,
        h.listed other (List.mem_of_ne_of_mem hother hmem) hne, Function.update_of_ne hne]
  · intro first hfirst
    obtain rfl : register = first := by simpa using hfirst
    by_cases hrelay : v0 = register
    · rw [← hrelay, Function.update_self]
    · rw [Function.update_of_ne hrelay, Function.update_self]
  · intro other hmem hne
    rw [List.mem_cons, not_or] at hmem
    rw [Function.update_of_ne hmem.1, Function.update_of_ne hne, h.others other hmem.2 hne]

/-- The pops run from the last register to the first, so the induction on the registers takes off
the last pop first. -/
theorem Tracks.restores
    (h : Tracks stack state ⟨changed, values ++ relayed saved registers⟩)
    (htop : stack.top < 0x1000)
    (hcalls : List.Forall₂ (fun register (call : Call) => call.Pops register)
      registers.reverse calls) : ∃ code next,
      Call.codeOf stack calls = .ok code ∧ Executes target table code state next ∧
      Tracks (Call.run stack calls) next ⟨next.registers, values⟩ ∧
      Restores registers saved changed next.registers := by
  induction registers generalizing saved values calls with
  | nil =>
    cases hcalls
    obtain rfl : state.registers = changed := h.agrees.registers
    rw [relayed, List.append_nil] at h
    exact ⟨[], state, rfl, .nil, h, ⟨by simp, by simp, fun _ _ _ => rfl⟩⟩
  | cons register registers ih =>
    rw [List.reverse_cons] at hcalls
    obtain ⟨earlier, last, rfl, hearlier, hlast⟩ := exists_concat_of_forall₂ hcalls
    rw [relayed, List.append_cons] at h
    obtain ⟨code, middle, hcode, hexecutes, htracks, hrestores⟩ := ih h hearlier
    have hmiddle : (Call.run stack earlier).top < 0x1000 := by rwa [Call.run_top]
    obtain ⟨lastCode, next, hlastCode, hrest, hnext⟩ := htracks.perform_pop hmiddle hlast
    have hregisters := hnext.agrees.registers
    refine ⟨code ++ lastCode, next, Call.codeOf_concat hcode hlastCode, hexecutes.append hrest,
      ?_, ?_⟩
    · rw [Call.run_append, hregisters]
      exact hnext
    · rw [hregisters]
      exact hrestores.cons

end Pop

/-! ### A push and the pops of its registers -/

/-- After any calls on the stack of a memory, a push saves its registers from the cursor down. The
pops of the same registers are then accepted, and bring them back on every machine that has the
memory that the push left, whatever its registers hold by then. -/
theorem push_saves_registers {memorySize : UInt16} {calls : List Call} {push : Call}
    {cursor : Nat} {code : List Instruction} (hmax : memorySize.toNat ≤ 0x1000)
    (hpush : push.directive = .push)
    (hcursor : (Call.run (.ofMemorySize memorySize) calls).cursor = some cursor)
    (hcode : (push.perform (Call.run (.ofMemorySize memorySize) calls)).2 = .ok code)
    (target : Target) (table : SymbolTable) (before : Machine)
    (hpointer : before.pointer.toNat = cursor) :
    let pushed := (push.perform (Call.run (.ofMemorySize memorySize) calls)).1
    ∃ registers after, NamesRegisters push.tokens (registers.map Fin.val) ∧
      Executes target table code before after ∧ Saves registers cursor before after ∧
      ∀ changed : Machine, changed.memory = after.memory → ∀ pops : List Call,
        List.Forall₂ (fun register call => call.Pops register) registers.reverse pops →
        ∃ popCode restored, Call.codeOf pushed pops = .ok popCode ∧
          Executes target table popCode changed restored ∧
          Restores registers before.registers changed.registers restored.registers := by
  intro pushed
  obtain ⟨directive, tokens, line, first⟩ := push
  obtain rfl : directive = .push := hpush
  obtain ⟨final, hexpansion, hpushed⟩ := Call.exists_expansion hcode
  have htop : (Call.run (.ofMemorySize memorySize) calls).top < 0x1000 := by
    have hsize : (Call.run (.ofMemorySize memorySize) calls).top = memorySize.toNat - 1 :=
      Call.run_top _ calls
    omega
  have hle : cursor ≤ (Call.run (.ofMemorySize memorySize) calls).top :=
    (counted_run rfl calls).bound cursor hcursor
  obtain ⟨registers, hregisters⟩ := hexpansion.exists_registers
  obtain ⟨after, ideal, hexecutes, hsaves, htracks, hvalues⟩ :=
    hexpansion.saves htop hcursor hle hpointer hregisters
  refine ⟨registers, after, hregisters, hexecutes, hsaves, ?_⟩
  intro changed hmemory pops hpops
  have hchanged := htracks.of_memory_eq hmemory
  rw [hvalues, ← hpushed] at hchanged
  have hbound : pushed.top < 0x1000 := by
    rw [show pushed.top = _ from congrArg Stack.top hpushed]
    exact htop
  obtain ⟨popCode, restored, hpopCode, hrestored, -, hrestores⟩ := hchanged.restores hbound hpops
  exact ⟨popCode, restored, hpopCode, hrestored, hrestores⟩

/-- A push of three registers with `V0` in the middle, and the pops that bring them back. -/
theorem push_saves_registers_relay :
    let stack := Call.run (.ofMemorySize 0x1000) [⟨.stackInit, [], 1, true⟩]
    let push : Call := ⟨.push, ["V1", "v0", "V2"], 2, false⟩
    let before : Machine := ⟨fun register => UInt8.ofNat register.val, 0xFFF, fun _ => 0⟩
    ∃ code, (push.perform stack).2 = .ok code ∧ ∃ after, Executes {} {} code before after ∧
      Saves [1, 0, 2] 0xFFF before after ∧ ∃ popCode restored,
        Call.codeOf (push.perform stack).1
          [⟨.pop, ["V2"], 3, false⟩, ⟨.pop, ["V0"], 4, false⟩, ⟨.pop, ["v1"], 5, false⟩] =
            .ok popCode ∧
        Executes {} {} popCode after restored ∧
        Restores [1, 0, 2] before.registers after.registers restored.registers := by
  intro stack push before
  have hcursor : stack.cursor = some 0xFFF := by decide +kernel
  have hlength : (push.perform stack).2.map List.length = .ok 9 := by decide +kernel
  obtain ⟨code, hcode, -⟩ := map_eq_ok_iff.mp hlength
  obtain ⟨registers, after, hnames, hexecutes, hsaves, hpops⟩ :=
    push_saves_registers (by decide) rfl hcursor hcode {} {} before rfl
  have hregisters : registers.map Fin.val = [1, 0, 2] :=
    hnames.eq (.cons (by rfl) (.cons (by rfl) (.cons (by rfl) .nil)))
  obtain rfl : registers = [1, 0, 2] := List.map_injective_iff.mpr Fin.val_injective hregisters
  refine ⟨code, hcode, after, hexecutes, hsaves, ?_⟩
  apply hpops after rfl
  exact .cons ⟨rfl, .cons (by rfl) .nil⟩ (.cons ⟨rfl, .cons (by rfl) .nil⟩
    (.cons ⟨rfl, .cons (by rfl) .nil⟩ .nil))

/-- A `V0` pushed behind `V1` is saved with the value of `V1`, which its pop brings back. -/
theorem push_relay_not_saved :
    let stack := Call.run (.ofMemorySize 0x1000) [⟨.stackInit, [], 1, true⟩]
    let push : Call := ⟨.push, ["V1", "V0"], 2, false⟩
    let before : Machine := ⟨fun register => UInt8.ofNat register.val, 0xFFF, fun _ => 0⟩
    stack.cursor = some 0xFFF ∧ ∃ code after popCode restored, (push.perform stack).2 = .ok code ∧
      Executes {} {} code before after ∧
      Call.codeOf (push.perform stack).1 [⟨.pop, ["V0"], 3, false⟩, ⟨.pop, ["V1"], 4, false⟩] =
        .ok popCode ∧
      Executes {} {} popCode after restored ∧
      after.memory 0xFFE ≠ before.registers 0 ∧ restored.registers 0 ≠ before.registers 0 := by
  intro stack push before
  let code := [Stack.copy 2 0 1, Stack.store 2, Stack.setPointer 2 0xFFE, Stack.copy 2 0 0,
    Stack.store 2, Stack.setPointer 2 0xFFD]
  let words : List UInt16 := [0x8010, 0xF055, 0xAFFE, 0x8000, 0xF055, 0xAFFD]
  let popCode := [Stack.setPointer 3 0xFFE, Stack.load 3, Stack.copy 3 0 0,
    Stack.setPointer 4 0xFFF, Stack.load 4, Stack.copy 4 1 0]
  let popWords : List UInt16 := [0xAFFE, 0xF065, 0x8000, 0xAFFF, 0xF065, 0x8100]
  have hruns : ((before.run words).bind fun after => (after.run popWords).map fun restored =>
      (after.memory 0xFFE, restored.registers 0)) = some (1, 1) := by
    decide +kernel
  obtain ⟨after, hafter, hpops⟩ := Option.bind_eq_some_iff.mp hruns
  obtain ⟨restored, hrestored, hvalues⟩ := Option.map_eq_some_iff.mp hpops
  obtain ⟨hsaved, hback⟩ := Prod.mk.inj hvalues
  refine ⟨by decide +kernel, code, after, popCode, restored, by rfl, ⟨words, by rfl, hafter⟩,
    by rfl, ⟨popWords, by rfl, hrestored⟩, ?_, ?_⟩
  · rw [hsaved]
    decide
  · rw [hback]
    decide

end Chip8.Proofs
