import Mathlib
import Chip8.Proofs.FirstFailure
import Chip8.Proofs.Machine

/-!
# Code that keeps a stack

The words of a program that starts with `STACK_INIT` do what a machine with a list of values in
place of the memory does. Main statement: `stack_code_simulates`.
-/

namespace Chip8.Proofs

/-! ### Programs without jumps -/

/-- What a line of the program asks for. -/
inductive Operation where
  | start
  | push (registers : List (Fin 16))
  | pop (register : Fin 16)
  | reset
  | loadByte (register : Fin 16) (value : UInt8)
  | addByte (register : Fin 16) (value : UInt8)
  | copy (destination source : Fin 16)
  | sprite (register : Fin 16)
  | point (address : Fin 0x1000)

namespace Operation

def isDirective : Operation → Bool
  | start | push _ | pop _ | reset => true
  | _ => false

/-- The operation moves the pointer away from the stack. -/
def movesPointer : Operation → Bool
  | sprite _ | point _ => true
  | _ => false

/-- The operation takes the pointer back to the stack. -/
def restoresPointer : Operation → Bool
  | pop _ | reset => true
  | _ => false

end Operation

/-- The statement asks for the operation, and every operand is in range. -/
inductive Performs : Statement → Operation → Prop
  | start {tokens : List String} : Performs (.stack .stackInit tokens) .start
  | push {tokens : List String} {registers : List (Fin 16)}
      (hregisters : NamesRegisters tokens (registers.map Fin.val)) :
      Performs (.stack .push tokens) (.push registers)
  | pop {token : String} {register : Fin 16}
      (hregister : Token.registerNumber? token.toList = some register.val) :
      Performs (.stack .pop [token]) (.pop register)
  | reset {tokens : List String} : Performs (.stack .resetSp tokens) .reset
  | loadByte {register : Fin 16} {value : UInt8} {line : Nat} :
      Performs (.instruction ⟨.ldByte, [.register register.val, .literal value.toNat], line⟩)
        (.loadByte register value)
  | addByte {register : Fin 16} {value : UInt8} {line : Nat} :
      Performs (.instruction ⟨.addByte, [.register register.val, .literal value.toNat], line⟩)
        (.addByte register value)
  | copy {destination source : Fin 16} {line : Nat} :
      Performs (.instruction ⟨.ldReg, [.register destination.val, .register source.val], line⟩)
        (.copy destination source)
  | sprite {register : Fin 16} {line : Nat} :
      Performs (.instruction ⟨.ldF, [.register register.val], line⟩) (.sprite register)
  | point {address : Fin 0x1000} {line : Nat} :
      Performs (.instruction ⟨.ldI, [.literal address.val], line⟩) (.point address)

/-- The text asks for the operation on any line. -/
def Writes (text : String) (operation : Operation) : Prop :=
  ∀ line, ∃ statement, Statement.read line text = .ok statement ∧ Performs statement operation

/-- Between an operation that moves the pointer away and a later push, one takes it back. -/
def PointerRestored (operations : List Operation) : Prop :=
  ∀ before mover between registers after,
    operations = before ++ mover :: between ++ .push registers :: after →
    mover.movesPointer = true → ∃ operation ∈ between, operation.restoresPointer = true

/-! ### A machine with a list -/

/-- Sixteen registers, and the live values from the oldest to the newest. -/
structure ListMachine where
  registers : Fin 16 → UInt8
  values : List UInt8

namespace ListMachine

def setRegister (machine : ListMachine) (register : Fin 16) (value : UInt8) : ListMachine :=
  { machine with registers := Function.update machine.registers register value }

def push (machine : ListMachine) (value : UInt8) : ListMachine :=
  { machine with values := machine.values ++ [value] }

def pop (machine : ListMachine) : Option (UInt8 × ListMachine) :=
  machine.values.getLast?.map fun value =>
    (value, { machine with values := machine.values.dropLast })

/-- Takes a register through `V0` to the list. -/
def save (machine : ListMachine) (register : Fin 16) : ListMachine :=
  let relayed := machine.setRegister v0 (machine.registers register)
  relayed.push (relayed.registers v0)

lemma length_save (machine : ListMachine) (register : Fin 16) :
    (machine.save register).values.length = machine.values.length + 1 := by
  simp [save, push, setRegister]

/-- Takes the newest value through `V0` to a register. -/
def restore (machine : ListMachine) (register : Fin 16) : Option ListMachine :=
  machine.pop.map fun (value, popped) =>
    let relayed := popped.setRegister v0 value
    relayed.setRegister register (relayed.registers v0)

lemma restore_concat (registers : Fin 16 → UInt8) (values : List UInt8) (value : UInt8)
    (register : Fin 16) : (mk registers (values ++ [value])).restore register =
      some ⟨Function.update (Function.update registers v0 value) register value, values⟩ := by
  simp [restore, pop, setRegister]

def step (machine : ListMachine) : Operation → Option ListMachine
  | .start => some { machine with values := [] }
  | .push registers => some (registers.foldl save machine)
  | .pop register => machine.restore register
  | .reset => some machine
  | .loadByte register value => some (machine.setRegister register value)
  | .addByte register value =>
    some (machine.setRegister register (machine.registers register + value))
  | .copy destination source => some (machine.setRegister destination (machine.registers source))
  | .sprite _ => some machine
  | .point _ => some machine

def run (machine : ListMachine) (operations : List Operation) : Option ListMachine :=
  operations.foldlM step machine

lemma run_concat (machine : ListMachine) (operations : List Operation) (operation : Operation) :
    machine.run (operations ++ [operation]) = (machine.run operations).bind (·.step operation) := by
  unfold run
  rw [List.foldlM_append]
  simp only [List.foldlM_cons, List.foldlM_nil, bind_pure]
  rfl

end ListMachine

/-- The registers are the same, and the values lie in memory from the top down. -/
structure Agrees (top : Nat) (state : Machine) (ideal : ListMachine) : Prop where
  registers : state.registers = ideal.registers
  depth : ideal.values.length ≤ top
  values : ∀ (j : Nat) (hj : j < ideal.values.length), state.memory (top - j) = ideal.values[j]

section Agrees

variable {target : Target} {table : SymbolTable} {top : Nat} {state : Machine} {ideal : ListMachine}

lemma Agrees.setRegister (h : Agrees top state ideal) (register : Fin 16) (value : UInt8) :
    Agrees top (state.setRegister register value) (ideal.setRegister register value) := by
  refine ⟨?_, h.depth, h.values⟩
  rw [Machine.setRegister, ListMachine.setRegister, h.registers]

lemma Agrees.setPointer (h : Agrees top state ideal) (address : Nat) :
    Agrees top (state.setPointer address) ideal :=
  ⟨h.registers, h.depth, h.values⟩

lemma toNat_setPointer {address : Nat} (haddress : address < 0x1000) :
    (state.setPointer address).pointer.toNat = address := by
  rw [Machine.setPointer, UInt16.toNat_ofNat']
  exact Nat.mod_eq_of_lt (by omega)

/-- The next free byte takes the value that is pushed. -/
lemma Agrees.push (h : Agrees top state ideal) {address : Nat}
    (haddress : top - ideal.values.length = address) (hfree : 0 < address) (value : UInt8) :
    Agrees top (state.setMemory address value) (ideal.push value) := by
  refine ⟨h.registers, by simp [ListMachine.push]; omega, ?_⟩
  intro j hj
  simp only [ListMachine.push, List.length_append, List.length_singleton] at hj ⊢
  rcases Nat.lt_or_eq_of_le (Nat.le_of_lt_succ hj) with hj | rfl
  · rw [List.getElem_append_left hj, ← h.values j hj]
    exact Function.update_of_ne (by omega) _ _
  · simp [Machine.setMemory, haddress]

lemma Agrees.pop {registers : Fin 16 → UInt8} {values : List UInt8} {value : UInt8}
    (h : Agrees top state ⟨registers, values ++ [value]⟩) :
    Agrees top state ⟨registers, values⟩ ∧ state.memory (top - values.length) = value := by
  have hdepth := h.depth
  simp only [List.length_append, List.length_singleton] at hdepth
  constructor
  · refine ⟨h.registers, by simp; omega, ?_⟩
    intro j hj
    rw [h.values j (by simp at hj ⊢; omega)]
    exact List.getElem_append_left hj
  · rw [h.values values.length (by simp)]
    simp

/-! ### What the code of a directive does -/

lemma Agrees.save (h : Agrees top state ideal) (htop : top < 0x1000) (line : Nat)
    (register : Fin 16) {cursor : Nat} (hcursor : top - ideal.values.length = cursor + 1)
    (hpointer : state.pointer.toNat = cursor + 1) : ∃ next, Executes target table
      [Stack.copy line Stack.relay register.val, Stack.store line, Stack.setPointer line cursor]
      state next ∧ Agrees top next (ideal.save register) ∧ next.pointer.toNat = cursor := by
  let relayed := state.setRegister v0 (state.registers register)
  let stored := relayed.setMemory relayed.pointer.toNat (relayed.registers v0)
  have hstart : relayed.pointer.toNat = cursor + 1 := hpointer
  have hcopy : Executes target table [Stack.copy line Stack.relay register.val] state relayed :=
    executes_copy v0 register
  have hstore : Executes target table [Stack.store line] relayed stored :=
    executes_store (by omega)
  have hmove : Executes target table [Stack.setPointer line cursor] stored
      (stored.setPointer cursor) := executes_setPointer (by omega)
  have hrelayed : Agrees top relayed (ideal.setRegister v0 (ideal.registers register)) := by
    rw [← h.registers]
    exact h.setRegister v0 _
  have hstored := hrelayed.push (hcursor.trans hstart.symm) (by omega) (relayed.registers v0)
  refine ⟨stored.setPointer cursor, hcopy.append (hstore.append hmove), ?_,
    toNat_setPointer (by omega)⟩
  have hvalue : relayed.registers v0 =
      (ideal.setRegister v0 (ideal.registers register)).registers v0 :=
    congrFun hrelayed.registers v0
  simp only [ListMachine.save]
  rw [← hvalue]
  exact hstored.setPointer cursor

lemma Agrees.saveAll {registers : List (Fin 16)} {line cursor final : Nat}
    {code : List Instruction} (h : Agrees top state ideal) (htop : top < 0x1000)
    (hsave : Stack.saveAll line cursor (registers.map Fin.val) = some (final, code))
    (hcursor : top - ideal.values.length = cursor) (hpointer : state.pointer.toNat = cursor) :
    ∃ next, Executes target table code state next ∧
      Agrees top next (registers.foldl ListMachine.save ideal) ∧
      top - (registers.foldl ListMachine.save ideal).values.length = final ∧
      next.pointer.toNat = final := by
  induction registers generalizing cursor code state ideal with
  | nil =>
    simp only [List.map_nil, Stack.saveAll, Option.some.injEq, Prod.mk.injEq] at hsave
    obtain ⟨rfl, rfl⟩ := hsave
    exact ⟨state, .nil, h, hcursor, hpointer⟩
  | cons register registers ih =>
    obtain ⟨low, rest, rfl, hrest, rfl⟩ := saveAll_cons_eq_some_iff.mp hsave
    obtain ⟨middle, hfirst, hagrees, hmiddle⟩ := h.save htop line register hcursor hpointer
    have hlength : top - (ideal.save register).values.length = low := by
      rw [ListMachine.length_save]
      omega
    obtain ⟨next, hcode, hnext⟩ := ih hagrees hrest hlength hmiddle
    exact ⟨next, hfirst.append hcode, hnext⟩

lemma Agrees.restore (h : Agrees top state ideal) (htop : top < 0x1000) (line : Nat)
    (register : Fin 16) {cursor : Nat} (hcursor : top - ideal.values.length = cursor)
    (hnonempty : cursor < top) : ∃ next restored, Executes target table
      [Stack.setPointer line (cursor + 1), Stack.load line,
        Stack.copy line register.val Stack.relay] state next ∧
      ideal.restore register = some restored ∧ Agrees top next restored ∧
      top - restored.values.length = cursor + 1 ∧ next.pointer.toNat = cursor + 1 := by
  obtain ⟨registers, values⟩ := ideal
  have hdepth := h.depth
  rcases List.eq_nil_or_concat' values with rfl | ⟨others, value, rfl⟩
  · simp at hcursor
    omega
  · simp only [List.length_append, List.length_singleton] at hdepth hcursor
    obtain ⟨hothers, hvalue⟩ := h.pop
    let pointed := state.setPointer (cursor + 1)
    let relayed := pointed.setRegister v0 value
    have hpointer : pointed.pointer.toNat = cursor + 1 := toNat_setPointer (by omega)
    have hmove : Executes target table [Stack.setPointer line (cursor + 1)] state pointed :=
      executes_setPointer (by omega)
    have haddress : pointed.memory pointed.pointer.toNat = value := by
      rw [hpointer, ← hvalue, show cursor + 1 = top - others.length by omega]
      rfl
    have hload : Executes target table [Stack.load line] pointed relayed := by
      have hexecutes : Executes target table [Stack.load line] pointed _ :=
        executes_load (by omega)
      rwa [haddress] at hexecutes
    have hcopy : Executes target table [Stack.copy line register.val Stack.relay] relayed
        (relayed.setRegister register (relayed.registers v0)) := executes_copy register v0
    have hrelayed := (hothers.setPointer (cursor + 1)).setRegister v0 value
    have hrestore : (ListMachine.mk registers (others ++ [value])).restore register =
        some (((ListMachine.mk registers others).setRegister v0 value).setRegister register
          (relayed.registers v0)) := by
      rw [hrelayed.registers, ListMachine.restore_concat]
      simp [ListMachine.setRegister]
    exact ⟨_, _, hmove.append (hload.append hcopy), hrestore, hrelayed.setRegister register _,
      by simp only [ListMachine.setRegister]; omega, hpointer⟩

end Agrees

/-! ### What a line does -/

/-- The cursor of the assembler is the address below the values. -/
structure Tracks (stack : Stack) (state : Machine) (ideal : ListMachine) : Prop where
  agrees : Agrees stack.top state ideal
  cursor : stack.cursor = some (stack.top - ideal.values.length)

section Tracks

variable {target : Target} {table : SymbolTable} {stack : Stack} {state : Machine}
  {ideal : ListMachine} {line cursor : Nat} {first : Bool} {tokens : List String}
  {code : List Instruction}

lemma simulates_start (hregisters : state.registers = ideal.registers) (htop : stack.top < 0x1000)
    (h : Expansion stack line first .stackInit tokens cursor code) : ∃ next,
      Executes target table code state next ∧
      Tracks { stack with cursor := some cursor } next { ideal with values := [] } ∧
      next.pointer.toNat = stack.top := by
  cases h with
  | start => exact ⟨_, executes_setPointer htop, ⟨⟨hregisters, by simp, by simp⟩, rfl⟩,
      toNat_setPointer htop⟩

lemma Tracks.push (h : Tracks stack state ideal) (htop : stack.top < 0x1000)
    (hpointer : state.pointer.toNat = stack.top - ideal.values.length) {registers : List (Fin 16)}
    (hregisters : NamesRegisters tokens (registers.map Fin.val))
    (hcode : Expansion stack line first .push tokens cursor code) : ∃ next,
      Executes target table code state next ∧
      Tracks { stack with cursor := some cursor } next (registers.foldl ListMachine.save ideal) ∧
      next.pointer.toNat = stack.top - (registers.foldl ListMachine.save ideal).values.length := by
  cases hcode with
  | push hcursor _ _ hnames hsave =>
    obtain rfl := Option.some.inj (hcursor.symm.trans h.cursor)
    obtain rfl := hnames.eq hregisters
    obtain ⟨next, hexecutes, hagrees, hfinal, hnext⟩ := h.agrees.saveAll htop hsave rfl hpointer
    exact ⟨next, hexecutes, ⟨hagrees, by rw [hfinal]⟩, hnext.trans hfinal.symm⟩

lemma Tracks.pop (h : Tracks stack state ideal) (htop : stack.top < 0x1000) {token : String}
    {register : Fin 16} (hregister : Token.registerNumber? token.toList = some register.val)
    (hcode : Expansion stack line first .pop [token] cursor code) : ∃ next restored,
      Executes target table code state next ∧ ideal.restore register = some restored ∧
      Tracks { stack with cursor := some cursor } next restored ∧
      next.pointer.toNat = stack.top - restored.values.length := by
  cases hcode with
  | pop hcursor hnames hnonempty =>
    obtain rfl := Option.some.inj (hcursor.symm.trans h.cursor)
    obtain rfl := Option.some.inj (hnames.symm.trans hregister)
    obtain ⟨next, restored, hexecutes, hrestore, hagrees, hlength, hnext⟩ :=
      h.agrees.restore htop line register rfl hnonempty
    exact ⟨next, restored, hexecutes, hrestore, ⟨hagrees, by rw [hlength]⟩,
      hnext.trans hlength.symm⟩

lemma Tracks.reset (h : Tracks stack state ideal) (htop : stack.top < 0x1000)
    (hcode : Expansion stack line first .resetSp tokens cursor code) : ∃ next,
      Executes target table code state next ∧
      Tracks { stack with cursor := some cursor } next ideal ∧
      next.pointer.toNat = stack.top - ideal.values.length := by
  cases hcode with
  | reset hcursor =>
    obtain rfl := Option.some.inj (hcursor.symm.trans h.cursor)
    exact ⟨_, executes_setPointer (by omega), ⟨h.agrees.setPointer _, rfl⟩,
      toNat_setPointer (by omega)⟩

lemma Tracks.setRegister (h : Tracks stack state ideal) (register : Fin 16) (value : UInt8) :
    Tracks stack (state.setRegister register value) (ideal.setRegister register value) :=
  ⟨h.agrees.setRegister register value, h.cursor⟩

lemma Tracks.setPointer (h : Tracks stack state ideal) (address : Nat) :
    Tracks stack (state.setPointer address) ideal :=
  ⟨h.agrees.setPointer address, h.cursor⟩

end Tracks

section Line

variable {target : Target} {table : SymbolTable} {draft next : Draft} {state : Machine}
  {ideal : ListMachine} {line : Nat} {statement : Statement} {code : List Instruction}
  {operation : Operation}

/-- The first line makes the stack empty; any other line needs a stack, and a push needs the
pointer where the stack ends. -/
theorem Step.simulates_directive (hstep : Step line draft statement code next)
    (hperforms : Performs statement operation) (hdirective : operation.isDirective = true)
    (htop : draft.stack.top < 0x1000) (hregisters : state.registers = ideal.registers)
    (htracks : operation ≠ .start → Tracks draft.stack state ideal)
    (hpointer : ∀ registers, operation = .push registers →
      state.pointer.toNat = draft.stack.top - ideal.values.length) :
    ∃ after stepped, Executes target table code state after ∧
      ideal.step operation = some stepped ∧ Tracks next.stack after stepped ∧
      after.pointer.toNat = next.stack.top - stepped.values.length := by
  cases hperforms with
  | start =>
    cases hstep with
    | stack hcode =>
      obtain ⟨after, hexecutes, hafter, hmoved⟩ :=
        simulates_start hregisters htop (code_eq_ok_iff.mp hcode)
      exact ⟨after, _, hexecutes, rfl, hafter, hmoved⟩
  | push hnames =>
    cases hstep with
    | stack hcode =>
      obtain ⟨after, hexecutes, hafter, hmoved⟩ := (htracks (by simp)).push htop
        (hpointer _ rfl) hnames (code_eq_ok_iff.mp hcode)
      exact ⟨after, _, hexecutes, rfl, hafter, hmoved⟩
  | pop hname =>
    cases hstep with
    | stack hcode =>
      obtain ⟨after, restored, hexecutes, hrestore, hafter, hmoved⟩ :=
        (htracks (by simp)).pop htop hname (code_eq_ok_iff.mp hcode)
      exact ⟨after, restored, hexecutes, hrestore, hafter, hmoved⟩
  | reset =>
    cases hstep with
    | stack hcode =>
      obtain ⟨after, hexecutes, hafter, hmoved⟩ :=
        (htracks (by simp)).reset htop (code_eq_ok_iff.mp hcode)
      exact ⟨after, _, hexecutes, rfl, hafter, hmoved⟩
  | loadByte => simp [Operation.isDirective] at hdirective
  | addByte => simp [Operation.isDirective] at hdirective
  | copy => simp [Operation.isDirective] at hdirective
  | sprite => simp [Operation.isDirective] at hdirective
  | point => simp [Operation.isDirective] at hdirective

/-- Any other line leaves the values alone. -/
theorem Step.simulates_instruction (hstep : Step line draft statement code next)
    (hperforms : Performs statement operation) (hdirective : operation.isDirective = false)
    (htracks : Tracks draft.stack state ideal) :
    ∃ after stepped, Executes target table code state after ∧
      ideal.step operation = some stepped ∧ Tracks next.stack after stepped ∧
      stepped.values = ideal.values ∧
      (operation.movesPointer = false → after.pointer = state.pointer) := by
  have hregisters := htracks.agrees.registers
  cases hperforms with
  | start => simp [Operation.isDirective] at hdirective
  | push => simp [Operation.isDirective] at hdirective
  | pop => simp [Operation.isDirective] at hdirective
  | reset => simp [Operation.isDirective] at hdirective
  | @loadByte register value =>
    cases hstep
    exact ⟨_, _, executes_loadByte register value, rfl, htracks.setRegister register value, rfl,
      fun _ => rfl⟩
  | @addByte register value =>
    cases hstep
    refine ⟨_, _, executes_addByte register value, rfl, ?_, rfl, fun _ => rfl⟩
    rw [hregisters]
    exact htracks.setRegister register _
  | @copy destination source =>
    cases hstep
    refine ⟨_, _, executes_copy destination source, rfl, ?_, rfl, fun _ => rfl⟩
    rw [hregisters]
    exact htracks.setRegister destination _
  | @sprite register =>
    cases hstep
    exact ⟨_, _, executes_sprite register, rfl, htracks.setPointer _, rfl, by
      simp [Operation.movesPointer]⟩
  | @point address =>
    cases hstep
    exact ⟨_, _, executes_setPointer address.isLt, rfl, htracks.setPointer _, rfl, by
      simp [Operation.movesPointer]⟩

end Line

/-! ### What a program does -/

/-- An operation has moved the pointer away, and none has taken it back since. -/
def Astray (operations : List Operation) : Prop :=
  ∃ before mover between, operations = before ++ mover :: between ∧ mover.movesPointer = true ∧
    ∀ operation ∈ between, operation.restoresPointer = false

section Pointer

variable {operations : List Operation} {operation : Operation}

lemma PointerRestored.of_append {others : List Operation}
    (h : PointerRestored (operations ++ others)) : PointerRestored operations := by
  rintro before mover between registers after rfl hmover
  exact h before mover between registers (after ++ others) (by simp) hmover

lemma PointerRestored.not_astray {registers : List (Fin 16)}
    (h : PointerRestored (operations ++ [.push registers])) : ¬Astray operations := by
  rintro ⟨before, mover, between, rfl, hmover, hbetween⟩
  obtain ⟨operation, hmem, hrestores⟩ := h before mover between registers [] rfl hmover
  rw [hbetween operation hmem] at hrestores
  simp at hrestores

lemma Astray.concat (h : Astray operations) (hoperation : operation.restoresPointer = false) :
    Astray (operations ++ [operation]) := by
  obtain ⟨before, mover, between, rfl, hmover, hbetween⟩ := h
  refine ⟨before, mover, between ++ [operation], by simp, hmover, ?_⟩
  intro other hother
  rcases List.mem_append.mp hother with hother | hother
  · exact hbetween other hother
  · rw [List.mem_singleton.mp hother]
    exact hoperation

lemma astray_of_movesPointer (hoperation : operation.movesPointer = true) :
    Astray (operations ++ [operation]) :=
  ⟨operations, operation, [], rfl, hoperation, by simp⟩

lemma restoresPointer_of_instruction (h : operation.isDirective = false) :
    operation.restoresPointer = false := by
  cases operation with
  | start => rfl
  | push => rfl
  | pop => simp [Operation.isDirective] at h
  | reset => simp [Operation.isDirective] at h
  | loadByte => rfl
  | addByte => rfl
  | copy => rfl
  | sprite => rfl
  | point => rfl

end Pointer

lemma exists_concat_of_forall₂ {α β : Type} {R : α → β → Prop} {l : List α} {a : α} {r : List β}
    (h : List.Forall₂ R (l ++ [a]) r) : ∃ s b, r = s ++ [b] ∧ List.Forall₂ R l s ∧ R a b := by
  rw [← List.forall₂_reverse_iff, List.reverse_append, List.reverse_singleton,
    List.singleton_append, List.forall₂_cons_left_iff] at h
  obtain ⟨b, s, hb, hs, hr⟩ := h
  refine ⟨s.reverse, b, ?_, ?_, hb⟩
  · rw [← List.reverse_cons, ← hr, List.reverse_reverse]
  · rw [← List.forall₂_reverse_iff, List.reverse_reverse]
    exact hs

section Run

variable {target : Target} {lines : List String} {blocks : List (List Instruction)} {draft : Draft}

/-- The machines agree behind every line, and the pointer is where the stack ends unless an
instruction has moved it away. -/
theorem Scan.simulates (h : Scan target lines blocks draft)
    (hmax : target.memorySize.toNat ≤ 0x1000) (table : SymbolTable) (machine : Machine)
    (values : List UInt8) {operations : List Operation}
    (hlines : List.Forall₂ Writes lines operations) (hstart : operations.head? = some .start)
    (hpointer : PointerRestored operations) :
    ∃ state ideal, Executes target table blocks.flatten machine state ∧
      ListMachine.run ⟨machine.registers, values⟩ operations = some ideal ∧
      Tracks draft.stack state ideal ∧
      (state.pointer.toNat = draft.stack.top - ideal.values.length ∨
        Astray operations ∧
          ∀ operation, operations.getLast? = some operation → operation.isDirective = false) := by
  induction h generalizing operations with
  | nil =>
    cases hlines
    simp at hstart
  | @concat lines blocks draft next text statement block above hread hstep ih =>
    obtain ⟨earlier, operation, rfl, hearlier, hwrites⟩ := exists_concat_of_forall₂ hlines
    obtain ⟨_, hsame, hperforms⟩ := hwrites (lines.length + 1)
    obtain rfl := Except.ok.inj (hread.symm.trans hsame)
    have htop : draft.stack.top < 0x1000 := by
      rw [above.stack_top]
      omega
    -- Above the first line there is no stack yet, and only the registers have to agree.
    have hbefore : ∃ state ideal, Executes target table blocks.flatten machine state ∧
        ListMachine.run ⟨machine.registers, values⟩ earlier = some ideal ∧
        state.registers = ideal.registers ∧ (operation ≠ .start → Tracks draft.stack state ideal ∧
          (state.pointer.toNat = draft.stack.top - ideal.values.length ∨ Astray earlier)) := by
      cases earlier with
      | nil =>
        cases hearlier
        obtain rfl := List.eq_nil_of_length_eq_zero above.length_eq
        have hfirst : operation = .start := by simpa using hstart
        exact ⟨machine, _, .nil, rfl, rfl, fun hne => absurd hfirst hne⟩
      | cons first others =>
        obtain ⟨state, ideal, hexecutes, hrun, htracks, hmoved⟩ :=
          ih hearlier (by simpa using hstart) hpointer.of_append
        exact ⟨state, ideal, hexecutes, hrun, htracks.agrees.registers,
          fun _ => ⟨htracks, hmoved.imp_right And.left⟩⟩
    obtain ⟨state, ideal, hexecutes, hrun, hregisters, htracks⟩ := hbefore
    rw [List.flatten_append, List.flatten_singleton]
    cases hdirective : operation.isDirective with
    | true =>
      have hready : ∀ registers, operation = .push registers →
          state.pointer.toNat = draft.stack.top - ideal.values.length := by
        -- An instruction that had moved the pointer away would be followed by this push.
        rintro registers rfl
        exact (htracks (by simp)).2.resolve_right hpointer.not_astray
      obtain ⟨after, stepped, hcode, hideal, hafter, hmoved⟩ := hstep.simulates_directive hperforms
        hdirective htop hregisters (fun hne => (htracks hne).1) hready
      refine ⟨after, stepped, hexecutes.append hcode, ?_, hafter, Or.inl hmoved⟩
      rw [ListMachine.run_concat, hrun]
      exact hideal
    | false =>
      have hne : operation ≠ .start := by
        rintro rfl
        simp [Operation.isDirective] at hdirective
      obtain ⟨htracks, hmoved⟩ := htracks hne
      obtain ⟨after, stepped, hcode, hideal, hafter, hvalues, hkept⟩ :=
        hstep.simulates_instruction hperforms hdirective htracks
      have hlast : ∀ other, (earlier ++ [operation]).getLast? = some other →
          other.isDirective = false := by
        intro other hother
        obtain rfl : operation = other := by simpa using hother
        exact hdirective
      refine ⟨after, stepped, hexecutes.append hcode, ?_, hafter, ?_⟩
      · rw [ListMachine.run_concat, hrun]
        exact hideal
      · cases hmoves : operation.movesPointer with
        | true => exact Or.inr ⟨astray_of_movesPointer hmoves, hlast⟩
        | false =>
          rw [hkept hmoves, hvalues, hstep.stack_top]
          exact hmoved.imp_right fun hastray =>
            ⟨hastray.concat (restoresPointer_of_instruction hdirective), hlast⟩

lemma not_labelLine {operations : List Operation} (h : List.Forall₂ Writes lines operations)
    (k : Nat) (name : String) : ¬LabelLine lines k name := by
  rintro ⟨text, htext, hread⟩
  obtain ⟨hk, rfl⟩ := List.getElem?_eq_some_iff.mp htext
  have hwrites := h.get hk (by rw [← h.length_eq]; exact hk)
  obtain ⟨statement, hsame, hperforms⟩ := hwrites (k + 1)
  rw [List.get_eq_getElem, hread, Except.ok.injEq] at hsame
  rw [← hsame] at hperforms
  cases hperforms

lemma exists_program {operations : List Operation} (h : List.Forall₂ Writes lines operations)
    (htarget : target.fault? = none) (hscan : scan target lines = .ok draft) {words : List UInt16}
    (hwords : draft.code.toList.mapM (Instruction.word target draft.table) = .ok words) :
    ∃ program, assemble target lines = .ok program ∧ program.entries.map (·.word) = words := by
  obtain ⟨blocks, hblocks⟩ := scan_eq_ok_iff.mp hscan
  obtain ⟨program, hlink, hentries⟩ := exists_link hwords
  refine ⟨program, assemble_eq_ok_iff.mpr ⟨htarget, draft, hscan, ?_, hlink⟩, hentries⟩
  apply hblocks.trailing?_eq_none_iff.mpr
  intro label hlabel
  obtain ⟨k, hline, -⟩ := hblocks.mem_bindings_iff.mp hlabel
  exact absurd hline (not_labelLine h k _)

/-- The words of the first lines are the first words. -/
lemma Executes.run_take {table : SymbolTable} {machine state : Machine} {words : List UInt16}
    {before after : List Instruction}
    (h : Executes target table before machine state)
    (hwords : (before ++ after).mapM (Instruction.word target table) = .ok words) :
    machine.run (words.take before.length) = some state := by
  obtain ⟨firstWords, hfirst, hrun⟩ := h
  have htake := List.forall₂_take before.length (mapM_eq_ok_iff.mp hwords)
  rw [List.take_left, ← mapM_eq_ok_iff, hfirst, Except.ok.injEq] at htake
  rw [← htake]
  exact hrun

end Run

/-- Behind each line, the words so far have done to the machine what the operations so far do to a
machine with a list, and behind a directive the pointer is at the next free byte. -/
def KeepsStack (target : Target) (lines : List String) (operations : List Operation)
    (words : List UInt16) (machine : Machine) (values : List UInt8) : Prop :=
  ∀ k operation, operations[k]? = some operation → ∃ above state ideal,
    scan target (lines.take (k + 1)) = .ok above ∧
    machine.run (words.take above.code.size) = some state ∧
    ListMachine.run ⟨machine.registers, values⟩ (operations.take (k + 1)) = some ideal ∧
    Agrees (target.memorySize.toNat - 1) state ideal ∧
    (operation.isDirective = true →
      state.pointer.toNat = target.memorySize.toNat - 1 - ideal.values.length)

theorem stack_code_simulates {target : Target} {lines : List String} {operations : List Operation}
    {draft : Draft} (hmax : target.memorySize.toNat ≤ 0x1000)
    (hlines : List.Forall₂ Writes lines operations) (hstart : operations.head? = some .start)
    (hpointer : PointerRestored operations) (hscan : scan target lines = .ok draft)
    (machine : Machine) (values : List UInt8) :
    ∃ words, draft.code.toList.mapM (Instruction.word target draft.table) = .ok words ∧
      (target.fault? = none → ∃ program, assemble target lines = .ok program ∧
        program.entries.map (·.word) = words) ∧
      KeepsStack target lines operations words machine values := by
  obtain ⟨blocks, hblocks⟩ := scan_eq_ok_iff.mp hscan
  obtain ⟨_, _, ⟨words, hwords, -⟩, -⟩ :=
    hblocks.simulates hmax draft.table machine values hlines hstart hpointer
  rw [← hblocks.code_eq] at hwords
  refine ⟨words, hwords, fun htarget => exists_program hlines htarget hscan hwords, ?_⟩
  intro k operation hoperation
  have hk : k < lines.length := hlines.length_eq ▸ (List.getElem?_eq_some_iff.mp hoperation).1
  obtain ⟨_, _, _, above, -, -, -, -, habove⟩ := hblocks.line (List.getElem?_eq_getElem hk)
  have hhead : (operations.take (k + 1)).head? = some .start := by simpa [List.head?_take]
  have hprefix : PointerRestored (operations.take (k + 1)) := by
    rw [← List.take_append_drop (k + 1) operations] at hpointer
    exact hpointer.of_append
  obtain ⟨state, ideal, hexecutes, hrun, htracks, hmoved⟩ := habove.simulates hmax draft.table
    machine values (List.forall₂_take (k + 1) hlines) hhead hprefix
  have hagrees := htracks.agrees
  rw [habove.stack_top] at hagrees hmoved
  refine ⟨above, state, ideal, scan_eq_ok_iff.mpr ⟨_, habove⟩, ?_, hrun, hagrees, ?_⟩
  · rw [hblocks.code_eq, ← List.take_append_drop (k + 1) blocks, List.flatten_append] at hwords
    rw [habove.size_eq]
    exact hexecutes.run_take hwords
  · intro hdirective
    have hlast : (operations.take (k + 1)).getLast? = some operation := by
      simp [List.getLast?_take, hoperation]
    rcases hmoved with hmoved | ⟨-, hnone⟩
    · exact hmoved
    · rw [hnone operation hlast] at hdirective
      simp at hdirective

/-- A push of two registers behind a `RESET_SP` that takes the pointer back from a sprite. -/
theorem stack_code_simulates_sprite : ∃ draft words,
    scan {} ["STACK_INIT", "LD_BYTE V1 0x42", "LD_F V1", "RESET_SP ; again", "push V1 V2", "POP V3"]
      = .ok draft ∧
    draft.code.toList.mapM (Instruction.word {} draft.table) = .ok words ∧
    KeepsStack {}
      ["STACK_INIT", "LD_BYTE V1 0x42", "LD_F V1", "RESET_SP ; again", "push V1 V2", "POP V3"]
      [.start, .loadByte 1 0x42, .sprite 1, .reset, .push [1, 2], .pop 3]
      words ⟨fun _ => 0, 0, fun _ => 0⟩ [7] := by
  have hlines : List.Forall₂ Writes
      ["STACK_INIT", "LD_BYTE V1 0x42", "LD_F V1", "RESET_SP ; again", "push V1 V2", "POP V3"]
      [.start, .loadByte 1 0x42, .sprite 1, .reset, .push [1, 2], .pop 3] := by
    refine .cons ?_ (.cons ?_ (.cons ?_ (.cons ?_ (.cons ?_ (.cons ?_ .nil)))))
    · exact fun line => ⟨.stack .stackInit [], by rfl, .start⟩
    · exact fun line => ⟨_, by rfl, .loadByte⟩
    · exact fun line => ⟨_, by rfl, .sprite⟩
    · exact fun line => ⟨.stack .resetSp [], by rfl, .reset⟩
    · exact fun line => ⟨.stack .push ["V1", "V2"], by rfl,
        .push (.cons (by rfl) (.cons (by rfl) .nil))⟩
    · exact fun line => ⟨.stack .pop ["V3"], by rfl, .pop (by rfl)⟩
  have hpointer : PointerRestored
      [.start, .loadByte 1 0x42, .sprite 1, .reset, .push [1, 2], .pop 3] := by
    intro before mover between registers after h hmover
    rcases before with _ | ⟨a, _ | ⟨b, _ | ⟨c, before⟩⟩⟩
    · simp at h
      obtain ⟨rfl, -⟩ := h
      simp [Operation.movesPointer] at hmover
    · simp at h
      obtain ⟨-, rfl, -⟩ := h
      simp [Operation.movesPointer] at hmover
    · cases between with
      | nil => simp at h
      | cons d between =>
        simp at h
        obtain ⟨-, -, -, rfl, -⟩ := h
        exact ⟨.reset, by simp, rfl⟩
    · simp at h
      have hmem : mover ∈ [Operation.reset, .push [1, 2], .pop 3] := by
        rw [h.2.2.2]
        simp
      simp at hmem
      rcases hmem with rfl | rfl | rfl <;> simp [Operation.movesPointer] at hmover
  have hsize : (scan {} ["STACK_INIT", "LD_BYTE V1 0x42", "LD_F V1", "RESET_SP ; again",
      "push V1 V2", "POP V3"]).map (fun draft => draft.code.size) = .ok 13 := by
    decide +kernel
  obtain ⟨draft, hscan, -⟩ := map_eq_ok_iff.mp hsize
  obtain ⟨words, hwords, -, hkeeps⟩ := stack_code_simulates (by decide) hlines rfl hpointer hscan
    ⟨fun _ => 0, 0, fun _ => 0⟩ [7]
  exact ⟨draft, words, hscan, hwords, hkeeps⟩

end Chip8.Proofs
