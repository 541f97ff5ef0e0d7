import Mathlib
import Chip8.Proofs.Expansion

/-!
# Histories of a stack

Directives carried out one after another on one stack, some of which may be refused. A refused one
leaves no trace, and the cursor stands where the registers pushed and popped since the stack was
last made empty put it. Main statement: `stack_history`.
-/

namespace Chip8.Proofs

/-- The registers that an accepted directive pushes, less those that it pops. -/
def growth : Directive → List String → Int
  | .push, tokens => tokens.length
  | .pop, tokens => -tokens.length
  | .stackInit, _ => 0
  | .resetSp, _ => 0

/-! ### One directive -/

section Effect

variable {stack : Stack} {line : Nat} {first : Bool} {directive : Directive} {tokens : List String}
  {cursor : Nat} {code : List Instruction}

/-- `STACK_INIT` takes the cursor to the top, and every other directive moves it by its growth. -/
theorem Expansion.cursor_eq (h : Expansion stack line first directive tokens cursor code) :
    directive = .stackInit ∧ cursor = stack.top ∨
    directive ≠ .stackInit ∧ ∃ above, stack.cursor = some above ∧
      (cursor : Int) = above - growth directive tokens := by
  cases h with
  | start => exact Or.inl ⟨rfl, rfl⟩
  | @push above _ _ _ _ hcursor _ _ hregisters hsave =>
    have hfinal := (Stack.cursor_of_saveAll hsave).1
    rw [← hregisters.length_eq] at hfinal
    refine Or.inr ⟨by simp, above, hcursor, ?_⟩
    rw [growth]
    omega
  | @pop above _ _ hcursor =>
    refine Or.inr ⟨by simp, above, hcursor, ?_⟩
    simp [growth]
  | @reset above hcursor =>
    refine Or.inr ⟨by simp, cursor, hcursor, ?_⟩
    simp [growth]

lemma setPointer_last_of_saveAll {final : Nat} {registers : List Nat}
    (h : Stack.saveAll line cursor registers = some (final, code)) (hnonempty : registers ≠ []) :
    ∃ before, code = before ++ [Stack.setPointer line final] := by
  induction registers generalizing cursor code with
  | nil => exact absurd rfl hnonempty
  | cons register registers ih =>
    obtain ⟨low, rest, rfl, hrest, rfl⟩ := saveAll_cons_eq_some_iff.mp h
    by_cases hlast : registers = []
    · subst hlast
      obtain ⟨rfl, rfl⟩ : low = final ∧ [] = rest := by simpa [Stack.saveAll] using hrest
      exact ⟨[Stack.copy line Stack.relay register, Stack.store line], rfl⟩
    · obtain ⟨before, rfl⟩ := ih hrest hlast
      exact ⟨Stack.copy line Stack.relay register :: Stack.store line ::
        Stack.setPointer line low :: before, rfl⟩

/-- The last `LD_I` in the code of a directive points at the cursor behind it. -/
theorem Expansion.exists_last_pointer
    (h : Expansion stack line first directive tokens cursor code) : ∃ before after,
      code = before ++ Stack.setPointer line cursor :: after ∧
      ∀ instruction ∈ after, instruction.mnemonic ≠ .ldI := by
  cases h with
  | start => exact ⟨[], [], rfl, by simp⟩
  | @push _ _ _ registers _ _ hnonempty _ hregisters hsave =>
    have hsome : registers ≠ [] := by
      rintro rfl
      exact hnonempty (List.forall₂_nil_right_iff.mp hregisters)
    obtain ⟨before, rfl⟩ := setPointer_last_of_saveAll hsave hsome
    exact ⟨before, [], rfl, by simp⟩
  | @pop _ register =>
    exact ⟨[], [Stack.load line, Stack.copy line register Stack.relay], rfl,
      by simp [Stack.load, Stack.copy]⟩
  | reset => exact ⟨[], [], rfl, by simp⟩

end Effect

/-! ### Many directives -/

/-- A directive with its words and its line, which may count as the first one of a program. -/
structure Call where
  directive : Directive
  tokens : List String
  line : Nat
  first : Bool
deriving DecidableEq

namespace Call

def perform (call : Call) (stack : Stack) : Stack × Except Cause (List Instruction) :=
  stack.step call.directive call.tokens call.line call.first

/-- The stack behind the calls. -/
def run (stack : Stack) (calls : List Call) : Stack :=
  calls.foldl (fun stack call => (call.perform stack).1) stack

/-- The calls that are not refused, in order. -/
def accepted (stack : Stack) : List Call → List Call
  | [] => []
  | call :: calls =>
    match call.perform stack with
    | (next, .ok _) => call :: accepted next calls
    | (next, .error _) => accepted next calls

section Run

variable {stack : Stack} {call : Call} {calls : List Call} {code : List Instruction} {cause : Cause}

lemma run_append (stack : Stack) (first second : List Call) :
    run stack (first ++ second) = run (run stack first) second :=
  List.foldl_append

lemma accepted_append (stack : Stack) (first second : List Call) :
    accepted stack (first ++ second) =
      accepted stack first ++ accepted (run stack first) second := by
  induction first generalizing stack with
  | nil => rfl
  | cons call first ih =>
    have hrun : run stack (call :: first) = run (call.perform stack).1 first := rfl
    rw [hrun, List.cons_append, accepted, accepted]
    rcases call.perform stack with ⟨next, code | cause⟩
    · exact ih next
    · simp [ih next]

lemma perform_of_error (h : (call.perform stack).2 = .error cause) :
    (call.perform stack).1 = stack :=
  Stack.step_fst_of_error h

lemma accepted_of_error (h : (call.perform stack).2 = .error cause) :
    accepted stack [call] = [] := by
  rw [accepted]
  rcases hcall : call.perform stack with ⟨next, result⟩
  rw [hcall] at h
  subst h
  rfl

lemma accepted_of_ok (h : (call.perform stack).2 = .ok code) : accepted stack [call] = [call] := by
  rw [accepted]
  rcases hcall : call.perform stack with ⟨next, result⟩
  rw [hcall] at h
  subst h
  rfl

/-- An accepted call leaves the cursor of its expansion. -/
lemma exists_expansion (h : (call.perform stack).2 = .ok code) : ∃ cursor,
    Expansion stack call.line call.first call.directive call.tokens cursor code ∧
    (call.perform stack).1 = { stack with cursor := some cursor } := by
  obtain ⟨cursor, hcode, hnext⟩ := Stack.step_eq_accepted_iff.mp (Prod.ext rfl h)
  exact ⟨cursor, code_eq_ok_iff.mp hcode, hnext⟩

lemma perform_of_expansion {cursor : Nat}
    (h : Expansion stack call.line call.first call.directive call.tokens cursor code) :
    call.perform stack = ({ stack with cursor := some cursor }, .ok code) :=
  Stack.step_eq_accepted_iff.mpr ⟨cursor, code_eq_ok_iff.mpr h, rfl⟩

/-- A refused call may as well not have been made. -/
theorem run_accepted (stack : Stack) (calls : List Call) :
    run stack (accepted stack calls) = run stack calls := by
  induction calls generalizing stack with
  | nil => rfl
  | cons call calls ih =>
    have hrun : run stack (call :: calls) = run (call.perform stack).1 calls := rfl
    have hsplit : accepted stack (call :: calls) =
        accepted stack [call] ++ accepted (call.perform stack).1 calls :=
      accepted_append stack [call] calls
    rw [hrun, hsplit, run_append]
    cases hcall : (call.perform stack).2 with
    | ok code =>
      rw [accepted_of_ok hcall]
      exact ih (call.perform stack).1
    | error cause =>
      rw [accepted_of_error hcall, perform_of_error hcall]
      exact ih stack

end Run

end Call

/-- The cursor stands as far below the top as the calls since the last `STACK_INIT` have pushed more
registers than they have popped; before the first one there is none. -/
structure Counted (stack : Stack) (calls : List Call) : Prop where
  bound : ∀ cursor, stack.cursor = some cursor → cursor ≤ stack.top
  idle : stack.cursor = none ↔ ∀ call ∈ calls, call.directive ≠ .stackInit
  count : ∀ before start after, calls = before ++ start :: after →
    start.directive = .stackInit → (∀ call ∈ after, call.directive ≠ .stackInit) →
    ∃ cursor, stack.cursor = some cursor ∧ (cursor : Int) =
      stack.top - (after.map fun call => growth call.directive call.tokens).sum

section Count

variable {stack : Stack} {call : Call} {calls : List Call} {code : List Instruction}

lemma Counted.concat (h : Counted stack calls) {cursor : Nat}
    (hexpansion : Expansion stack call.line call.first call.directive call.tokens cursor code) :
    Counted { stack with cursor := some cursor } (calls ++ [call]) := by
  have hcursor := hexpansion.cursor_eq
  refine ⟨?_, ?_, ?_⟩
  · intro other hother
    obtain rfl := Option.some.inj hother
    exact hexpansion.cursor_le h.bound
  · -- A directive other than `STACK_INIT` is accepted on a stack that an earlier one made.
    simp only [reduceCtorEq, false_iff, not_forall, not_not, exists_prop]
    rcases hcursor with ⟨hstart, -⟩ | ⟨-, above, habove, -⟩
    · exact ⟨call, by simp, hstart⟩
    · have hready : ¬∀ call ∈ calls, call.directive ≠ .stackInit := by
        rw [← h.idle, habove]
        simp
      push Not at hready
      obtain ⟨start, hmem, hstart⟩ := hready
      exact ⟨start, by simp [hmem], hstart⟩
  · intro before start after hcalls hstart hafter
    refine ⟨cursor, rfl, ?_⟩
    rcases List.eq_nil_or_concat after with rfl | ⟨earlier, last, rfl⟩
    · obtain ⟨rfl, rfl⟩ := List.append_singleton_inj.mp hcalls
      rcases hcursor with ⟨-, htop⟩ | ⟨hne, -⟩
      · simp [htop]
      · exact absurd hstart hne
    · rw [List.concat_eq_append, ← List.cons_append, ← List.append_assoc] at hcalls
      obtain ⟨hbefore, rfl⟩ := List.append_singleton_inj.mp hcalls
      simp only [List.concat_eq_append, List.mem_append, List.mem_singleton] at hafter
      obtain ⟨above, habove, hcount⟩ := h.count before start earlier hbefore hstart
        fun call hmem => hafter call (Or.inl hmem)
      rcases hcursor with ⟨hinit, -⟩ | ⟨-, other, hother, hmoved⟩
      · exact absurd hinit (hafter call (Or.inr rfl))
      · obtain rfl := Option.some.inj (habove.symm.trans hother)
        rw [List.concat_eq_append, List.map_append, List.sum_append]
        simp only [List.map_cons, List.map_nil, List.sum_singleton]
        omega

/-- What one call keeps. -/
theorem Counted.perform (h : Counted stack calls) (call : Call) :
    Counted (call.perform stack).1 (calls ++ Call.accepted stack [call]) := by
  cases hcall : (call.perform stack).2 with
  | ok code =>
    obtain ⟨cursor, hexpansion, hstack⟩ := Call.exists_expansion hcall
    rw [hstack, Call.accepted_of_ok hcall]
    exact h.concat hexpansion
  | error cause =>
    rw [Call.perform_of_error hcall, Call.accepted_of_error hcall, List.append_nil]
    exact h

theorem counted_run (h : stack.cursor = none) (calls : List Call) :
    Counted (Call.run stack calls) (Call.accepted stack calls) := by
  induction calls using List.reverseRecOn with
  | nil =>
    refine ⟨by simp [Call.run, h], by simp [Call.run, Call.accepted, h], ?_⟩
    intro before start after hcalls
    simp [Call.accepted] at hcalls
  | append_singleton calls call ih =>
    rw [Call.run_append, Call.accepted_append]
    exact ih.perform call

end Count

/-- A refused call leaves the stack as it was. The code of an accepted one carries its line, points
`I` at addresses of the stack only, and the last of them is the cursor behind the call. -/
structure CallEffect (stack : Stack) (call : Call) : Prop where
  refused : ∀ cause, (call.perform stack).2 = .error cause → (call.perform stack).1 = stack
  line : ∀ code, (call.perform stack).2 = .ok code →
    ∀ instruction ∈ code, instruction.line = call.line
  pointer : ∀ code, (call.perform stack).2 = .ok code →
    ∀ instruction ∈ code, instruction.mnemonic = .ldI →
      ∃ address ≤ stack.top, instruction.operands = [.literal address]
  last : ∀ code, (call.perform stack).2 = .ok code → ∃ before address after,
    code = before ++ Stack.setPointer call.line address :: after ∧
    (∀ instruction ∈ after, instruction.mnemonic ≠ .ldI) ∧
    (call.perform stack).1.cursor = some address

lemma Counted.callEffect {stack : Stack} {calls : List Call} (h : Counted stack calls)
    (call : Call) : CallEffect stack call := by
  refine ⟨fun cause => Call.perform_of_error, ?_, ?_, ?_⟩
  · intro code hcall instruction hmem
    obtain ⟨cursor, hexpansion, -⟩ := Call.exists_expansion hcall
    exact (hexpansion.stackInstruction h.bound instruction hmem).line_eq
  · intro code hcall instruction hmem
    obtain ⟨cursor, hexpansion, -⟩ := Call.exists_expansion hcall
    exact (hexpansion.stackInstruction h.bound instruction hmem).address_le
  · intro code hcall
    obtain ⟨cursor, hexpansion, hstack⟩ := Call.exists_expansion hcall
    obtain ⟨before, after, hcode, hafter⟩ := hexpansion.exists_last_pointer
    exact ⟨before, cursor, after, hcode, hafter, by rw [hstack]⟩

lemma Call.run_top (stack : Stack) (calls : List Call) : (run stack calls).top = stack.top := by
  induction calls using List.reverseRecOn with
  | nil => rfl
  | append_singleton calls call ih =>
    rw [run_append, ← ih]
    change (call.perform (run stack calls)).1.top = _
    cases hcall : (call.perform (run stack calls)).2 with
    | ok code =>
      obtain ⟨cursor, -, hstack⟩ := exists_expansion hcall
      rw [hstack]
    | error cause => rw [perform_of_error hcall]

/-- Whatever the calls on the stack of a memory are, the accepted ones alone decide where its cursor
stands, and every further call is carried out in full or not at all. -/
theorem stack_history (memorySize : UInt16) (calls : List Call) :
    let stack := Call.run (.ofMemorySize memorySize) calls
    let accepted := Call.accepted (.ofMemorySize memorySize) calls
    stack.top = memorySize.toNat - 1 ∧ Counted stack accepted ∧
      Call.run (.ofMemorySize memorySize) accepted = stack ∧ ∀ call, CallEffect stack call := by
  intro stack accepted
  have hcounted : Counted stack accepted := counted_run rfl calls
  refine ⟨Call.run_top _ calls, hcounted, Call.run_accepted _ calls, ?_⟩
  exact fun call => hcounted.callEffect call

/-- In three bytes, a push of two registers leaves no room for a third, and only the push behind
the second `STACK_INIT` counts. -/
theorem stack_history_restart :
    let calls : List Call := [⟨.stackInit, [], 1, true⟩, ⟨.push, ["V1", "V2"], 2, false⟩,
      ⟨.push, ["V3"], 3, false⟩, ⟨.stackInit, [], 4, true⟩, ⟨.push, ["V4"], 5, false⟩]
    Call.accepted (.ofMemorySize 3) calls = [⟨.stackInit, [], 1, true⟩,
      ⟨.push, ["V1", "V2"], 2, false⟩, ⟨.stackInit, [], 4, true⟩, ⟨.push, ["V4"], 5, false⟩] ∧
    ∃ cursor, (Call.run (.ofMemorySize 3) calls).cursor = some cursor ∧ (cursor : Int) = 2 - 1 := by
  intro calls
  have haccepted : Call.accepted (.ofMemorySize 3) calls = [⟨.stackInit, [], 1, true⟩,
      ⟨.push, ["V1", "V2"], 2, false⟩, ⟨.stackInit, [], 4, true⟩,
      ⟨.push, ["V4"], 5, false⟩] := by
    decide +kernel
  obtain ⟨htop, hcounted, -, -⟩ := stack_history 3 calls
  obtain ⟨cursor, hcursor, hcount⟩ := hcounted.count
    [⟨.stackInit, [], 1, true⟩, ⟨.push, ["V1", "V2"], 2, false⟩] ⟨.stackInit, [], 4, true⟩
    [⟨.push, ["V4"], 5, false⟩] haccepted rfl (by simp)
  rw [htop] at hcount
  exact ⟨haccepted, cursor, hcursor, by simpa [growth] using hcount⟩

end Chip8.Proofs
