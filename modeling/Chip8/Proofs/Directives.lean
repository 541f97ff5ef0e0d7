import Mathlib
import Chip8.Stack
import Chip8.Proofs.Outcome

/-!
# Directives as functions of the stack

What a directive does to the stack at hand, as a function of that stack: the cursor behind the
directive and its code, or why it is refused. Every check of a directive stands before the only
place that moves the cursor, so a directive that is refused leaves the stack as it was: `step_eq`.
-/

namespace Chip8.Stack

open Proofs

/-! ### The code of a directive -/

def startCode (stack : Stack) (tokens : List String) (line : Nat) (first : Bool) :
    Except Cause (Nat × List Instruction) := do
  require (first = true) (.notFirst .stackInit)
  requireCount Directive.stackInit.name 0 tokens.length
  pure (stack.top, [setPointer line stack.top])

def pushCode (stack : Stack) (tokens : List String) (line : Nat) :
    Except Cause (Nat × List Instruction) := do
  let cursor ← stack.ready .push
  require (tokens ≠ []) (.arity Directive.push.name 1 0)
  require (tokens.length ≤ maxPushed) (.tooManyRegisters .push tokens.length)
  let saved ← registers .push tokens
  match saveAll line cursor saved with
  | some result => pure result
  | none => throw (.addressOutOfRange Directive.push.name 0 .stackOverflow)

def popCode (stack : Stack) (tokens : List String) (line : Nat) :
    Except Cause (Nat × List Instruction) := do
  let cursor ← stack.ready .pop
  requireCount Directive.pop.name 1 tokens.length
  let restored ← registers .pop tokens
  require (cursor < stack.top) (.addressOutOfRange Directive.pop.name (cursor + 1) .emptyStack)
  pure (cursor + 1, setPointer line (cursor + 1) :: load line ::
    restored.map fun register => copy line register relay)

def resetCode (stack : Stack) (tokens : List String) (line : Nat) :
    Except Cause (Nat × List Instruction) := do
  let cursor ← stack.ready .resetSp
  requireCount Directive.resetSp.name 0 tokens.length
  pure (cursor, [setPointer line cursor])

/-- The cursor behind a directive, and its code. -/
def code (stack : Stack) (directive : Directive) (tokens : List String) (line : Nat)
    (first : Bool) : Except Cause (Nat × List Instruction) :=
  match directive with
  | .stackInit => stack.startCode tokens line first
  | .push => stack.pushCode tokens line
  | .pop => stack.popCode tokens line
  | .resetSp => stack.resetCode tokens line

/-! ### The stack behind a directive -/

/-- The stack with the cursor moved, or as it was if there is no code. -/
def settle (stack : Stack) :
    Except Cause (Nat × List Instruction) → Stack × Except Cause (List Instruction)
  | .ok (cursor, code) => ({ stack with cursor := some cursor }, .ok code)
  | .error cause => (stack, .error cause)

/-- On a stack, the effect comes to the outcome. -/
def Settles (stack : Stack) (effect : Effect (List Instruction))
    (outcome : Except Cause (Nat × List Instruction)) : Prop :=
  Prod.swap (effect.run.run stack) = stack.settle outcome

section Settles

variable {stack : Stack} {directive : Directive} {tokens : List String} {line : Nat} {first : Bool}
  {cause : Cause}

lemma Settles.get_bind {effect : Stack → Effect (List Instruction)}
    {outcome : Except Cause (Nat × List Instruction)} (h : Settles stack (effect stack) outcome) :
    Settles stack (get >>= effect) outcome := by
  rw [Settles, run_get_bind]
  exact h

/-- A check that fails ends the directive, and the stack has not changed so far. -/
lemma Settles.lift_bind {α : Type} {x : Except Cause α} {effect : α → Effect (List Instruction)}
    {outcome : α → Except Cause (Nat × List Instruction)}
    (h : ∀ a, x = .ok a → Settles stack (effect a) (outcome a)) :
    Settles stack (liftM x >>= effect) (x >>= outcome) := by
  cases x with
  | ok a =>
    rw [Settles, run_ok_bind]
    exact h a rfl
  | error cause =>
    rw [Settles, run_error_bind]
    rfl

lemma settles_moveTo (cursor : Nat) (code : List Instruction) :
    Settles stack (moveTo cursor >>= fun _ => pure code) (pure (cursor, code)) := rfl

lemma settles_start : Settles stack (start tokens line first) (stack.startCode tokens line first) :=
  .lift_bind fun _ _ => .lift_bind fun _ _ => .get_bind (settles_moveTo _ _)

lemma settles_push : Settles stack (push tokens line) (stack.pushCode tokens line) := by
  refine .get_bind (.lift_bind fun cursor _ => .lift_bind fun _ _ => .lift_bind fun _ _ =>
    .lift_bind fun saved _ => ?_)
  cases saveAll line cursor saved with
  | some result => exact settles_moveTo _ _
  | none => rfl

lemma settles_pop : Settles stack (pop tokens line) (stack.popCode tokens line) :=
  .get_bind (.lift_bind fun _ _ => .lift_bind fun _ _ => .lift_bind fun _ _ =>
    .lift_bind fun _ _ => settles_moveTo _ _)

lemma ready_eq_ok_iff {cursor : Nat} :
    stack.ready directive = .ok cursor ↔ stack.cursor = some cursor := by
  unfold ready
  split <;> simp_all

/-- The cursor that `reset` leaves alone is the one it has read. -/
lemma settles_reset : Settles stack (reset tokens line) (stack.resetCode tokens line) := by
  refine .get_bind (.lift_bind fun cursor hready => .lift_bind fun _ _ => ?_)
  have hstack : { stack with cursor := some cursor } = stack := by
    rw [← ready_eq_ok_iff.mp hready]
  exact Prod.ext hstack.symm rfl

/-- A directive moves the cursor to where its code leaves it, or is refused and the stack stays. -/
theorem step_eq (stack : Stack) (directive : Directive) (tokens : List String) (line : Nat)
    (first : Bool) : stack.step directive tokens line first =
      stack.settle (stack.code directive tokens line first) := by
  cases directive with
  | stackInit => exact settles_start
  | push => exact settles_push
  | pop => exact settles_pop
  | resetSp => exact settles_reset

lemma step_eq_accepted_iff {next : Stack} {code : List Instruction} :
    stack.step directive tokens line first = (next, .ok code) ↔ ∃ cursor,
      stack.code directive tokens line first = .ok (cursor, code) ∧
      next = { stack with cursor := some cursor } := by
  rw [step_eq]
  cases stack.code directive tokens line first with
  | error cause => simp [settle]
  | ok result =>
    obtain ⟨cursor, emitted⟩ := result
    simp only [settle, Prod.mk.injEq, Except.ok.injEq]
    constructor
    · rintro ⟨rfl, rfl⟩
      exact ⟨cursor, ⟨rfl, rfl⟩, rfl⟩
    · rintro ⟨_, ⟨rfl, rfl⟩, rfl⟩
      exact ⟨rfl, rfl⟩

lemma step_fst_of_error (h : (stack.step directive tokens line first).2 = .error cause) :
    (stack.step directive tokens line first).1 = stack := by
  rw [step_eq] at h ⊢
  cases hcode : stack.code directive tokens line first with
  | ok result => simp [hcode, settle] at h
  | error cause => rfl

end Settles

/-! ### Saving registers -/

lemma saveAll_eq_none_iff {line cursor : Nat} {registers : List Nat} :
    saveAll line cursor registers = none ↔ cursor < registers.length := by
  induction registers generalizing cursor with
  | nil => simp [saveAll]
  | cons register others ih => cases cursor <;> simp [saveAll, ih]

lemma saveAll_append {line cursor : Nat} {first second : List Nat} :
    saveAll line cursor (first ++ second) =
      (saveAll line cursor first).bind fun (middle, code) =>
        (saveAll line middle second).map fun (final, others) => (final, code ++ others) := by
  induction first generalizing cursor with
  | nil => simp [saveAll]
  | cons register first ih =>
    cases cursor with
    | zero => simp [saveAll]
    | succ cursor =>
      cases hfirst : saveAll line cursor first <;> simp [saveAll, ih, hfirst, Function.comp_def]

lemma cursor_of_saveAll {line cursor final : Nat} {registers : List Nat}
    {code : List Instruction} (h : saveAll line cursor registers = some (final, code)) :
    final + registers.length = cursor ∧ code.length = 3 * registers.length := by
  induction registers generalizing cursor code with
  | nil => simp_all [saveAll]
  | cons register others ih =>
    cases cursor with
    | zero => simp [saveAll] at h
    | succ cursor =>
      simp only [saveAll, Option.map_eq_some_iff, Prod.exists, Prod.mk.injEq] at h
      obtain ⟨_, rest, hrest, rfl, rfl⟩ := h
      obtain ⟨hcursor, hlength⟩ := ih hrest
      simp only [List.length_cons, hlength]
      omega

end Chip8.Stack
