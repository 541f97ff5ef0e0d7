import Mathlib
import Chip8.Proofs.SavedRegisters

/-!
# Pushes one behind the other

A push of several registers saves them as pushes of fewer registers at a time do, as long as all of
them are accepted, and no part of it is done if one would be refused. Main statements: `push_append`
for two pushes, and `perform_flatten_iff` for any number of them.
-/

namespace Chip8.Proofs

section Push

variable {stack next : Stack} {line cursor : Nat} {tokens others : List String}
  {code : List Instruction} {cause : Cause}

lemma registers_append (directive : Directive) (tokens others : List String) :
    Stack.registers directive (tokens ++ others) =
      Stack.registers directive tokens >>= fun registers =>
        Stack.registers directive others >>= fun further => pure (registers ++ further) := by
  simp only [registers_eq_mapM, List.mapM_append]

/-- A push of an admissible number of words fails for its words before it fails for want of room. -/
lemma push_eq (hnonempty : tokens ≠ []) (hcount : tokens.length ≤ Stack.maxPushed) :
    stack.pushCode tokens line =
      stack.ready .push >>= fun cursor =>
        Stack.registers .push tokens >>= fun registers =>
          (Stack.saveAll line cursor registers).elim
            (.error (.addressOutOfRange Directive.push.name 0 .stackOverflow)) .ok := by
  unfold Stack.pushCode
  rw [require_eq_ok_iff.mpr hnonempty, require_eq_ok_iff.mpr hcount]
  cases stack.ready .push with
  | error cause => rfl
  | ok cursor =>
    cases Stack.registers .push tokens with
    | error cause => simp [bind, Except.bind]
    | ok registers =>
      simp only [bind, Except.bind]
      cases Stack.saveAll line cursor registers <;> rfl

/-- Behind words that are accepted, the others are pushed from the cursor that these leave. -/
theorem pushCode_append_of_ok (h : stack.pushCode tokens line = .ok (cursor, code))
    (hothers : others ≠ []) (hcount : (tokens ++ others).length ≤ Stack.maxPushed) :
    stack.pushCode (tokens ++ others) line =
      (Stack.pushCode { stack with cursor := some cursor } others line).map fun (final, rest) =>
        (final, code ++ rest) := by
  rw [List.length_append] at hcount
  have hexpansion : Expansion stack line true .push tokens cursor code := pushCode_eq_ok_iff.mp h
  cases hexpansion with
  | @push above _ _ registers _ habove hnonempty _ hregisters hsave =>
    have hready : stack.ready .push = .ok above := Stack.ready_eq_ok_iff.mpr habove
    have hagain : Stack.ready { stack with cursor := some cursor } .push = .ok cursor := rfl
    rw [push_eq (by simp [hnonempty]) (by rw [List.length_append]; exact hcount),
      push_eq hothers (by omega), hready, hagain, registers_append,
      registers_eq_ok_iff.mpr hregisters]
    simp only [bind, Except.bind, pure, Except.pure]
    cases Stack.registers .push others with
    | error cause => rfl
    | ok further =>
      simp only [Stack.saveAll_append, hsave, Option.bind_some]
      cases Stack.saveAll line cursor further <;> rfl

/-- Words that are refused are refused with others behind them, though maybe for another cause. -/
lemma exists_pushCode_append_error (h : stack.pushCode tokens line = .error cause)
    (htokens : tokens ≠ []) (hcount : (tokens ++ others).length ≤ Stack.maxPushed) :
    ∃ other, stack.pushCode (tokens ++ others) line = .error other := by
  rw [List.length_append] at hcount
  cases hpush : stack.pushCode (tokens ++ others) line with
  | error other => exact ⟨other, rfl⟩
  | ok result =>
    obtain ⟨final, code⟩ := result
    have hexpansion : Expansion stack line true .push (tokens ++ others) final code :=
      pushCode_eq_ok_iff.mp hpush
    cases hexpansion with
    | @push above _ _ registers _ habove _ _ hregisters hsave =>
      -- The registers of the words in front are the first ones, and there was room for these.
      have hfront : NamesRegisters tokens (registers.take tokens.length) := by
        have htake := List.forall₂_take tokens.length hregisters
        rwa [List.take_left] at htake
      rw [← List.take_append_drop tokens.length registers, Stack.saveAll_append,
        Option.bind_eq_some_iff] at hsave
      obtain ⟨⟨middle, front⟩, hsave, -⟩ := hsave
      have hpart : Expansion stack line true .push tokens middle front :=
        .push habove htokens (by omega) hfront hsave
      rw [pushCode_eq_ok_iff.mpr hpart] at h
      simp at h

/-- The flags tell where the pushes stand in a program, which matters to none of them. -/
theorem step_push_append_iff (whole front back : Bool) (htokens : tokens ≠ [])
    (hothers : others ≠ []) (hcount : (tokens ++ others).length ≤ Stack.maxPushed) :
    stack.step .push (tokens ++ others) line whole = (next, .ok code) ↔ ∃ middle above below,
      stack.step .push tokens line front = (middle, .ok above) ∧
      middle.step .push others line back = (next, .ok below) ∧ code = above ++ below := by
  simp only [Stack.step_eq_accepted_iff, Stack.code]
  cases hpush : stack.pushCode tokens line with
  | error cause =>
    obtain ⟨other, hother⟩ := exists_pushCode_append_error hpush htokens hcount
    simp [hother]
  | ok result =>
    obtain ⟨cursor, above⟩ := result
    rw [pushCode_append_of_ok hpush hothers hcount]
    simp only [map_eq_ok_iff, Except.ok.injEq, Prod.mk.injEq, Prod.exists]
    constructor
    · rintro ⟨final, ⟨_, below, hbelow, rfl, rfl⟩, rfl⟩
      exact ⟨_, above, below, ⟨cursor, ⟨rfl, rfl⟩, rfl⟩, ⟨_, hbelow, rfl⟩, rfl⟩
    · rintro ⟨_, _, below, ⟨_, ⟨rfl, rfl⟩, rfl⟩, ⟨final, hbelow, rfl⟩, rfl⟩
      exact ⟨final, ⟨final, below, hbelow, rfl, rfl⟩, rfl⟩

end Push

/-! ### Any number of pushes -/

/-- The words of each list are pushed on the same line. -/
def pushCalls (line : Nat) (first : Bool) (lists : List (List String)) : List Call :=
  lists.map fun tokens => ⟨.push, tokens, line, first⟩

section Calls

variable {stack next : Stack} {line : Nat} {first : Bool} {lists : List (List String)}
  {code : List Instruction}

lemma codeOf_cons_eq_ok_iff {call : Call} {calls : List Call} :
    Call.codeOf stack (call :: calls) = .ok code ↔ ∃ above below,
      (call.perform stack).2 = .ok above ∧
      Call.codeOf (call.perform stack).1 calls = .ok below ∧ code = above ++ below := by
  simp only [Call.codeOf, bind_eq_ok_iff, pure, Except.pure, Except.ok.injEq,
    eq_comm (a := code), exists_and_left]

/-- However the words of a push are cut into shorter pushes, these together do what it does. -/
theorem perform_flatten_iff (hsome : lists ≠ []) (hlists : ∀ tokens ∈ lists, tokens ≠ [])
    (hcount : lists.flatten.length ≤ Stack.maxPushed) :
    Call.perform ⟨.push, lists.flatten, line, first⟩ stack = (next, .ok code) ↔
      Call.codeOf stack (pushCalls line first lists) = .ok code ∧
      Call.run stack (pushCalls line first lists) = next := by
  induction lists generalizing stack code with
  | nil => exact absurd rfl hsome
  | cons tokens lists ih =>
    have hrun : ∀ calls, Call.run stack (⟨.push, tokens, line, first⟩ :: calls) =
        Call.run (Call.perform ⟨.push, tokens, line, first⟩ stack).1 calls := fun calls => rfl
    rw [pushCalls, List.map_cons, codeOf_cons_eq_ok_iff, hrun, List.flatten_cons]
    by_cases hlast : lists = []
    · subst hlast
      simp [Call.codeOf, Call.run, pure, Except.pure, Prod.ext_iff, and_comm]
    · have htokens : tokens ≠ [] := hlists tokens (by simp)
      have hothers : lists.flatten ≠ [] := by
        obtain ⟨other, hother⟩ := List.exists_mem_of_ne_nil lists hlast
        intro hnil
        exact hlists other (by simp [hother]) (List.flatten_eq_nil_iff.mp hnil other hother)
      have hrest : lists.flatten.length ≤ Stack.maxPushed := by
        simp only [List.flatten_cons, List.length_append] at hcount
        omega
      have hmore := fun (middle : Stack) (below : List Instruction) =>
        @ih middle below hlast (fun other hother => hlists other (by simp [hother])) hrest
      change stack.step .push (tokens ++ lists.flatten) line first = (next, .ok code) ↔ _
      rw [step_push_append_iff first first first htokens hothers hcount]
      constructor
      · rintro ⟨middle, above, below, habove, hbelow, rfl⟩
        obtain ⟨hcode, hnext⟩ := (hmore middle below).mp hbelow
        have hmiddle : (Call.perform ⟨.push, tokens, line, first⟩ stack).1 = middle :=
          congrArg Prod.fst habove
        rw [hmiddle]
        exact ⟨⟨above, below, congrArg Prod.snd habove, hcode, rfl⟩, hnext⟩
      · rintro ⟨⟨above, below, habove, hbelow, rfl⟩, hnext⟩
        exact ⟨_, above, below, Prod.ext rfl habove, (hmore _ below).mpr ⟨hbelow, hnext⟩, rfl⟩

end Calls

/-- On any stack, a push of at most fifteen words is accepted exactly if a push of the first ones
and a push of the others behind it are, and comes to the same code and the same cursor. If it is
refused the stack is as it was, although the first words alone may be accepted: the cause is then
that of the others. -/
theorem push_append (stack : Stack) (line : Nat) {tokens others : List String}
    (htokens : tokens ≠ []) (hothers : others ≠ []) (hcount : tokens.length + others.length ≤ 15)
    (whole front back : Bool) :
    (∀ next code, stack.step .push (tokens ++ others) line whole = (next, .ok code) ↔
      ∃ middle above below, stack.step .push tokens line front = (middle, .ok above) ∧
        middle.step .push others line back = (next, .ok below) ∧ code = above ++ below) ∧
    ∀ cause, (stack.step .push (tokens ++ others) line whole).2 = .error cause →
      (stack.step .push (tokens ++ others) line whole).1 = stack ∧
      ((∃ other, (stack.step .push tokens line front).2 = .error other) ∨
        ∃ middle above, stack.step .push tokens line front = (middle, .ok above) ∧
          (middle.step .push others line back).2 = .error cause) := by
  rw [← List.length_append] at hcount
  refine ⟨fun next code => step_push_append_iff whole front back htokens hothers hcount, ?_⟩
  intro cause hcause
  refine ⟨Stack.step_fst_of_error hcause, ?_⟩
  have hwhole : stack.pushCode (tokens ++ others) line = .error cause := step_eq_error_iff.mp hcause
  cases hpush : stack.pushCode tokens line with
  | error other => exact Or.inl ⟨other, step_eq_error_iff.mpr hpush⟩
  | ok result =>
    obtain ⟨cursor, above⟩ := result
    rw [pushCode_append_of_ok hpush hothers hcount] at hwhole
    refine Or.inr ⟨{ stack with cursor := some cursor }, above, ?_, ?_⟩
    · exact Stack.step_eq_accepted_iff.mpr ⟨cursor, hpush, rfl⟩
    · exact step_eq_error_iff.mpr (map_eq_error_iff.mp hwhole)

/-- There is room for two registers and none for the third. -/
theorem push_append_overflow :
    let stack : Stack := ⟨0xFFF, some 2⟩
    let overflow : Cause := .addressOutOfRange "PUSH" 0 .stackOverflow
    ["V1", "V2"] ≠ [] ∧ ["V3"] ≠ [] ∧ ["V1", "V2"].length + ["V3"].length ≤ 15 ∧
    stack.step .push ["V1", "V2", "V3"] 7 false = (stack, .error overflow) ∧
    ∃ middle above, stack.step .push ["V1", "V2"] 7 false = (middle, .ok above) ∧
      (middle.step .push ["V3"] 7 false).2 = .error overflow := by
  intro stack overflow
  have hcause : (stack.step .push (["V1", "V2"] ++ ["V3"]) 7 false).2 = .error overflow := by decide
  have hfront : ∀ other, (stack.step .push ["V1", "V2"] 7 false).2 ≠ .error other := by
    intro other
    have hcode : ((stack.step .push ["V1", "V2"] 7 false).2).isOk = true := by decide
    intro h
    simp [h, Except.isOk, Except.toBool] at hcode
  obtain ⟨-, hrefused⟩ :=
    push_append stack 7 (by simp : ["V1", "V2"] ≠ []) (by simp : ["V3"] ≠ []) (by decide)
      false false false
  obtain ⟨hstack, hother | hothers⟩ := hrefused overflow hcause
  · obtain ⟨other, hother⟩ := hother
    exact absurd hother (hfront other)
  · exact ⟨by simp, by simp, by decide, Prod.ext hstack hcause, hothers⟩

end Chip8.Proofs
