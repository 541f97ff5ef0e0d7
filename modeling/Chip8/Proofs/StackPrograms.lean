import Mathlib
import Chip8.Proofs.FaultOrigins
import Chip8.Proofs.Linking
import Chip8.Proofs.StackHistory

/-!
# Programs with a stack

In a source whose lines are well formed, the first pass refuses a line only for a rule of the stack:
`STACK_INIT` is the first line, the other directives need it, and the stack neither overflows nor
runs empty. The depth that decides is a count over the lines above. Main statement:
`scan_stack_program`.
-/

namespace Chip8.Proofs

/-! ### Rules of the stack -/

/-- The directive has the words that it takes: none, up to fifteen registers, or one register. -/
inductive TakesWords : Directive → List String → Prop
  | start : TakesWords .stackInit []
  | push {tokens : List String} {registers : List Nat} (hnonempty : tokens ≠ [])
      (hcount : tokens.length ≤ 15) (hregisters : NamesRegisters tokens registers) :
      TakesWords .push tokens
  | pop {token : String} {register : Nat}
      (hregister : Token.registerNumber? token.toList = some register) : TakesWords .pop [token]
  | reset : TakesWords .resetSp []

/-- Every line can be read, labels have names of their own, and directives have their words. -/
structure WellFormed (lines : List String) : Prop where
  read : ∀ k text, lines[k]? = some text →
    ∃ statement, Statement.read (k + 1) text = .ok statement
  named : ∀ k name, LabelLine lines k name → Token.isLabelName name = true
  distinct : ∀ j k name, LabelLine lines j name → LabelLine lines k name → j = k
  words : ∀ k directive tokens, StackLine lines k directive tokens → TakesWords directive tokens

/-- The first line with something on it. -/
def FirstLine (lines : List String) (k : Nat) : Prop :=
  (∃ text, lines[k]? = some text ∧ ¬Bare text) ∧
    ∀ j text, j < k → lines[j]? = some text → Bare text

/-- The first line with something on it is a `STACK_INIT`. -/
def StartsWithInit (lines : List String) : Prop :=
  ∃ k tokens, FirstLine lines k ∧ StackLine lines k .stackInit tokens

/-- The registers that a line pushes, less those that it pops. -/
def lineGrowth (text : String) : Int :=
  match Statement.read 1 text with
  | .ok (.stack directive tokens) => growth directive tokens
  | _ => 0

/-- The registers pushed by the first lines, less those popped. -/
def depthAbove (lines : List String) (k : Nat) : Int :=
  ((lines.take k).map lineGrowth).sum

/-- The rules for a stack with the given address at its top. -/
structure KeepsRules (top : Nat) (lines : List String) : Prop where
  once : ∀ j k tokens others, StackLine lines j .stackInit tokens →
    StackLine lines k .stackInit others → j = k
  first : ∀ k tokens, StackLine lines k .stackInit tokens → FirstLine lines k
  ready : ∀ k directive tokens, StackLine lines k directive tokens → directive ≠ .stackInit →
    StartsWithInit lines
  push : ∀ k tokens, StackLine lines k .push tokens → depthAbove lines k + tokens.length ≤ top
  pop : ∀ k tokens, StackLine lines k .pop tokens → 1 ≤ depthAbove lines k

/-- The line breaks a rule, and the cause says which. -/
inductive Breaks (top : Nat) (lines : List String) (k : Nat) : Cause → Prop
  | notFirst {tokens : List String} (hline : StackLine lines k .stackInit tokens)
      (hfirst : ¬FirstLine lines k) : Breaks top lines k (.notFirst .stackInit)
  | notReady {directive : Directive} {tokens : List String}
      (hline : StackLine lines k directive tokens) (hdirective : directive ≠ .stackInit)
      (hstart : ¬StartsWithInit lines) : Breaks top lines k (.stackNotReady directive)
  | overflow {tokens : List String} (hline : StackLine lines k .push tokens)
      (hstart : StartsWithInit lines) (hdepth : top < depthAbove lines k + tokens.length) :
      Breaks top lines k (.addressOutOfRange Directive.push.name 0 .stackOverflow)
  | empty {tokens : List String} (hline : StackLine lines k .pop tokens)
      (hstart : StartsWithInit lines) (hdepth : depthAbove lines k < 1) :
      Breaks top lines k (.addressOutOfRange Directive.pop.name (top + 1) .emptyStack)

/-! ### Directives with their words -/

/-- The causes for which a directive with its words is refused. -/
inductive Refused (stack : Stack) (first : Bool) : Directive → List String → Cause → Prop
  | notFirst {tokens : List String} (hfirst : first = false) :
      Refused stack first .stackInit tokens (.notFirst .stackInit)
  | notReady {directive : Directive} {tokens : List String} (hdirective : directive ≠ .stackInit)
      (hcursor : stack.cursor = none) :
      Refused stack first directive tokens (.stackNotReady directive)
  | overflow {cursor : Nat} {tokens : List String} (hcursor : stack.cursor = some cursor)
      (hroom : cursor < tokens.length) : Refused stack first .push tokens
        (.addressOutOfRange Directive.push.name 0 .stackOverflow)
  | empty {cursor : Nat} {tokens : List String} (hcursor : stack.cursor = some cursor)
      (hempty : stack.top ≤ cursor) : Refused stack first .pop tokens
        (.addressOutOfRange Directive.pop.name (cursor + 1) .emptyStack)

section Refused

variable {stack : Stack} {line : Nat} {first : Bool} {directive : Directive} {tokens : List String}
  {cause : Cause}

lemma code_of_not_ready (hdirective : directive ≠ .stackInit) (hcursor : stack.cursor = none) :
    stack.code directive tokens line first = .error (.stackNotReady directive) := by
  have hready : ∀ directive, stack.ready directive = .error (.stackNotReady directive) := by
    intro directive
    unfold Stack.ready
    rw [hcursor]
  cases directive with
  | stackInit => exact absurd rfl hdirective
  | push => simp [Stack.code, Stack.pushCode, hready, bind, Except.bind]
  | pop => simp [Stack.code, Stack.popCode, hready, bind, Except.bind]
  | resetSp => simp [Stack.code, Stack.resetCode, hready, bind, Except.bind]

lemma code_push_of_full {cursor : Nat} (h : TakesWords .push tokens)
    (hcursor : stack.cursor = some cursor) (hroom : cursor < tokens.length) :
    stack.code .push tokens line first =
      .error (.addressOutOfRange Directive.push.name 0 .stackOverflow) := by
  cases h with
  | push hnonempty hcount hregisters =>
    rw [hregisters.length_eq] at hroom
    have hready : stack.ready .push = .ok cursor := Stack.ready_eq_ok_iff.mpr hcursor
    have hread : Stack.registers .push tokens = .ok _ := registers_eq_ok_iff.mpr hregisters
    have hsave : Stack.saveAll line cursor _ = none := Stack.saveAll_eq_none_iff.mpr hroom
    have hmax : tokens.length ≤ Stack.maxPushed := hcount
    simp [Stack.code, Stack.pushCode, hready, hread, hsave, require, hnonempty, hmax, bind,
      Except.bind, throw, throwThe, MonadExceptOf.throw]

lemma code_pop_of_empty {cursor : Nat} (h : TakesWords .pop tokens)
    (hcursor : stack.cursor = some cursor) (hempty : stack.top ≤ cursor) :
    stack.code .pop tokens line first =
      .error (.addressOutOfRange Directive.pop.name (cursor + 1) .emptyStack) := by
  cases h with
  | pop hregister =>
    have hready : stack.ready .pop = .ok cursor := Stack.ready_eq_ok_iff.mpr hcursor
    have hread : Stack.registers .pop _ = .ok _ :=
      registers_eq_ok_iff.mpr (.cons hregister .nil)
    simp [Stack.code, Stack.popCode, hready, hread, requireCount, require, hempty.not_gt, bind,
      Except.bind]

/-- A directive with its words is accepted unless one of the causes applies. -/
lemma exists_code_or_refused (h : TakesWords directive tokens) (line : Nat) :
    (∃ cursor code, Expansion stack line first directive tokens cursor code) ∨
      ∃ cause, Refused stack first directive tokens cause := by
  cases hcursor : stack.cursor with
  | none =>
    by_cases hdirective : directive = .stackInit
    · subst hdirective
      cases h
      cases first with
      | true => exact Or.inl ⟨_, _, .start rfl⟩
      | false => exact Or.inr ⟨_, .notFirst rfl⟩
    · exact Or.inr ⟨_, .notReady hdirective hcursor⟩
  | some cursor =>
    cases h with
    | start =>
      cases first with
      | true => exact Or.inl ⟨_, _, .start rfl⟩
      | false => exact Or.inr ⟨_, .notFirst rfl⟩
    | @push _ registers hnonempty hcount hregisters =>
      by_cases hroom : cursor < tokens.length
      · exact Or.inr ⟨_, .overflow hcursor hroom⟩
      · cases hsave : Stack.saveAll line cursor registers with
        | none =>
          rw [Stack.saveAll_eq_none_iff, ← hregisters.length_eq] at hsave
          exact absurd hsave hroom
        | some result => exact Or.inl ⟨_, _, .push hcursor hnonempty hcount hregisters hsave⟩
    | pop hregister =>
      by_cases hempty : stack.top ≤ cursor
      · exact Or.inr ⟨_, .empty hcursor hempty⟩
      · exact Or.inl ⟨_, _, .pop hcursor hregister (Nat.lt_of_not_le hempty)⟩
    | reset => exact Or.inl ⟨_, _, .reset hcursor⟩

theorem code_eq_error_iff (h : TakesWords directive tokens) :
    stack.code directive tokens line first = .error cause ↔
      Refused stack first directive tokens cause := by
  have hrefused : ∀ cause, Refused stack first directive tokens cause →
      stack.code directive tokens line first = .error cause := by
    intro cause hcause
    cases hcause with
    | notFirst hfirst => simp [Stack.code, Stack.startCode, require, hfirst, bind, Except.bind]
    | notReady hdirective hcursor => exact code_of_not_ready hdirective hcursor
    | overflow hcursor hroom => exact code_push_of_full h hcursor hroom
    | empty hcursor hempty => exact code_pop_of_empty h hcursor hempty
  refine ⟨fun hcode => ?_, hrefused cause⟩
  rcases exists_code_or_refused h line with ⟨cursor, code, hexpansion⟩ | ⟨other, hother⟩
  · rw [code_eq_ok_iff.mpr hexpansion] at hcode
    simp at hcode
  · obtain rfl := Except.error.inj ((hrefused other hother).symm.trans hcode)
    exact hother

end Refused

/-! ### Lines above a line -/

/-- The first line with something on it is a `STACK_INIT` above the given line. -/
def StartedAbove (lines : List String) (k : Nat) : Prop :=
  ∃ j tokens, j < k ∧ FirstLine lines j ∧ StackLine lines j .stackInit tokens

section Lines

variable {lines : List String} {text : String} {j k : Nat} {directive other : Directive}
  {tokens others : List String}

lemma StackLine.unique (h : StackLine lines k directive tokens)
    (hother : StackLine lines k other others) : directive = other ∧ tokens = others := by
  obtain ⟨text, htext, hread⟩ := h
  obtain ⟨text', htext', hread'⟩ := hother
  obtain rfl := Option.some.inj (htext.symm.trans htext')
  exact Statement.stack.inj (Except.ok.inj (hread.symm.trans hread'))

lemma FirstLine.unique (hj : FirstLine lines j) (hk : FirstLine lines k) : j = k := by
  obtain ⟨⟨text, htext, hbare⟩, habove⟩ := hj
  obtain ⟨⟨text', htext', hbare'⟩, habove'⟩ := hk
  rcases Nat.lt_trichotomy j k with hlt | rfl | hlt
  · exact absurd (habove' j text hlt htext) hbare
  · rfl
  · exact absurd (habove k text' hlt htext') hbare'

lemma StartedAbove.startsWithInit (h : StartedAbove lines k) : StartsWithInit lines := by
  obtain ⟨j, tokens, -, hfirst, hline⟩ := h
  exact ⟨j, tokens, hfirst, hline⟩

lemma StartsWithInit.startedAbove (h : StartsWithInit lines)
    (hline : StackLine lines k directive tokens) (hdirective : directive ≠ .stackInit) :
    StartedAbove lines k := by
  obtain ⟨j, others, hfirst, hinit⟩ := h
  refine ⟨j, others, ?_, hfirst, hinit⟩
  rcases Nat.lt_trichotomy j k with hlt | rfl | hlt
  · exact hlt
  · exact absurd (hline.unique hinit).1 hdirective
  · obtain ⟨text, htext, hread⟩ := hline
    exact absurd (hfirst.2 k text hlt htext) (not_bare_of_read hread (by simp))

lemma startedAbove_succ : StartedAbove lines (k + 1) ↔ StartedAbove lines k ∨
    FirstLine lines k ∧ ∃ tokens, StackLine lines k .stackInit tokens := by
  constructor
  · rintro ⟨j, tokens, hj, hfirst, hline⟩
    rcases Nat.lt_succ_iff_lt_or_eq.mp hj with hlt | rfl
    · exact Or.inl ⟨j, tokens, hlt, hfirst, hline⟩
    · exact Or.inr ⟨hfirst, tokens, hline⟩
  · rintro (⟨j, tokens, hj, hfirst, hline⟩ | ⟨hfirst, tokens, hline⟩)
    · exact ⟨j, tokens, by omega, hfirst, hline⟩
    · exact ⟨k, tokens, by omega, hfirst, hline⟩

lemma depthAbove_succ (h : lines[k]? = some text) :
    depthAbove lines (k + 1) = depthAbove lines k + lineGrowth text := by
  unfold depthAbove
  rw [List.take_add_one, h, Option.toList_some, List.map_append, List.sum_append]
  simp

lemma lineGrowth_of_stack {line : Nat}
    (h : Statement.read line text = .ok (.stack directive tokens)) :
    lineGrowth text = growth directive tokens := by
  unfold lineGrowth
  rw [read_of_read h]
  rfl

lemma lineGrowth_of_read {line : Nat} {statement : Statement}
    (h : Statement.read line text = .ok statement)
    (hstatement : ∀ directive tokens, statement ≠ .stack directive tokens) :
    lineGrowth text = 0 := by
  unfold lineGrowth
  rw [read_of_read h]
  cases statement with
  | stack directive tokens => exact absurd rfl (hstatement directive tokens)
  | blank => rfl
  | label => rfl
  | instruction => rfl

lemma depthAbove_of_bare (h : ∀ j text, j < k → lines[j]? = some text → Bare text) :
    depthAbove lines k = 0 := by
  unfold depthAbove
  apply List.sum_eq_zero
  intro change hchange
  obtain ⟨text, htext, rfl⟩ := List.mem_map.mp hchange
  obtain ⟨j, hj⟩ := List.mem_iff_getElem?.mp htext
  rw [List.getElem?_take] at hj
  split at hj
  · next hlt => exact lineGrowth_of_read ((h j text hlt hj).read_eq 1) (by simp)
  · simp at hj

end Lines

/-! ### The count along the first pass -/

/-- The draft knows whether a line has been read, and its cursor is where the depth puts it. -/
structure CountsDepth (lines : List String) (k : Nat) (draft : Draft) : Prop where
  begun : draft.begun = true ↔ ∃ j text, j < k ∧ lines[j]? = some text ∧ ¬Bare text
  idle : draft.stack.cursor = none → ¬StartedAbove lines k
  ready : ∀ cursor, draft.stack.cursor = some cursor →
    StartedAbove lines k ∧ (cursor : Int) = draft.stack.top - depthAbove lines k

section Count

variable {lines : List String} {k : Nat} {text : String} {draft next : Draft}
  {statement : Statement} {code : List Instruction} {directive : Directive} {tokens : List String}

lemma CountsDepth.firstLine_iff (h : CountsDepth lines k draft)
    (hline : StackLine lines k directive tokens) : FirstLine lines k ↔ draft.begun = false := by
  rw [← Bool.not_eq_true, h.begun]
  constructor
  · rintro hfirst ⟨j, text, hj, htext, hbare⟩
    exact hbare (hfirst.2 j text hj htext)
  · intro hnone
    obtain ⟨text, htext, hread⟩ := hline
    refine ⟨⟨text, htext, not_bare_of_read hread (by simp)⟩, ?_⟩
    intro j other hj hother
    by_contra hbare
    exact hnone ⟨j, other, hj, hother, hbare⟩

lemma Step.begun_iff (h : Step (k + 1) draft statement code next)
    (hread : Statement.read (k + 1) text = .ok statement) :
    next.begun = true ↔ draft.begun = true ∨ ¬Bare text := by
  cases h with
  | blank => simp [bare_of_read hread]
  | label => simp [not_bare_of_read hread]
  | stack => simp [not_bare_of_read hread]
  | instruction => simp [not_bare_of_read hread]

lemma CountsDepth.begun_succ (h : CountsDepth lines k draft) (htext : lines[k]? = some text)
    (hread : Statement.read (k + 1) text = .ok statement)
    (hstep : Step (k + 1) draft statement code next) :
    next.begun = true ↔ ∃ j text, j < k + 1 ∧ lines[j]? = some text ∧ ¬Bare text := by
  rw [hstep.begun_iff hread, h.begun]
  constructor
  · rintro (⟨j, other, hj, hother, hbare⟩ | hbare)
    · exact ⟨j, other, by omega, hother, hbare⟩
    · exact ⟨k, text, by omega, htext, hbare⟩
  · rintro ⟨j, other, hj, hother, hbare⟩
    rcases Nat.lt_succ_iff_lt_or_eq.mp hj with hlt | rfl
    · exact Or.inl ⟨j, other, hlt, hother, hbare⟩
    · obtain rfl := Option.some.inj (htext.symm.trans hother)
      exact Or.inr hbare

/-- A line that is no directive keeps the cursor and the depth. -/
lemma CountsDepth.step_of_not_stack (h : CountsDepth lines k draft) (htext : lines[k]? = some text)
    (hread : Statement.read (k + 1) text = .ok statement)
    (hstep : Step (k + 1) draft statement code next)
    (hstatement : ∀ directive tokens, statement ≠ .stack directive tokens)
    (hstack : next.stack = draft.stack) : CountsDepth lines (k + 1) next := by
  have hline := not_stackLine_of_read htext hread hstatement .stackInit
  have hstarted : StartedAbove lines (k + 1) ↔ StartedAbove lines k := by
    rw [startedAbove_succ]
    exact or_iff_left fun hfirst => hfirst.2.elim hline
  refine ⟨h.begun_succ htext hread hstep, ?_, ?_⟩
  · rw [hstack, hstarted]
    exact h.idle
  · rw [hstack, hstarted, depthAbove_succ htext, lineGrowth_of_read hread hstatement, add_zero]
    exact h.ready

/-- A directive moves the cursor as it moves the depth. -/
theorem CountsDepth.step (h : CountsDepth lines k draft) (htext : lines[k]? = some text)
    (hread : Statement.read (k + 1) text = .ok statement)
    (hstep : Step (k + 1) draft statement code next) : CountsDepth lines (k + 1) next := by
  have hbegun := h.begun_succ htext hread hstep
  cases hstep with
  | blank => exact h.step_of_not_stack htext hread .blank (by simp) rfl
  | label hbind => exact h.step_of_not_stack htext hread (.label hbind) (by simp) rfl
  | instruction => exact h.step_of_not_stack htext hread .instruction (by simp) rfl
  | @stack directive tokens cursor code hcode =>
    have hexpansion := code_eq_ok_iff.mp hcode
    have hline : StackLine lines k directive tokens := ⟨text, htext, hread⟩
    have hgrowth := lineGrowth_of_stack hread
    refine ⟨hbegun, by simp, ?_⟩
    intro other hother
    obtain rfl := Option.some.inj hother
    rw [depthAbove_succ htext, hgrowth]
    rcases hexpansion.cursor_eq with ⟨rfl, htop⟩ | ⟨hdirective, above, habove, hcursor⟩
    · -- Only blank lines stand above a `STACK_INIT`.
      cases hexpansion with
      | start hfirst =>
        have hfirst := (h.firstLine_iff hline).mpr (by simpa using hfirst)
        refine ⟨startedAbove_succ.mpr (Or.inr ⟨hfirst, _, hline⟩), ?_⟩
        simp [depthAbove_of_bare hfirst.2, growth]
    · obtain ⟨hready, hcount⟩ := h.ready above habove
      refine ⟨startedAbove_succ.mpr (Or.inl hready), ?_⟩
      rw [hcursor, hcount]
      ring

end Count

section Scan

variable {target : Target} {lines : List String} {k : Nat} {text : String} {draft : Draft}

theorem countsDepth_of_scan (hk : k ≤ lines.length)
    (h : scan target (lines.take k) = .ok draft) : CountsDepth lines k draft := by
  have hnew : CountsDepth lines 0 (Draft.new target) := by
    refine ⟨by simp [Draft.new], ?_, by simp [Draft.new, Stack.ofMemorySize]⟩
    rintro - ⟨j, tokens, hj, -⟩
    omega
  refine scan_take_induction hnew ?_ hk h
  intro k text above statement code next htext _ hread hstep hcounts
  exact hcounts.step htext hread hstep

end Scan

/-! ### The line that is refused -/

section Refusal

variable {target : Target} {lines : List String} {k : Nat} {text : String} {draft : Draft}
  {directive : Directive} {tokens : List String} {cause : Cause} {fault : Fault}

lemma CountsDepth.breaks_of_refused (h : CountsDepth lines k draft)
    (hbound : ∀ cursor, draft.stack.cursor = some cursor → cursor ≤ draft.stack.top)
    (hline : StackLine lines k directive tokens)
    (hrefused : Refused draft.stack (!draft.begun) directive tokens cause) :
    Breaks draft.stack.top lines k cause := by
  cases hrefused with
  | notFirst hfirst =>
    refine .notFirst hline ?_
    rw [h.firstLine_iff hline]
    simpa using hfirst
  | notReady hdirective hcursor =>
    refine .notReady hline hdirective ?_
    intro hstart
    exact h.idle hcursor (hstart.startedAbove hline hdirective)
  | @overflow cursor _ hcursor hroom =>
    obtain ⟨hstarted, hcount⟩ := h.ready cursor hcursor
    exact .overflow hline hstarted.startsWithInit (by omega)
  | @empty cursor _ hcursor hempty =>
    obtain ⟨hstarted, hcount⟩ := h.ready cursor hcursor
    obtain rfl : cursor = draft.stack.top := Nat.le_antisymm (hbound cursor hcursor) hempty
    exact .empty hline hstarted.startsWithInit (by omega)

lemma CountsDepth.exists_cursor (h : CountsDepth lines k draft)
    (hline : StackLine lines k directive tokens) (hdirective : directive ≠ .stackInit)
    (hstart : StartsWithInit lines) : ∃ cursor, draft.stack.cursor = some cursor := by
  rw [← Option.ne_none_iff_exists']
  intro hcursor
  exact h.idle hcursor (hstart.startedAbove hline hdirective)

lemma CountsDepth.refused_of_breaks (h : CountsDepth lines k draft)
    (hbound : ∀ cursor, draft.stack.cursor = some cursor → cursor ≤ draft.stack.top)
    (hline : StackLine lines k directive tokens)
    (hbreaks : Breaks draft.stack.top lines k cause) :
    Refused draft.stack (!draft.begun) directive tokens cause := by
  cases hbreaks with
  | notFirst hline' hfirst =>
    obtain ⟨rfl, rfl⟩ := hline.unique hline'
    rw [h.firstLine_iff hline] at hfirst
    exact .notFirst (by simpa using hfirst)
  | notReady hline' hdirective hstart =>
    obtain ⟨rfl, rfl⟩ := hline.unique hline'
    refine .notReady hdirective ?_
    cases hcursor : draft.stack.cursor with
    | none => rfl
    | some cursor => exact absurd (h.ready cursor hcursor).1.startsWithInit hstart
  | overflow hline' hstart hdepth =>
    obtain ⟨rfl, rfl⟩ := hline.unique hline'
    obtain ⟨cursor, hcursor⟩ := h.exists_cursor hline (by simp) hstart
    have hcount := (h.ready cursor hcursor).2
    exact .overflow hcursor (by omega)
  | empty hline' hstart hdepth =>
    obtain ⟨rfl, rfl⟩ := hline.unique hline'
    obtain ⟨cursor, hcursor⟩ := h.exists_cursor hline (by simp) hstart
    have hcount := (h.ready cursor hcursor).2
    have hle := hbound cursor hcursor
    obtain rfl : cursor = draft.stack.top := by omega
    exact .empty hcursor le_rfl

lemma Breaks.exists_stackLine {top : Nat} (h : Breaks top lines k cause) :
    ∃ directive tokens, StackLine lines k directive tokens := by
  cases h with
  | notFirst hline => exact ⟨_, _, hline⟩
  | notReady hline => exact ⟨_, _, hline⟩
  | overflow hline => exact ⟨_, _, hline⟩
  | empty hline => exact ⟨_, _, hline⟩

lemma Scan.bind_of_wellFormed {blocks : List (List Instruction)}
    (h : Scan target (lines.take k) blocks draft) (hlines : WellFormed lines) {name : String}
    (hname : LabelLine lines k name) (binding : Binding) (hbinding : binding.name = name) :
    ∃ table, draft.table.bind binding = .ok table := by
  apply exists_bind binding
  · rw [hbinding]
    exact hlines.named k name hname
  · rw [indexOf?_eq_none_iff, SymbolTable.find?_eq_none_iff, hbinding]
    rintro other hother rfl
    obtain ⟨j, ⟨text, htext, hread⟩, -, -⟩ := h.mem_bindings_iff.mp hother
    rw [List.getElem?_take] at htext
    split at htext
    · next hlt =>
      have hsame := hlines.distinct j k other.name ⟨text, htext, hread⟩ hname
      omega
    · simp at htext

lemma add_eq_error_iff_breaks (hlines : WellFormed lines) (htext : lines[k]? = some text)
    (hscan : scan target (lines.take k) = .ok draft) {statement : Statement}
    (hread : Statement.read (k + 1) text = .ok statement) :
    draft.add (k + 1) statement = .error cause ↔
      Breaks (target.memorySize.toNat - 1) lines k cause := by
  obtain ⟨blocks, hblocks⟩ := scan_eq_ok_iff.mp hscan
  have hlt : k < lines.length := (List.getElem?_eq_some_iff.mp htext).1
  have hcount := countsDepth_of_scan (by omega) hscan
  have hnone : (∀ directive tokens, statement ≠ .stack directive tokens) →
      ¬Breaks (target.memorySize.toNat - 1) lines k cause := by
    intro hstatement hbreaks
    obtain ⟨directive, tokens, hline⟩ := hbreaks.exists_stackLine
    exact not_stackLine_of_read htext hread hstatement directive tokens hline
  cases statement with
  | blank => simpa [Draft.add, pure, Except.pure] using hnone (by simp)
  | instruction => simpa [Draft.add, pure, Except.pure] using hnone (by simp)
  | label name =>
    obtain ⟨table, hbind⟩ := hblocks.bind_of_wellFormed hlines ⟨text, htext, hread⟩
      ⟨name, draft.code.size, k + 1⟩ rfl
    simpa [Draft.add, hbind, bind, Except.bind, pure, Except.pure] using hnone (by simp)
  | stack directive tokens =>
    have hline : StackLine lines k directive tokens := ⟨text, htext, hread⟩
    have hstep : draft.add (k + 1) (.stack directive tokens) = .error cause ↔
        (draft.stack.step directive tokens (k + 1) (!draft.begun)).2 = .error cause := by
      simp [Draft.add, bind_eq_error_iff, pure, Except.pure]
    rw [hstep, step_eq_error_iff, code_eq_error_iff (hlines.words k directive tokens hline),
      ← hblocks.stack_top]
    exact ⟨hcount.breaks_of_refused hblocks.cursor_le hline,
      hcount.refused_of_breaks hblocks.cursor_le hline⟩

/-- In a well-formed source, a line is refused exactly if it breaks a rule. -/
theorem addLine_eq_error_iff_breaks (hlines : WellFormed lines) (htext : lines[k]? = some text)
    (hscan : scan target (lines.take k) = .ok draft) :
    draft.addLine (k + 1) text = .error fault ↔ ∃ cause, fault = .source (k + 1) cause ∧
      Breaks (target.memorySize.toNat - 1) lines k cause := by
  obtain ⟨statement, hread⟩ := hlines.read k text htext
  unfold Draft.addLine
  rw [atLine_eq_error_iff, hread]
  simp only [bind, Except.bind, add_eq_error_iff_breaks hlines htext hscan hread]
  grind

end Refusal

/-- The line breaks a rule, and no line above it does. -/
def FirstBreak (top : Nat) (lines : List String) (k : Nat) (cause : Cause) : Prop :=
  Breaks top lines k cause ∧ ∀ j other, j < k → ¬Breaks top lines j other

section Program

variable {target : Target} {lines : List String} {fault : Fault} {number : Nat}

lemma exists_scan_take (hlines : WellFormed lines) {k : Nat} (hk : k ≤ lines.length)
    (h : ∀ j other, j < k → ¬Breaks (target.memorySize.toNat - 1) lines j other) :
    ∃ draft, scan target (lines.take k) = .ok draft := by
  induction k with
  | zero => exact ⟨_, scan_nil⟩
  | succ k ih =>
    obtain ⟨draft, hdraft⟩ := ih (by omega) fun j other hj => h j other (by omega)
    have htext := List.getElem?_eq_getElem (Nat.lt_of_succ_le hk)
    rw [scan_take_succ htext, hdraft]
    cases hline : draft.addLine (k + 1) lines[k] with
    | ok next => exact ⟨next, hline⟩
    | error fault =>
      obtain ⟨cause, -, hbreaks⟩ := (addLine_eq_error_iff_breaks hlines htext hdraft).mp hline
      exact absurd hbreaks (h k cause (by omega))

theorem stopsAt_iff (hlines : WellFormed lines) : StopsAt target lines number fault ↔
    ∃ k cause, number = k + 1 ∧ fault = .source (k + 1) cause ∧
      FirstBreak (target.memorySize.toNat - 1) lines k cause := by
  constructor
  · intro hstop
    obtain ⟨k, draft, text, rfl, htext, hdraft, hline⟩ := hstop.exists_line
    obtain ⟨cause, rfl, hbreaks⟩ := (addLine_eq_error_iff_breaks hlines htext hdraft).mp hline
    refine ⟨k, cause, rfl, rfl, hbreaks, ?_⟩
    intro j other hj hother
    obtain ⟨directive, tokens, text', htext', -⟩ := hother.exists_stackLine
    obtain ⟨above, habove⟩ := hstop.above j (by omega)
    obtain ⟨next, hnext⟩ := hstop.above (j + 1) (by omega)
    have hfault := (addLine_eq_error_iff_breaks hlines htext' habove).mpr ⟨other, rfl, hother⟩
    rw [scan_take_succ htext', habove] at hnext
    change above.addLine (j + 1) text' = .ok next at hnext
    simp [hfault] at hnext
  · rintro ⟨k, cause, rfl, rfl, hbreaks, hfirst⟩
    obtain ⟨directive, tokens, text, htext, -⟩ := hbreaks.exists_stackLine
    have hlt : k < lines.length := (List.getElem?_eq_some_iff.mp htext).1
    refine ⟨?_, ?_⟩
    · intro j hj
      exact exists_scan_take hlines (by omega) fun i other hi => hfirst i other (by omega)
    · obtain ⟨draft, hdraft⟩ := exists_scan_take hlines hlt.le hfirst
      rw [scan_take_succ htext, hdraft]
      exact (addLine_eq_error_iff_breaks hlines htext hdraft).mpr ⟨cause, rfl, hbreaks⟩

lemma exists_firstBreak {top k : Nat} {cause : Cause} (h : Breaks top lines k cause) :
    ∃ j other, FirstBreak top lines j other := by
  induction k using Nat.strongRecOn generalizing cause with
  | _ k ih =>
    by_cases hearlier : ∃ j other, j < k ∧ Breaks top lines j other
    · obtain ⟨j, other, hj, hother⟩ := hearlier
      exact ih j hj hother
    · exact ⟨k, cause, h, fun j other hj hother => hearlier ⟨j, other, hj, hother⟩⟩

lemma keepsRules_iff {top : Nat} :
    KeepsRules top lines ↔ ∀ k cause, ¬Breaks top lines k cause := by
  constructor
  · intro hrules k cause hbreaks
    cases hbreaks with
    | notFirst hline hfirst => exact hfirst (hrules.first k _ hline)
    | notReady hline hdirective hstart => exact hstart (hrules.ready k _ _ hline hdirective)
    | overflow hline _ hdepth => exact absurd (hrules.push k _ hline) (not_le_of_gt hdepth)
    | empty hline _ hdepth => exact absurd (hrules.pop k _ hline) (not_le_of_gt hdepth)
  · intro hnone
    have hfirst : ∀ k tokens, StackLine lines k .stackInit tokens → FirstLine lines k := by
      intro k tokens hline
      by_contra hfirst
      exact hnone k _ (.notFirst hline hfirst)
    have hready : ∀ k directive tokens, StackLine lines k directive tokens →
        directive ≠ .stackInit → StartsWithInit lines := by
      intro k directive tokens hline hdirective
      by_contra hstart
      exact hnone k _ (.notReady hline hdirective hstart)
    refine ⟨?_, hfirst, hready, ?_, ?_⟩
    · intro j k tokens others hj hk
      exact (hfirst j tokens hj).unique (hfirst k others hk)
    · intro k tokens hline
      by_contra hdepth
      exact hnone k _ (.overflow hline (hready k _ _ hline (by simp)) (lt_of_not_ge hdepth))
    · intro k tokens hline
      by_contra hdepth
      exact hnone k _ (.empty hline (hready k _ _ hline (by simp)) (lt_of_not_ge hdepth))

/-- The first pass accepts a well-formed source exactly if it keeps the rules of the stack, and
otherwise refuses the first line that breaks one, for that rule. -/
theorem scan_stack_program (target : Target) (hlines : WellFormed lines) :
    ((∃ draft, scan target lines = .ok draft) ↔
      KeepsRules (target.memorySize.toNat - 1) lines) ∧
    ∀ fault, scan target lines = .error fault ↔ ∃ k cause, fault = .source (k + 1) cause ∧
      FirstBreak (target.memorySize.toNat - 1) lines k cause := by
  have hfault : ∀ fault, scan target lines = .error fault ↔ ∃ k cause,
      fault = .source (k + 1) cause ∧
      FirstBreak (target.memorySize.toNat - 1) lines k cause := by
    intro fault
    simp only [scan_eq_error_iff, stopsAt_iff hlines]
    constructor
    · rintro ⟨_, k, cause, rfl, hcause, hbreak⟩
      exact ⟨k, cause, hcause, hbreak⟩
    · rintro ⟨k, cause, hcause, hbreak⟩
      exact ⟨k + 1, k, cause, rfl, hcause, hbreak⟩
  refine ⟨?_, hfault⟩
  rw [keepsRules_iff]
  constructor
  · rintro ⟨draft, hdraft⟩ k cause hbreaks
    obtain ⟨j, other, hbreak⟩ := exists_firstBreak hbreaks
    have herror := (hfault _).mpr ⟨j, other, rfl, hbreak⟩
    simp [hdraft] at herror
  · intro hnone
    cases hscan : scan target lines with
    | ok draft => exact ⟨draft, rfl⟩
    | error fault =>
      obtain ⟨k, cause, -, hbreak⟩ := (hfault fault).mp hscan
      exact absurd hbreak.1 (hnone k cause)

end Program

/-- Behind a push and a pop the stack is empty again, and the label counts for nothing. -/
theorem scan_stack_program_empty :
    WellFormed ["; stack", "STACK_INIT", "LABEL a", "push V1", "POP V2", "POP V3"] ∧
    scan {} ["; stack", "STACK_INIT", "LABEL a", "push V1", "POP V2", "POP V3"] =
      .error (.source 6 (.addressOutOfRange "POP" 0x1000 .emptyStack)) ∧
    ¬KeepsRules 0xFFF ["; stack", "STACK_INIT", "LABEL a", "push V1", "POP V2", "POP V3"] ∧
    FirstBreak 0xFFF ["; stack", "STACK_INIT", "LABEL a", "push V1", "POP V2", "POP V3"] 5
      (.addressOutOfRange "POP" 0x1000 .emptyStack) := by
  have hread : ∀ k text,
      ["; stack", "STACK_INIT", "LABEL a", "push V1", "POP V2", "POP V3"][k]? = some text →
      ∃ statement, Statement.read (k + 1) text = .ok statement ∧
        (k, statement) ∈ [(0, .blank), (1, .stack .stackInit []), (2, .label "a"),
          (3, .stack .push ["V1"]), (4, .stack .pop ["V2"]), (5, .stack .pop ["V3"])] := by
    intro k text htext
    rcases k with _ | _ | _ | _ | _ | _ | k
    · exact ⟨.blank, Option.some.inj htext ▸ by rfl, by simp⟩
    · exact ⟨.stack .stackInit [], Option.some.inj htext ▸ by rfl, by simp⟩
    · exact ⟨.label "a", Option.some.inj htext ▸ by rfl, by simp⟩
    · exact ⟨.stack .push ["V1"], Option.some.inj htext ▸ by rfl, by simp⟩
    · exact ⟨.stack .pop ["V2"], Option.some.inj htext ▸ by rfl, by simp⟩
    · exact ⟨.stack .pop ["V3"], Option.some.inj htext ▸ by rfl, by simp⟩
    · simp at htext
  have hlabel : ∀ k name, LabelLine
      ["; stack", "STACK_INIT", "LABEL a", "push V1", "POP V2", "POP V3"] k name →
      k = 2 ∧ name = "a" := by
    rintro k name ⟨text, htext, hname⟩
    obtain ⟨statement, hstatement, hmem⟩ := hread k text htext
    obtain rfl := Except.ok.inj (hname.symm.trans hstatement)
    simpa using hmem
  have hlines : WellFormed ["; stack", "STACK_INIT", "LABEL a", "push V1", "POP V2", "POP V3"] := by
    refine ⟨?_, ?_, ?_, ?_⟩
    · intro k text htext
      obtain ⟨statement, hstatement, -⟩ := hread k text htext
      exact ⟨statement, hstatement⟩
    · intro k name hname
      rw [(hlabel k name hname).2]
      decide
    · intro j k name hj hk
      rw [(hlabel j name hj).1, (hlabel k name hk).1]
    · rintro k directive tokens ⟨text, htext, hline⟩
      obtain ⟨statement, hstatement, hmem⟩ := hread k text htext
      obtain rfl := Except.ok.inj (hline.symm.trans hstatement)
      simp at hmem
      rcases hmem with ⟨-, rfl, rfl⟩ | ⟨-, rfl, rfl⟩ | ⟨-, rfl, rfl⟩ | ⟨-, rfl, rfl⟩
      · exact .start
      · exact .push (by simp) (by simp) (.cons (by rfl) .nil)
      · exact .pop (by rfl)
      · exact .pop (by rfl)
  have hfault : (scan {} ["; stack", "STACK_INIT", "LABEL a", "push V1", "POP V2", "POP V3"]).map
      (fun draft => draft.code.size) =
      .error (.source 6 (.addressOutOfRange "POP" 0x1000 .emptyStack)) := by
    decide +kernel
  have hfault := map_eq_error_iff.mp hfault
  obtain ⟨haccepted, hrefused⟩ := scan_stack_program {} hlines
  refine ⟨hlines, hfault, ?_, ?_⟩
  · intro hrules
    obtain ⟨draft, hdraft⟩ := haccepted.mpr hrules
    simp [hdraft] at hfault
  · obtain ⟨k, cause, hcause, hbreak⟩ := (hrefused _).mp hfault
    obtain ⟨hk, rfl⟩ := Fault.source.inj hcause
    obtain rfl : k = 5 := by omega
    exact hbreak

end Chip8.Proofs
