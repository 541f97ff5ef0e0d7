import Mathlib
import Chip8.Proofs.Layout

/-!
# Which fault is reported

A fault of the target comes first, then the first line that the first pass refuses, then a label
that no instruction follows, then the first instruction without a word. Main statement:
`assemble_first_failure`.
-/

namespace Chip8.Proofs

/-- The first pass accepts the lines above the one with the number and refuses that one. -/
structure StopsAt (target : Target) (lines : List String) (number : Nat) (fault : Fault) :
    Prop where
  above : ∀ k < number, ∃ draft, scan target (lines.take k) = .ok draft
  refused : scan target (lines.take number) = .error fault

/-- The fault that decides, in the order in which faults are looked for. -/
inductive FirstFailure (target : Target) (lines : List String) : Fault → Prop
  | target {fault : TargetFault} (hfault : target.fault? = some fault) :
      FirstFailure target lines (.target fault)
  | line {number : Nat} {fault : Fault} (htarget : target.fault? = none)
      (hstop : StopsAt target lines number fault) : FirstFailure target lines fault
  | trailing {draft : Draft} {label : Binding} {k : Nat} (htarget : target.fault? = none)
      (hscan : scan target lines = .ok draft) (hlabel : label ∈ draft.table.bindings)
      (hbehind : draft.code.size ≤ label.index)
      (hlast : ∀ other ∈ draft.table.bindings, other.line ≤ label.line)
      (hline : LabelLine lines k label.name) :
      FirstFailure target lines (.source (k + 1) (.trailingLabel label.name))
  | word {draft above next : Draft} {instruction : Instruction} {before after : List Instruction}
      {k : Nat} {cause : Cause} (htarget : target.fault? = none)
      (hscan : scan target lines = .ok draft)
      (hlabels : ∀ label ∈ draft.table.bindings, label.index < draft.code.size)
      (hcode : draft.code.toList = before ++ instruction :: after)
      (hbefore : ∀ earlier ∈ before, ∃ word, earlier.word target draft.table = .ok word)
      (habove : scan target (lines.take k) = .ok above) (hlow : above.code.size ≤ before.length)
      (hnext : scan target (lines.take (k + 1)) = .ok next) (hhigh : before.length < next.code.size)
      (hword : instruction.word target draft.table = .error (.source (k + 1) cause)) :
      FirstFailure target lines (.source (k + 1) cause)

/-- The line holds nothing but blanks and a comment. -/
def Bare (text : String) : Prop :=
  ∀ c ∈ text.toList.takeWhile (· != ';'), isBlank c = true

/-- The fault names a line of the source with something on it. -/
def NamesLine (lines : List String) (fault : Fault) : Prop :=
  ∃ number text rest, fault.line? = some number ∧ 1 ≤ number ∧ number ≤ lines.length ∧
    lines[number - 1]? = some text ∧ ¬Bare text ∧ fault.message = s!"line {number}: " ++ rest

/-! ### Lines with nothing on them -/

lemma words_eq_nil_iff {text : List Char} : words text = [] ↔ ∀ c ∈ text, isBlank c = true := by
  induction text with
  | nil => simp [words]
  | cons c text ih =>
    rw [List.forall_mem_cons]
    by_cases hblank : isBlank c = true
    · have hwords : words (c :: text) = words text := words_append_cons hblank [] text
      rw [hwords, ih]
      simp [hblank]
    · -- The first word starts with the character.
      have hne : words (c :: text) ≠ [] := by
        unfold words
        rw [List.splitOnP_cons_eq_if_modifyHead, if_neg hblank]
        cases hsplit : text.splitOnP isBlank with
        | nil => exact absurd hsplit (List.splitOnP_ne_nil isBlank text)
        | cons first others => simp
      simp [hne, hblank]

lemma Bare.read_eq {text : String} (h : Bare text) (line : Nat) :
    Statement.read line text = .ok .blank := by
  unfold Statement.read tokensOf
  rw [words_eq_nil_iff.mpr h]
  rfl

lemma bare_of_read {line : Nat} {text : String} (h : Statement.read line text = .ok .blank) :
    Bare text := by
  unfold Statement.read Statement.ofTokens at h
  split at h
  · next htokens => exact words_eq_nil_iff.mp (List.map_eq_nil_iff.mp htokens)
  · split at h
    · split at h <;> simp at h
    · split at h
      · simp at h
      · obtain ⟨instruction, -, hinstruction⟩ := map_eq_ok_iff.mp h
        simp at hinstruction

lemma not_bare_of_read {text : String} {line : Nat} {statement : Statement}
    (hread : Statement.read line text = .ok statement) (hblank : statement ≠ .blank) :
    ¬Bare text := by
  intro hbare
  rw [hbare.read_eq, Except.ok.injEq] at hread
  exact hblank hread.symm

/-! ### The first pass -/

section FirstPass

variable {target : Target} {lines : List String} {fault : Fault} {number : Nat}

lemma scan_append_error {first : List String} (h : scan target first = .error fault)
    (second : List String) : scan target (first ++ second) = .error fault := by
  rw [scan_append, h]
  rfl

lemma StopsAt.scan_append (h : StopsAt target lines number fault) (others : List String) :
    scan target (lines.take number ++ others) = .error fault :=
  scan_append_error h.refused others

lemma StopsAt.scan_eq (h : StopsAt target lines number fault) :
    scan target lines = .error fault := by
  have happend := h.scan_append (lines.drop number)
  rwa [List.take_append_drop] at happend

theorem scan_eq_error_iff :
    scan target lines = .error fault ↔ ∃ number, StopsAt target lines number fault := by
  constructor
  · intro h
    classical
    -- The least number of lines that are refused, whatever their fault.
    have hexists : ∃ number other, scan target (lines.take number) = .error other :=
      ⟨lines.length, fault, by rwa [List.take_length]⟩
    have habove : ∀ k < Nat.find hexists, ∃ draft, scan target (lines.take k) = .ok draft := by
      intro k hk
      cases hscan : scan target (lines.take k) with
      | ok draft => exact ⟨draft, rfl⟩
      | error other => exact absurd ⟨other, hscan⟩ (Nat.find_min hexists hk)
    obtain ⟨other, hrefused⟩ := Nat.find_spec hexists
    have hstop : StopsAt target lines (Nat.find hexists) other := ⟨habove, hrefused⟩
    obtain rfl := Except.error.inj (hstop.scan_eq.symm.trans h)
    exact ⟨_, hstop⟩
  · rintro ⟨number, hstop⟩
    exact hstop.scan_eq

/-- The line that the first pass stops at is the one that adds the fault. -/
theorem StopsAt.exists_line (h : StopsAt target lines number fault) : ∃ k above text,
    number = k + 1 ∧ lines[k]? = some text ∧ scan target (lines.take k) = .ok above ∧
      above.addLine number text = .error fault := by
  cases number with
  | zero =>
    have hrefused := h.refused
    rw [List.take_zero, scan_nil] at hrefused
    simp at hrefused
  | succ k =>
    obtain ⟨above, habove⟩ := h.above k (by omega)
    have hrefused := h.refused
    rw [List.take_add_one] at hrefused
    cases htext : lines[k]? with
    | none =>
      rw [htext, Option.toList_none, List.append_nil, habove] at hrefused
      simp at hrefused
    | some text =>
      have hlt : k < lines.length := (List.getElem?_eq_some_iff.mp htext).1
      have hk : (lines.take k).length = k := List.length_take_of_le (by omega)
      rw [htext, Option.toList_some, scan_concat, habove, hk] at hrefused
      exact ⟨k, above, text, rfl, htext, habove, hrefused⟩

lemma line_of_addLine {draft : Draft} {line : Nat} {text : String}
    (h : draft.addLine line text = .error fault) : ∃ cause, fault = .source line cause := by
  obtain ⟨cause, -, rfl⟩ := atLine_eq_error_iff.mp h
  exact ⟨cause, rfl⟩

lemma not_bare_of_addLine {draft : Draft} {line : Nat} {text : String}
    (h : draft.addLine line text = .error fault) : ¬Bare text := by
  intro hbare
  unfold Draft.addLine at h
  rw [hbare.read_eq] at h
  simp [bind, Except.bind, Draft.add, pure, Except.pure, atLine] at h

end FirstPass

/-! ### Labels without an instruction -/

section Trailing

variable {target : Target} {lines : List String} {blocks : List (List Instruction)} {draft : Draft}

lemma Scan.line_le (h : Scan target lines blocks draft) {label : Binding}
    (hlabel : label ∈ draft.table.bindings) : label.line ≤ lines.length := by
  obtain ⟨k, hk, hline, -⟩ := h.mem_bindings_iff.mp hlabel
  have hlt := hk.lt
  omega

lemma Scan.eq_of_line_eq (h : Scan target lines blocks draft) {label other : Binding}
    (hlabel : label ∈ draft.table.bindings) (hother : other ∈ draft.table.bindings)
    (hline : label.line = other.line) : label = other := by
  obtain ⟨k, ⟨text, htext, hread⟩, hk, -⟩ := h.mem_bindings_iff.mp hlabel
  obtain ⟨k', ⟨text', htext', hread'⟩, hk', -⟩ := h.mem_bindings_iff.mp hother
  obtain rfl : k = k' := by omega
  obtain rfl := Option.some.inj (htext.symm.trans htext')
  have hname := Except.ok.inj (hread.symm.trans hread')
  exact eq_of_mem_of_name_eq hlabel hother (Statement.label.inj hname)

/-- The label bound last has the greatest line and the greatest index. -/
theorem Scan.lastLabel (h : Scan target lines blocks draft) :
    draft.lastLabel = none ∧ draft.table.bindings = [] ∨
      ∃ last ∈ draft.table.bindings, draft.lastLabel = some last ∧
        ∀ other ∈ draft.table.bindings, other.line ≤ last.line ∧ other.index ≤ last.index := by
  induction h with
  | nil => exact Or.inl ⟨rfl, rfl⟩
  | @concat lines blocks draft next text statement block above hread hstep ih =>
    cases hstep with
    | blank => exact ih
    | stack => exact ih
    | instruction => exact ih
    | label hbind =>
      refine Or.inr ⟨_, (mem_bindings_bind hbind).mpr (Or.inl rfl), rfl, ?_⟩
      intro other hother
      rcases (mem_bindings_bind hbind).mp hother with rfl | hother
      · exact ⟨le_rfl, le_rfl⟩
      · have hline := above.line_le hother
        exact ⟨by simp; omega, above.index_le hother⟩

lemma Scan.trailing?_eq_some_iff (h : Scan target lines blocks draft) {label : Binding} :
    draft.trailing? = some label ↔ label ∈ draft.table.bindings ∧ draft.code.size ≤ label.index ∧
      ∀ other ∈ draft.table.bindings, other.line ≤ label.line := by
  unfold Draft.trailing?
  rw [Option.filter_eq_some_iff, beq_iff_eq]
  rcases h.lastLabel with ⟨hnone, hempty⟩ | ⟨last, hmem, hlast, hgreatest⟩
  · simp [hnone, hempty]
  · rw [hlast, Option.some.injEq]
    constructor
    · rintro ⟨rfl, hindex⟩
      exact ⟨hmem, hindex.ge, fun other hother => (hgreatest other hother).1⟩
    · rintro ⟨hlabel, hbehind, hline⟩
      have hle := h.index_le hlabel
      refine ⟨h.eq_of_line_eq hmem hlabel ?_, by omega⟩
      exact Nat.le_antisymm (hline last hmem) (hgreatest label hlabel).1

lemma Scan.trailing?_eq_none_iff (h : Scan target lines blocks draft) :
    draft.trailing? = none ↔ ∀ label ∈ draft.table.bindings, label.index < draft.code.size := by
  constructor
  · intro hnone label hlabel
    rcases h.lastLabel with ⟨-, hempty⟩ | ⟨last, hmem, hlast, hgreatest⟩
    · simp [hempty] at hlabel
    · have hne : last.index ≠ draft.code.size := by
        simpa [Draft.trailing?, hlast] using hnone
      have hle := h.index_le hmem
      have hindex := (hgreatest label hlabel).2
      omega
  · intro hbefore
    cases hsome : draft.trailing? with
    | none => rfl
    | some label =>
      obtain ⟨hlabel, hbehind, -⟩ := h.trailing?_eq_some_iff.mp hsome
      have hlt := hbefore label hlabel
      omega

end Trailing

/-! ### The line of an instruction -/

lemma exists_block_of_getElem? {α : Type} {blocks : List (List α)} {i : Nat} {a : α}
    (h : blocks.flatten[i]? = some a) : ∃ k block, blocks[k]? = some block ∧ a ∈ block ∧
      codeBefore blocks k ≤ i ∧ i < codeBefore blocks (k + 1) := by
  induction blocks generalizing i with
  | nil => simp at h
  | cons first blocks ih =>
    rw [List.flatten_cons] at h
    rcases Nat.lt_or_ge i first.length with hi | hi
    · rw [List.getElem?_append_left hi] at h
      exact ⟨0, first, rfl, List.mem_of_getElem? h, by simp [codeBefore], by simpa [codeBefore]⟩
    · rw [List.getElem?_append_right hi] at h
      obtain ⟨k, block, hblock, hmem, hlow, hhigh⟩ := ih h
      refine ⟨k + 1, block, hblock, hmem, ?_, ?_⟩
      · rw [codeBefore_cons]
        omega
      · rw [codeBefore_cons]
        omega

section Instructions

variable {target : Target} {lines : List String} {blocks : List (List Instruction)} {draft : Draft}

/-- Each instruction carries the number of the line that adds it. -/
theorem Scan.line_of_instruction (h : Scan target lines blocks draft) {i : Nat}
    {instruction : Instruction} (hi : draft.code.toList[i]? = some instruction) :
    ∃ k text above next, instruction.line = k + 1 ∧ lines[k]? = some text ∧ ¬Bare text ∧
      scan target (lines.take k) = .ok above ∧ above.code.size ≤ i ∧
      scan target (lines.take (k + 1)) = .ok next ∧ i < next.code.size := by
  rw [h.code_eq] at hi
  obtain ⟨k, block, hblock, hmem, hlow, hhigh⟩ := exists_block_of_getElem? hi
  obtain ⟨text, above, statement, next, htext, habove, hread, hstep, hnext⟩ := h.block hblock
  have hline := hstep.line_and_canonical hread habove.cursor_le habove.top_lt instruction hmem
  have hblank : statement ≠ .blank := by
    rintro rfl
    cases hstep
    simp at hmem
  exact ⟨k, text, above, next, hline.1, htext, not_bare_of_read hread hblank,
    scan_eq_ok_iff.mpr ⟨_, habove⟩, habove.size_eq ▸ hlow,
    scan_eq_ok_iff.mpr ⟨_, hnext⟩, hnext.size_eq ▸ hhigh⟩

/-- The code of the first lines is the code that carries their numbers. -/
lemma Scan.line_le_iff (h : Scan target lines blocks draft) {i k : Nat} {instruction : Instruction}
    (hi : draft.code.toList[i]? = some instruction) :
    instruction.line ≤ k ↔ i < codeBefore blocks k := by
  rw [h.code_eq] at hi
  obtain ⟨k', block, hblock, hmem, hlow, hhigh⟩ := exists_block_of_getElem? hi
  obtain ⟨text, above, statement, next, -, habove, hread, hstep, -⟩ := h.block hblock
  rw [(hstep.line_and_canonical hread habove.cursor_le habove.top_lt instruction hmem).1]
  constructor
  · intro hk
    exact hhigh.trans_le (codeBefore_mono blocks hk)
  · intro hlt
    by_contra hk
    have hle := codeBefore_mono blocks (Nat.le_of_lt_succ (Nat.lt_of_not_le hk))
    omega

end Instructions

/-! ### The fault of a program -/

section Fault

variable {target : Target} {lines : List String} {fault : Fault}

lemma finish_eq_error_iff {draft : Draft} : draft.finish target = .error fault ↔
    (∃ label, draft.trailing? = some label ∧
      fault = .source label.line (.trailingLabel label.name)) ∨
    draft.trailing? = none ∧
      Program.link target.loadBase target draft.table draft.code.toList = .error fault := by
  unfold Draft.finish
  cases draft.trailing? with
  | none => simp
  | some label => simp [eq_comm]

lemma FirstFailure.of_finish {draft : Draft} (htarget : target.fault? = none)
    (hscan : scan target lines = .ok draft) (h : draft.finish target = .error fault) :
    FirstFailure target lines fault := by
  obtain ⟨blocks, hblocks⟩ := scan_eq_ok_iff.mp hscan
  rcases finish_eq_error_iff.mp h with ⟨label, htrailing, rfl⟩ | ⟨htrailing, hlink⟩
  · obtain ⟨hlabel, hbehind, hlast⟩ := hblocks.trailing?_eq_some_iff.mp htrailing
    obtain ⟨k, hline, hk, -⟩ := hblocks.mem_bindings_iff.mp hlabel
    rw [hk]
    exact .trailing htarget hscan hlabel hbehind hlast hline
  · obtain ⟨before, instruction, after, hcode, hbefore, hword⟩ := link_eq_error_iff.mp hlink
    have hi : draft.code.toList[before.length]? = some instruction := by simp [hcode]
    obtain ⟨k, -, above, next, hline, -, -, habove, hlow, hnext, hhigh⟩ :=
      hblocks.line_of_instruction hi
    obtain ⟨cause, -, rfl⟩ := atLine_eq_error_iff.mp hword
    rw [hline] at hword ⊢
    exact .word htarget hscan (hblocks.trailing?_eq_none_iff.mp htrailing) hcode hbefore habove
      hlow hnext hhigh hword

theorem assemble_eq_error_iff :
    assemble target lines = .error fault ↔ FirstFailure target lines fault := by
  constructor
  · intro h
    cases htarget : target.fault? with
    | some refused =>
      unfold assemble at h
      rw [htarget] at h
      obtain rfl := Except.error.inj h
      exact .target htarget
    | none =>
      rw [assemble_of_accepted htarget, bind_eq_error_iff] at h
      rcases h with hscan | ⟨draft, hscan, hfinish⟩
      · obtain ⟨number, hstop⟩ := scan_eq_error_iff.mp hscan
        exact .line htarget hstop
      · exact .of_finish htarget hscan hfinish
  · intro h
    cases h with
    | target hfault =>
      unfold assemble
      rw [hfault]
    | line htarget hstop =>
      rw [assemble_of_accepted htarget, bind_eq_error_iff]
      exact Or.inl hstop.scan_eq
    | @trailing draft label k htarget hscan hlabel hbehind hlast hline =>
      obtain ⟨blocks, hblocks⟩ := scan_eq_ok_iff.mp hscan
      obtain ⟨k', hline', hk', -⟩ := hblocks.mem_bindings_iff.mp hlabel
      obtain rfl := hblocks.labelLine_unique hline hline'
      rw [assemble_of_accepted htarget, bind_eq_error_iff]
      refine Or.inr ⟨draft, hscan, finish_eq_error_iff.mpr (Or.inl ⟨label, ?_, by rw [hk']⟩)⟩
      exact hblocks.trailing?_eq_some_iff.mpr ⟨hlabel, hbehind, hlast⟩
    | @word draft _ _ instruction before after _ _ htarget hscan hlabels hcode hbefore _ _ _ _
        hword =>
      obtain ⟨blocks, hblocks⟩ := scan_eq_ok_iff.mp hscan
      rw [assemble_of_accepted htarget, bind_eq_error_iff]
      refine Or.inr ⟨draft, hscan, finish_eq_error_iff.mpr (Or.inr ⟨?_, ?_⟩)⟩
      · exact hblocks.trailing?_eq_none_iff.mpr hlabels
      · exact link_eq_error_iff.mpr ⟨before, instruction, after, hcode, hbefore, hword⟩

lemma namesLine_of_source {k : Nat} {text : String} {cause : Cause} (htext : lines[k]? = some text)
    (hbare : ¬Bare text) : NamesLine lines (.source (k + 1) cause) := by
  have hk := (List.getElem?_eq_some_iff.mp htext).1
  exact ⟨k + 1, text, cause.message, rfl, by omega, by omega, htext, hbare, rfl⟩

theorem FirstFailure.namesLine (h : FirstFailure target lines fault)
    (htarget : target.fault? = none) : NamesLine lines fault := by
  cases h with
  | target hfault => simp [htarget] at hfault
  | line _ hstop =>
    obtain ⟨k, above, text, rfl, htext, -, hline⟩ := hstop.exists_line
    obtain ⟨cause, rfl⟩ := line_of_addLine hline
    exact namesLine_of_source htext (not_bare_of_addLine hline)
  | trailing _ _ _ _ _ hline =>
    obtain ⟨text, htext, hread⟩ := hline
    exact namesLine_of_source htext (not_bare_of_read hread (by simp))
  | @word draft _ _ instruction before after _ _ _ hscan _ hcode _ _ _ _ _ hword =>
    obtain ⟨blocks, hblocks⟩ := scan_eq_ok_iff.mp hscan
    have hi : draft.code.toList[before.length]? = some instruction := by simp [hcode]
    obtain ⟨k', text, -, -, hline, htext, hbare, -⟩ := hblocks.line_of_instruction hi
    obtain ⟨other, -, hcause⟩ := atLine_eq_error_iff.mp hword
    rw [hline, Fault.source.injEq] at hcause
    rw [hcause.1]
    exact namesLine_of_source htext hbare

end Fault

/-- The result is the first failure, or a program if there is none. A line that the first pass
refuses decides whatever stands below it, and every fault but one of the target names its line. -/
theorem assemble_first_failure (target : Target) (lines : List String) :
    (∀ fault, assemble target lines = .error fault ↔ FirstFailure target lines fault) ∧
    ((∃ program, assemble target lines = .ok program) ↔
      ∀ fault, ¬FirstFailure target lines fault) ∧
    (∀ number fault, StopsAt target lines number fault → fault.line? = some number ∧
      (∃ above text, scan target (lines.take (number - 1)) = .ok above ∧
        lines[number - 1]? = some text ∧ above.addLine number text = .error fault) ∧
      (target.fault? = none → ∀ others,
        assemble target (lines.take number ++ others) = .error fault)) ∧
    ∀ fault, target.fault? = none → FirstFailure target lines fault → NamesLine lines fault := by
  refine ⟨fun fault => assemble_eq_error_iff, ?_, ?_, fun fault htarget h => h.namesLine htarget⟩
  · simp only [← assemble_eq_error_iff]
    cases assemble target lines <;> simp
  · intro number fault hstop
    obtain ⟨k, above, text, rfl, htext, habove, hline⟩ := hstop.exists_line
    obtain ⟨cause, rfl⟩ := line_of_addLine hline
    refine ⟨rfl, ⟨above, text, habove, htext, hline⟩, ?_⟩
    intro htarget others
    rw [assemble_of_accepted htarget, hstop.scan_append others]
    rfl

/-- A jump to a label that is never bound yields to an unknown mnemonic below it. -/
theorem assemble_first_failure_mnemonic :
    FirstFailure {} ["JP missing", "FOO"] (.source 2 (.unknownMnemonic "FOO")) :=
  ((assemble_first_failure {} ["JP missing", "FOO"]).1 _).mp (by decide +kernel)

end Chip8.Proofs
