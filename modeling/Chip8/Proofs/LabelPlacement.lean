import Mathlib
import Chip8.Proofs.Relisting

/-!
# Where labels stand

In a program, each label stands before the first instruction below its line and nowhere else. The
assembler refuses a source with a label behind its last instruction, and looks at the label bound
last only: the indices of labels grow, and every line with an instruction or a directive adds code,
so that label decides. Main statement: `assemble_labels_placed`.
-/

namespace Chip8.Proofs

/-! ### Labels in a program -/

/-- The entry has the label and is the first one from below the line of the label. -/
structure FirstBelow (program : Program) (k : Nat) (name : String) (i : Nat) (entry : Entry) :
    Prop where
  found : program.entries[i]? = some entry
  label : name ∈ entry.labels
  below : k + 1 < entry.line
  first : ∀ (j : Nat) (earlier : Entry), j < i → program.entries[j]? = some earlier →
    earlier.line ≤ k + 1

/-- The labels of the entries are the names that lines bind. Each stands once, before the first
entry from below its line, and the labels of an entry are in the order of their bytes. -/
structure LabelsPlaced (lines : List String) (program : Program) : Prop where
  once : ∀ k name, LabelLine lines k name → (program.entries.flatMap (·.labels)).count name = 1
  below : ∀ k name, LabelLine lines k name → ∃ i entry, FirstBelow program k name i entry
  bound : ∀ name ∈ program.entries.flatMap (·.labels), ∃ k, LabelLine lines k name
  ordered : ∀ entry ∈ program.entries, (entry.labels.map utf8).Pairwise (· < ·)

section Program

variable {target : Target} {lines : List String} {blocks : List (List Instruction)} {draft : Draft}
  {base : UInt16} {table : SymbolTable} {code : List Instruction} {program : Program}

lemma link_labels (h : Program.link base target table code = .ok program) :
    program.entries.map (·.labels) = (List.range code.length).map table.namesAt := by
  apply List.ext_getElem (by simpa [Program.size] using size_of_link h)
  intro i hi hj
  simp only [List.length_map] at hi
  obtain ⟨_, _, -, -, heq⟩ := (getElem?_entries_iff h).mp (List.getElem?_eq_getElem hi)
  rw [List.getElem_map, heq]
  simp

lemma nodup_labels (h : Program.link base target table code = .ok program) :
    (program.entries.flatMap (·.labels)).Nodup := by
  rw [List.flatMap_def, link_labels h, ← List.flatMap_def]
  exact nodup_flatMap_namesAt table List.nodup_range

/-- The line of a label adds no code. -/
lemma Scan.codeBefore_succ_of_label (h : Scan target lines blocks draft) {k : Nat} {name : String}
    (hk : LabelLine lines k name) : codeBefore blocks (k + 1) = codeBefore blocks k := by
  obtain ⟨text, htext, hread⟩ := hk
  obtain ⟨above, statement, block, next, -, hstatement, hblock, hstep, -⟩ := h.line htext
  obtain rfl := Except.ok.inj (hread.symm.trans hstatement)
  have hempty := hstep.length_eq
  rw [codeBefore_succ hblock, hempty, statementSize, Nat.add_zero]

/-- The entry at the index of a label is the first one from below its line. -/
lemma Scan.label_below (h : Scan target lines blocks draft)
    (hindex : ∀ label ∈ draft.table.bindings, label.index < draft.code.size)
    (hlink : Program.link base target draft.table draft.code.toList = .ok program) {k : Nat}
    {name : String} (hk : LabelLine lines k name) :
    ∃ i entry, FirstBelow program k name i entry := by
  have hmem : (⟨name, codeBefore blocks k, k + 1⟩ : Binding) ∈ draft.table.bindings :=
    h.mem_bindings_iff.mpr ⟨k, hk, rfl, rfl⟩
  have hlt : codeBefore blocks k < program.entries.length := by
    have hsize := size_of_link hlink
    rw [Array.length_toList] at hsize
    exact (hindex _ hmem).trans_eq hsize.symm
  have hline : ∀ {i : Nat} {entry : Entry}, program.entries[i]? = some entry →
      (entry.line ≤ k + 1 ↔ i < codeBefore blocks k) := by
    intro i entry hentry
    obtain ⟨instruction, word, hcode, -, rfl⟩ := (getElem?_entries_iff hlink).mp hentry
    rw [← h.codeBefore_succ_of_label hk]
    exact h.line_le_iff hcode
  have hentry := List.getElem?_eq_getElem hlt
  obtain ⟨instruction, word, -, -, heq⟩ := (getElem?_entries_iff hlink).mp hentry
  refine ⟨codeBefore blocks k, _, hentry, ?_, ?_, ?_⟩
  · rw [heq]
    exact SymbolTable.mem_namesAt.mpr ⟨_, hmem, rfl, rfl⟩
  · exact Nat.lt_of_not_le fun hle => absurd ((hline hentry).mp hle) (lt_irrefl _)
  · intro j earlier hj hearlier
    exact (hline hearlier).mpr hj

lemma exists_labels_eq (h : Program.link base target table code = .ok program) {entry : Entry}
    (hentry : entry ∈ program.entries) : ∃ i, entry.labels = table.namesAt i := by
  obtain ⟨i, hi⟩ := List.mem_iff_getElem?.mp hentry
  obtain ⟨_, _, -, -, rfl⟩ := (getElem?_entries_iff h).mp hi
  exact ⟨i, rfl⟩

theorem Scan.labelsPlaced (h : Scan target lines blocks draft)
    (hindex : ∀ label ∈ draft.table.bindings, label.index < draft.code.size)
    (hlink : Program.link base target draft.table draft.code.toList = .ok program) :
    LabelsPlaced lines program := by
  refine ⟨?_, fun k name hk => h.label_below hindex hlink hk, ?_, ?_⟩
  · intro k name hk
    obtain ⟨i, entry, hfirst⟩ := h.label_below hindex hlink hk
    apply List.count_eq_one_of_mem (nodup_labels hlink)
    exact List.mem_flatMap.mpr ⟨entry, List.mem_of_getElem? hfirst.found, hfirst.label⟩
  · intro name hname
    obtain ⟨entry, hentry, hname⟩ := List.mem_flatMap.mp hname
    obtain ⟨i, hlabels⟩ := exists_labels_eq hlink hentry
    rw [hlabels] at hname
    obtain ⟨binding, hmem, rfl, -⟩ := SymbolTable.mem_namesAt.mp hname
    obtain ⟨k, hk, -, -⟩ := h.mem_bindings_iff.mp hmem
    exact ⟨k, hk⟩
  · intro entry hentry
    obtain ⟨i, hlabels⟩ := exists_labels_eq hlink hentry
    rw [hlabels]
    exact pairwise_utf8_namesAt draft.table i

end Program

/-! ### Sources that end with a label -/

/-- The last line with something on it binds the name. -/
def EndsWithLabel (lines : List String) (k : Nat) (name : String) : Prop :=
  LabelLine lines k name ∧ ∀ j text, k < j → lines[j]? = some text → Bare text

section Ends

variable {lines : List String} {text name : String} {k : Nat}

lemma endsWithLabel_concat_of_bare (h : Bare text) :
    EndsWithLabel (lines ++ [text]) k name ↔ EndsWithLabel lines k name := by
  have hnot : Statement.read (lines.length + 1) text ≠ .ok (.label name) := by
    rw [h.read_eq]
    simp
  unfold EndsWithLabel
  rw [labelLine_concat, or_iff_left fun hlast => hnot hlast.2]
  refine and_congr_right fun _ => ⟨?_, ?_⟩
  · intro hrest j later hj hlater
    apply hrest j later hj
    rw [List.getElem?_append_left (List.getElem?_eq_some_iff.mp hlater).1]
    exact hlater
  · intro hrest j later hj hlater
    rcases Nat.lt_trichotomy j lines.length with hlt | rfl | hlt
    · rw [List.getElem?_append_left hlt] at hlater
      exact hrest j later hj hlater
    · rw [List.getElem?_concat_length, Option.some.injEq] at hlater
      rwa [← hlater]
    · have hnone : (lines ++ [text])[j]? = none := List.getElem?_eq_none (by simp; omega)
      simp [hnone] at hlater

lemma endsWithLabel_concat_of_not_bare (h : ¬Bare text) :
    EndsWithLabel (lines ++ [text]) k name ↔
      k = lines.length ∧ Statement.read (lines.length + 1) text = .ok (.label name) := by
  unfold EndsWithLabel
  rw [labelLine_concat]
  constructor
  · rintro ⟨hk | hk, hrest⟩
    · exact absurd (hrest lines.length text hk.lt List.getElem?_concat_length) h
    · exact hk
  · rintro ⟨rfl, hread⟩
    refine ⟨Or.inr ⟨rfl, hread⟩, ?_⟩
    intro j later hj hlater
    have hnone : (lines ++ [text])[j]? = none := List.getElem?_eq_none (by simp; omega)
    simp [hnone] at hlater

end Ends

section Trailing

variable {target : Target} {lines : List String} {blocks : List (List Instruction)} {draft : Draft}
  {name : String} {k : Nat}

lemma Expansion.code_ne_nil {stack : Stack} {line : Nat} {first : Bool} {directive : Directive}
    {tokens : List String} {cursor : Nat} {code : List Instruction}
    (h : Expansion stack line first directive tokens cursor code) : code ≠ [] := by
  cases h with
  | start => simp
  | @push _ _ _ registers _ _ hnonempty _ hregisters hsave =>
    have hlength := (Stack.cursor_of_saveAll hsave).2
    have hpos := List.length_pos_iff.mpr hnonempty
    rw [hregisters.length_eq] at hpos
    apply List.length_pos_iff.mp
    omega
  | pop => simp
  | reset => simp

lemma Step.size_lt {line : Nat} {next : Draft} {statement : Statement} {code : List Instruction}
    (h : Step line draft statement code next) (hcode : code ≠ []) :
    draft.code.size < next.code.size := by
  have hlength := congrArg List.length h.code_eq
  have hpos := List.length_pos_iff.mpr hcode
  simp only [List.length_append, Array.length_toList] at hlength
  omega

/-- A line that adds code leaves no label behind the code. -/
lemma Scan.trailing?_eq_none_of_step (h : Scan target lines blocks draft) {line : Nat}
    {next : Draft} {statement : Statement} {code : List Instruction}
    (hstep : Step line draft statement code next) (hcode : code ≠ []) : next.trailing? = none := by
  have hsize := hstep.size_lt hcode
  have hlast : next.lastLabel = draft.lastLabel := by
    cases hstep with
    | blank => rfl
    | label => exact absurd rfl hcode
    | stack => rfl
    | instruction => rfl
  unfold Draft.trailing?
  rw [hlast]
  rcases h.lastLabel with ⟨hnone, -⟩ | ⟨last, hmem, hsome, -⟩
  · rw [hnone]
    rfl
  · have hle := h.index_le hmem
    have hne : last.index ≠ next.code.size := by omega
    simp [hsome, hne]

/-- The label that no instruction follows is the one that the source ends with. -/
theorem Scan.trailing?_iff_endsWithLabel (h : Scan target lines blocks draft) :
    (∃ label, draft.trailing? = some label ∧ label.name = name ∧ label.line = k + 1) ↔
      EndsWithLabel lines k name := by
  induction h with
  | nil =>
    have hnone : (Draft.new target).trailing? = none := rfl
    have hempty : ¬LabelLine [] k name := fun hk => absurd hk.lt (Nat.not_lt_zero k)
    simp [hnone, EndsWithLabel, hempty]
  | @concat lines blocks draft next text statement block above hread hstep ih =>
    have hnone := above.trailing?_eq_none_of_step hstep
    cases hstep with
    | blank => rw [ih, endsWithLabel_concat_of_bare (bare_of_read hread)]
    | @label bound table hbind =>
      rw [endsWithLabel_concat_of_not_bare (not_bare_of_read hread (by simp)), hread]
      simp only [Draft.trailing?, Option.filter_some, beq_self_eq_true, if_true, Option.some.injEq,
        exists_eq_left', Except.ok.injEq, Statement.label.injEq, Nat.add_right_cancel_iff]
      rw [and_comm, eq_comm (a := lines.length)]
    | stack hcode =>
      rw [endsWithLabel_concat_of_not_bare (not_bare_of_read hread (by simp)), hread,
        hnone (code_eq_ok_iff.mp hcode).code_ne_nil]
      simp
    | instruction =>
      rw [endsWithLabel_concat_of_not_bare (not_bare_of_read hread (by simp)), hread,
        hnone (List.cons_ne_nil _ _)]
      simp

lemma word_ne_trailingLabel {table : SymbolTable} {instruction : Instruction} {number : Nat} :
    instruction.word target table ≠ .error (.source number (.trailingLabel name)) := by
  intro h
  obtain ⟨cause, hfault, hcause⟩ := word_eq_error_iff.mp h
  obtain ⟨-, rfl⟩ := Fault.source.inj hfault
  rcases hcause with ⟨-, harity⟩ | ⟨-, hmisfit⟩
  · simp at harity
  · cases hmisfit.fieldCause

lemma finish_eq_trailingLabel_iff {number : Nat} :
    draft.finish target = .error (.source number (.trailingLabel name)) ↔
      ∃ label, draft.trailing? = some label ∧ label.name = name ∧ label.line = number := by
  rw [finish_eq_error_iff]
  constructor
  · rintro (⟨label, hlabel, hfault⟩ | ⟨-, hlink⟩)
    · obtain ⟨hnumber, hcause⟩ := Fault.source.inj hfault
      exact ⟨label, hlabel, (Cause.trailingLabel.inj hcause).symm, hnumber.symm⟩
    · obtain ⟨instruction, -, hword⟩ := exists_word_error hlink
      exact absurd hword word_ne_trailingLabel
  · rintro ⟨label, hlabel, rfl, rfl⟩
    exact Or.inl ⟨label, hlabel, rfl⟩

lemma Scan.exists_endsWithLabel (h : Scan target lines blocks draft) {label : Binding}
    (hlabel : draft.trailing? = some label) : ∃ k, EndsWithLabel lines k label.name := by
  obtain ⟨hmem, -, -⟩ := h.trailing?_eq_some_iff.mp hlabel
  obtain ⟨k, -, hline, -⟩ := h.mem_bindings_iff.mp hmem
  exact ⟨k, h.trailing?_iff_endsWithLabel.mp ⟨label, hlabel, rfl, hline⟩⟩

end Trailing

/-- The labels of a source stand in its program, each before one instruction; a label behind the
last instruction is refused exactly if the source ends with it. -/
theorem assemble_labels_placed (target : Target) (lines : List String) :
    (∀ program, assemble target lines = .ok program → LabelsPlaced lines program) ∧
    ∀ draft, scan target lines = .ok draft →
      [∃ number name, draft.finish target = .error (.source number (.trailingLabel name)),
        ∃ label ∈ draft.table.bindings, draft.code.size ≤ label.index,
        ∃ k name, EndsWithLabel lines k name].TFAE ∧
      ∀ k name, draft.finish target = .error (.source (k + 1) (.trailingLabel name)) ↔
        EndsWithLabel lines k name := by
  constructor
  · intro program h
    obtain ⟨-, draft, hscan, htrailing, hlink⟩ := assemble_eq_ok_iff.mp h
    obtain ⟨blocks, hblocks⟩ := scan_eq_ok_iff.mp hscan
    exact hblocks.labelsPlaced (hblocks.trailing?_eq_none_iff.mp htrailing) hlink
  · intro draft hscan
    obtain ⟨blocks, hblocks⟩ := scan_eq_ok_iff.mp hscan
    have hends : ∀ k name, draft.finish target = .error (.source (k + 1) (.trailingLabel name)) ↔
        EndsWithLabel lines k name := by
      intro k name
      rw [finish_eq_trailingLabel_iff]
      exact hblocks.trailing?_iff_endsWithLabel
    refine ⟨?_, hends⟩
    tfae_have 1 → 2 := by
      rintro ⟨number, name, hfinish⟩
      obtain ⟨label, hlabel, -⟩ := finish_eq_trailingLabel_iff.mp hfinish
      obtain ⟨hmem, hbehind, -⟩ := hblocks.trailing?_eq_some_iff.mp hlabel
      exact ⟨label, hmem, hbehind⟩
    tfae_have 2 → 3 := by
      rintro ⟨label, hmem, hbehind⟩
      cases htrailing : draft.trailing? with
      | none =>
        have hlt := hblocks.trailing?_eq_none_iff.mp htrailing label hmem
        omega
      | some last =>
        obtain ⟨k, hk⟩ := hblocks.exists_endsWithLabel htrailing
        exact ⟨k, last.name, hk⟩
    tfae_have 3 → 1 := by
      rintro ⟨k, name, hk⟩
      exact ⟨k + 1, name, (hends k name).mpr hk⟩
    tfae_finish

/-- Two labels before the code of a directive; and two labels of which only the last is reported. -/
theorem assemble_labels_placed_push : ∃ program draft,
    assemble {} ["STACK_INIT", "LABEL b ; loop", "LABEL a", "PUSH V1", "JP b"] = .ok program ∧
    LabelsPlaced ["STACK_INIT", "LABEL b ; loop", "LABEL a", "PUSH V1", "JP b"] program ∧
    scan {} ["CLS", "LABEL b", "LABEL a", "; end"] = .ok draft ∧
    EndsWithLabel ["CLS", "LABEL b", "LABEL a", "; end"] 2 "a" ∧
    draft.finish {} = .error (.source 3 (.trailingLabel "a")) := by
  have hprogram : (assemble {} ["STACK_INIT", "LABEL b ; loop", "LABEL a", "PUSH V1", "JP b"]).map
      Program.size = .ok 5 := by
    decide +kernel
  have hscan : (scan {} ["CLS", "LABEL b", "LABEL a", "; end"]).map (·.code.size) = .ok 1 := by
    decide +kernel
  have hends : EndsWithLabel ["CLS", "LABEL b", "LABEL a", "; end"] 2 "a" := by
    refine ⟨⟨"LABEL a", rfl, by decide +kernel⟩, ?_⟩
    intro j text hj htext
    have hlt := (List.getElem?_eq_some_iff.mp htext).1
    obtain rfl : j = 3 := by simp only [List.length_cons, List.length_nil] at hlt; omega
    obtain rfl := Option.some.inj htext
    have hread : Statement.read 4 "; end" = .ok .blank := by decide +kernel
    exact bare_of_read hread
  obtain ⟨program, hprogram, -⟩ := map_eq_ok_iff.mp hprogram
  obtain ⟨draft, hscan, -⟩ := map_eq_ok_iff.mp hscan
  have hplaced := (assemble_labels_placed {} _).1 program hprogram
  have hfinish := (((assemble_labels_placed {} _).2 draft hscan).2 2 "a").mpr hends
  exact ⟨program, draft, hprogram, hplaced, hscan, hends, hfinish⟩

end Chip8.Proofs
