import Mathlib
import Chip8.Proofs.FirstFailure

/-!
# Programs as source

The entries of a program, written out with their labels, are source for the same program. Main
statement: `assemble_relisting`.
-/

namespace Chip8.Proofs

/-- The line that binds a label. -/
def labelText (name : String) : String :=
  "LABEL " ++ name

/-- The lines for an entry: one for each of its labels, and its text. -/
def entryLines (entry : Entry) : List String :=
  entry.labels.map labelText ++ [entry.text]

/-- The source that the entries of a program amount to. -/
def relisting (program : Program) : List String :=
  program.entries.flatMap entryLines

/-! ### The lines read back -/

lemma read_labelText {name : String} (h : Token.isLabelName name = true) (line : Nat) :
    Statement.read line (labelText name) = .ok (.label name) := by
  have htext : labelText name = String.intercalate " " ["LABEL", name] := by
    apply String.toList_injective
    simp [labelText]
  have hplain : ∀ part ∈ ["LABEL", name], Plain part := by
    intro part hpart
    simp only [List.mem_cons, List.not_mem_nil, or_false] at hpart
    rcases hpart with rfl | rfl
    · exact ⟨by decide, List.all_eq_true.mp (by decide)⟩
    · exact plain_of_isLabelName h
  have hkeyword : upper "LABEL" = Statement.labelKeyword := by decide
  unfold Statement.read
  rw [htext, tokensOf_intercalate fun part hpart => (hplain part hpart).solid]
  simp [Statement.ofTokens, hkeyword]

section Lines

variable {draft next : Draft}

lemma addLine_labelText (line : Nat) {name : String} (hvalid : Token.isLabelName name = true)
    (hfresh : indexOf? draft.table name = none) : ∃ next,
      draft.addLine line (labelText name) = .ok next ∧ next.code = draft.code ∧
      ∀ other, indexOf? next.table other =
        if other = name then some draft.code.size else indexOf? draft.table other := by
  obtain ⟨table, hbind⟩ := exists_bind ⟨name, draft.code.size, line⟩ hvalid hfresh
  refine ⟨_, addLine_eq_ok_iff.mpr ⟨_, _, read_labelText hvalid line, .label hbind⟩, rfl, ?_⟩
  exact indexOf?_bind hbind

lemma addLines_labelText (line : Nat) {names : List String}
    (hvalid : ∀ name ∈ names, Token.isLabelName name = true) (hnodup : names.Nodup)
    (hfresh : ∀ name ∈ names, indexOf? draft.table name = none) : ∃ next,
      draft.addLines line (names.map labelText) = .ok next ∧ next.code = draft.code ∧
      ∀ other, indexOf? next.table other =
        if other ∈ names then some draft.code.size else indexOf? draft.table other := by
  induction names generalizing draft line with
  | nil => exact ⟨draft, rfl, rfl, by simp⟩
  | cons name names ih =>
    obtain ⟨hname, hnodup⟩ := List.nodup_cons.mp hnodup
    obtain ⟨middle, hmiddle, hcode, hindex⟩ := addLine_labelText line
      (hvalid name (by simp)) (hfresh name (by simp))
    have hrest : ∀ other ∈ names, indexOf? middle.table other = none := by
      intro other hother
      rw [hindex, if_neg (by rintro rfl; exact hname hother)]
      exact hfresh other (by simp [hother])
    obtain ⟨next, hnext, hcode', hindex'⟩ := ih (line + 1)
      (fun other hother => hvalid other (by simp [hother])) hnodup hrest
    refine ⟨next, ?_, hcode'.trans hcode, ?_⟩
    · simp [Draft.addLines, hmiddle, hnext]
    · intro other
      rw [hindex', hindex, hcode]
      grind

lemma addLine_text (line : Nat) {instruction : Instruction} (h : Canonical instruction) :
    ∃ next, draft.addLine line instruction.text = .ok next ∧
      next.code = draft.code.push { instruction with line } ∧ next.table = draft.table :=
  ⟨_, addLine_eq_ok_iff.mpr ⟨_, _, read_text h line, .instruction⟩, rfl, rfl⟩

end Lines

/-! ### The first pass over the lines -/

/-- An instruction without the number of its line. -/
def content (instruction : Instruction) : Mnemonic × List Operand :=
  (instruction.mnemonic, instruction.operands)

/-- The lines for instructions with the labels of a table. -/
def codeLines (table : SymbolTable) (code : List Instruction) : List String :=
  code.zipIdx.flatMap fun (instruction, index) =>
    (table.namesAt index).map labelText ++ [instruction.text]

/-- The lines give the instructions again, and the labels that stand before one of them. -/
theorem scan_codeLines (target : Target) (table : SymbolTable) {code : List Instruction}
    (hcode : ∀ instruction ∈ code, Canonical instruction) : ∃ draft,
      scan target (codeLines table code) = .ok draft ∧
      draft.code.toList.map content = code.map content ∧
      ∀ name index, indexOf? draft.table name = some index ↔
        indexOf? table name = some index ∧ index < code.length := by
  induction code using List.reverseRecOn with
  | nil => exact ⟨Draft.new target, rfl, rfl, by simp [indexOf?_eq_some_iff, Draft.new]⟩
  | append_singleton code instruction ih =>
    obtain ⟨draft, hscan, hcontent, hindex⟩ := ih fun other hother => hcode other (by simp [hother])
    have hsize : draft.code.size = code.length := by
      simpa using congrArg List.length hcontent
    -- A name stands before one instruction only, so none of these has been bound above.
    have hfresh : ∀ name ∈ table.namesAt code.length, indexOf? draft.table name = none := by
      intro name hname
      rw [mem_namesAt_iff] at hname
      cases hbound : indexOf? draft.table name with
      | none => rfl
      | some index =>
        obtain ⟨hsame, hlt⟩ := (hindex name index).mp hbound
        obtain rfl := Option.some.inj (hname.symm.trans hsame)
        exact absurd hlt (lt_irrefl _)
    obtain ⟨middle, hmiddle, hcode', hindex'⟩ := addLines_labelText
      ((codeLines table code).length + 1) (fun name => isLabelName_of_mem_namesAt)
      (nodup_namesAt table code.length) hfresh
    have hlines : codeLines table (code ++ [instruction]) = codeLines table code ++
        (table.namesAt code.length).map labelText ++ [instruction.text] := by
      simp [codeLines, List.zipIdx_append]
    have hlabels : scan target (codeLines table code ++
        (table.namesAt code.length).map labelText) = .ok middle := by
      rw [scan_append, hscan]
      exact hmiddle
    obtain ⟨next, hnext, hpush, htable⟩ := addLine_text
      ((codeLines table code ++ (table.namesAt code.length).map labelText).length + 1)
      (hcode instruction (by simp))
    refine ⟨next, ?_, ?_, ?_⟩
    · rw [hlines, scan_concat, hlabels]
      exact hnext
    · simp [hpush, hcode', hcontent, content]
    · intro name index
      rw [htable, hindex', hsize, List.length_append, List.length_singleton]
      split
      · next hname =>
        rw [mem_namesAt_iff] at hname
        rw [hname, Option.some.injEq]
        omega
      · next hname =>
        rw [mem_namesAt_iff] at hname
        rw [hindex]
        constructor
        · rintro ⟨hsame, hlt⟩
          exact ⟨hsame, by omega⟩
        · rintro ⟨hsame, hlt⟩
          have hne : index ≠ code.length := by
            rintro rfl
            exact hname hsame
          exact ⟨hsame, by omega⟩

/-! ### The second pass -/

/-- The entries differ at most in the lines that they come from. -/
structure SameEntry (first second : Entry) : Prop where
  address : first.address = second.address
  word : first.word = second.word
  text : first.text = second.text
  labels : first.labels = second.labels

section SecondPass

variable {base : UInt16} {target : Target} {table other : SymbolTable}

lemma word_congr {first second : Instruction} (hcontent : content first = content second)
    (htable : SameIndices table other) {word : UInt16} :
    first.word target table = .ok word ↔ second.word target other = .ok word := by
  obtain ⟨hmnemonic, hoperands⟩ := Prod.mk.inj hcontent
  unfold Instruction.word
  rw [atLine_eq_ok_iff, atLine_eq_ok_iff, hmnemonic, hoperands, htable.nibbles_eq]

lemma text_congr {first second : Instruction} (hcontent : content first = content second) :
    first.text = second.text := by
  obtain ⟨hmnemonic, hoperands⟩ := Prod.mk.inj hcontent
  unfold Instruction.text
  rw [hmnemonic, hoperands]

theorem link_congr {code again : List Instruction} (hcontent : code.map content = again.map content)
    (htable : SameIndices table other) {program : Program}
    (h : Program.link base target table code = .ok program) : ∃ repeated,
      Program.link base target other again = .ok repeated ∧
      List.Forall₂ SameEntry program.entries repeated.entries := by
  have hcode : List.Forall₂ (fun first second => content first = content second) code again := by
    rw [← List.forall₂_eq_eq_eq] at hcontent
    simpa only [List.forall₂_map_left_iff, List.forall₂_map_right_iff] using hcontent
  obtain ⟨repeated, hrepeated, hentries⟩ := exists_aligned_link hcode
    (fun _ _ word hsame hword => ⟨word, (word_congr hsame htable).mp hword⟩) h base
  refine ⟨repeated, hrepeated, hentries.imp ?_⟩
  rintro _ _ ⟨i, hsame, hfirst, hsecond⟩
  rw [word_congr hsame htable, hsecond, Except.ok.injEq] at hfirst
  exact ⟨rfl, hfirst.symm, text_congr hsame, htable.namesAt_eq i⟩

lemma bytes_congr {first second : Program}
    (h : List.Forall₂ SameEntry first.entries second.entries) : first.bytes = second.bytes := by
  unfold Program.bytes
  generalize first.entries = entries, second.entries = others at h
  induction h with
  | nil => rfl
  | cons hentry _ ih =>
    rw [List.flatMap_cons, List.flatMap_cons, ih, Entry.bytes, Entry.bytes, hentry.word]

end SecondPass

/-! ### The program -/

section Program

variable {target : Target} {lines : List String}

lemma Scan.canonical {blocks : List (List Instruction)} {draft : Draft}
    (h : Scan target lines blocks draft) :
    ∀ instruction ∈ draft.code.toList, Canonical instruction := by
  induction h with
  | nil => simp [Draft.new]
  | concat above hread hstep ih =>
    intro instruction hmem
    rw [hstep.code_eq, List.mem_append] at hmem
    rcases hmem with hmem | hmem
    · exact ih instruction hmem
    · exact (hstep.line_and_canonical hread above.cursor_le above.top_lt instruction hmem).2

lemma relisting_eq {base : UInt16} {table : SymbolTable} {code : List Instruction}
    {program : Program} (h : Program.link base target table code = .ok program) :
    relisting program = codeLines table code := by
  obtain ⟨hlength, hentries⟩ := link_eq_ok_iff.mp h
  have hlines : program.entries.map entryLines = code.zipIdx.map fun (instruction, index) =>
      (table.namesAt index).map labelText ++ [instruction.text] := by
    apply List.ext_getElem (by simpa using hlength)
    intro index hentry hcode
    simp only [List.length_map, List.length_zipIdx] at hentry hcode
    obtain ⟨word, -, heq⟩ := hentries index _ _ (List.getElem?_eq_getElem hcode)
      (List.getElem?_eq_getElem hentry)
    rw [List.getElem_map, heq]
    simp [entryLines, Entry.text]
  unfold relisting codeLines
  rw [List.flatMap_def, List.flatMap_def, hlines]

/-- The labels and the texts of a program are source for the same program. -/
theorem assemble_relisting {program : Program} (h : assemble target lines = .ok program) :
    ∃ repeated, assemble target (relisting program) = .ok repeated ∧
      List.Forall₂ SameEntry program.entries repeated.entries ∧
      program.bytes = repeated.bytes := by
  obtain ⟨htarget, draft, hscan, htrailing, hlink⟩ := assemble_eq_ok_iff.mp h
  obtain ⟨blocks, hblocks⟩ := scan_eq_ok_iff.mp hscan
  have hbefore := hblocks.trailing?_eq_none_iff.mp htrailing
  obtain ⟨again, hagain, hcontent, hindex⟩ := scan_codeLines target draft.table hblocks.canonical
  obtain ⟨_, hblocks'⟩ := scan_eq_ok_iff.mp hagain
  have hsize : again.code.size = draft.code.toList.length := by
    simpa using congrArg List.length hcontent
  have hsame : SameIndices draft.table again.table := by
    intro name
    apply Option.ext
    intro index
    rw [hindex]
    constructor
    · intro hname
      obtain ⟨binding, hmem, rfl, rfl⟩ := indexOf?_eq_some_iff.mp hname
      exact ⟨hname, by simpa using hbefore binding hmem⟩
    · exact fun hname => hname.1
  have hnone : again.trailing? = none := by
    apply hblocks'.trailing?_eq_none_iff.mpr
    intro label hlabel
    have hname := indexOf?_eq_some_iff.mpr ⟨label, hlabel, rfl, rfl⟩
    rw [hsize]
    exact ((hindex _ _).mp hname).2
  obtain ⟨repeated, hrepeated, hentries⟩ := link_congr hcontent.symm hsame hlink
  refine ⟨repeated, ?_, hentries, bytes_congr hentries⟩
  rw [relisting_eq hlink]
  exact assemble_eq_ok_iff.mpr ⟨htarget, again, hagain, hnone, hrepeated⟩

end Program

/-- Two labels before the code of a directive, one of them the aim of a jump. -/
theorem assemble_relisting_push : ∃ program repeated,
    assemble {} ["STACK_INIT", "label b ; loop", "Label a", "push v1", "jp b"] = .ok program ∧
    relisting program = ["LD_I 0xFFF", "LABEL a", "LABEL b", "LD_REG V0 V1", "STORE_REGS V0",
      "LD_I 0xFFE", "JP b"] ∧
    assemble {} (relisting program) = .ok repeated ∧
    List.Forall₂ SameEntry program.entries repeated.entries ∧ program.bytes = repeated.bytes := by
  have hlines : (assemble {} ["STACK_INIT", "label b ; loop", "Label a", "push v1", "jp b"]).map
      relisting = .ok ["LD_I 0xFFF", "LABEL a", "LABEL b", "LD_REG V0 V1", "STORE_REGS V0",
        "LD_I 0xFFE", "JP b"] := by
    decide +kernel
  obtain ⟨program, hprogram, hlines⟩ := map_eq_ok_iff.mp hlines
  obtain ⟨repeated, hrepeated, hentries, hbytes⟩ := assemble_relisting hprogram
  exact ⟨program, repeated, hprogram, hlines, hrepeated, hentries, hbytes⟩

end Chip8.Proofs
