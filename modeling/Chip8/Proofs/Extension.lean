import Mathlib
import Chip8.Proofs.Relisting

/-!
# Longer sources

Lines behind a source add code and labels and leave what is there as it is; the labels they add
stand behind the code above them. So the entries of a source stay, and only a label without an
instruction and a label without a line can be mended from below. Main statement:
`assemble_append_stable`.
-/

namespace Chip8.Proofs

/-! ### Words with more labels -/

/-- The second outcome is the first one, unless the first lacks a label. -/
def Completes {α : Type} (first second : Except Cause α) : Prop :=
  second = first ∨ ∃ owner name, first = .error (.unresolvedLabel owner name)

lemma Completes.bind {α β : Type} {first second : Except Cause α} {f g : α → Except Cause β}
    (h : Completes first second) (hrest : ∀ a, Completes (f a) (g a)) :
    Completes (first >>= f) (second >>= g) := by
  rcases h with rfl | ⟨owner, name, rfl⟩
  · cases second with
    | error cause => exact Or.inl rfl
    | ok a => exact hrest a
  · exact Or.inr ⟨owner, name, rfl⟩

section Words

variable {target place : Target} {table other : SymbolTable}

lemma completes_fill (h : ∀ owner name,
      Completes (table.address target owner name) (other.address place owner name))
    (owner : String) (slot : Slot) (operand : Operand) :
    Completes (slot.fill target table owner operand) (slot.fill place other owner operand) := by
  have hnumber : Completes (slot.number target table owner operand)
      (slot.number place other owner operand) := by
    cases slot <;> cases operand <;> first | exact Or.inl rfl | exact h owner _
  exact hnumber.bind fun number => Or.inl rfl

lemma completes_fillAll (h : ∀ owner name,
      Completes (table.address target owner name) (other.address place owner name))
    (owner : String) (slots : List Slot) (operands : List Operand) :
    Completes (Slot.fillAll target table owner slots operands)
      (Slot.fillAll place other owner slots operands) := by
  induction slots generalizing operands with
  | nil => exact Or.inl rfl
  | cons slot slots ih =>
    cases operands with
    | nil => exact Or.inl rfl
    | cons operand operands =>
      exact (completes_fill h owner slot operand).bind fun digits =>
        (ih operands).bind fun others => Or.inl rfl

lemma completes_nibbles (h : ∀ owner name,
      Completes (table.address target owner name) (other.address place owner name))
    (mnemonic : Mnemonic) (operands : List Operand) :
    Completes (mnemonic.nibbles target table operands) (mnemonic.nibbles place other operands) := by
  refine Completes.bind (Or.inl rfl) fun _ => ?_
  exact (completes_fillAll h _ _ _).bind fun fields => Or.inl rfl

/-- A word stays the same when more labels are known. -/
theorem word_of_completes (h : ∀ owner name,
      Completes (table.address target owner name) (other.address place owner name))
    {first second : Instruction} (hcontent : content first = content second) {word : UInt16}
    (hword : first.word target table = .ok word) : second.word place other = .ok word := by
  obtain ⟨hmnemonic, hoperands⟩ := Prod.mk.inj hcontent
  unfold Instruction.word at hword ⊢
  rw [atLine_eq_ok_iff] at hword ⊢
  rw [← hmnemonic, ← hoperands]
  rcases completes_nibbles h first.mnemonic first.operands with hsame | ⟨owner, name, hmissing⟩
  · rwa [hsame]
  · rw [hmissing] at hword
    simp [Except.map] at hword

lemma mapM_word_of_completes (h : ∀ owner name,
      Completes (table.address target owner name) (other.address place owner name))
    {code again : List Instruction} (hcontent : code.map content = again.map content)
    {words : List UInt16} (hwords : code.mapM (Instruction.word target table) = .ok words) :
    again.mapM (Instruction.word place other) = .ok words := by
  rw [mapM_eq_ok_iff] at hwords ⊢
  induction hwords generalizing again with
  | nil =>
    obtain rfl := List.map_eq_nil_iff.mp hcontent.symm
    exact .nil
  | cons hword _ ih =>
    obtain ⟨instruction, rest, rfl, hinstruction, hrest⟩ := List.map_eq_cons_iff.mp hcontent.symm
    exact .cons (word_of_completes h hinstruction.symm hword) (ih hrest.symm)

/-- An instruction that has a word only when more labels are known lacks a label. -/
theorem unresolved_of_completes (h : ∀ owner name,
      Completes (table.address target owner name) (other.address place owner name))
    {instruction : Instruction} {fault : Fault} {word : UInt16}
    (hfault : instruction.word target table = .error fault)
    (hword : instruction.word place other = .ok word) :
    ∃ owner name, fault = .source instruction.line (.unresolvedLabel owner name) := by
  unfold Instruction.word at hfault hword
  obtain ⟨cause, hcause, rfl⟩ := atLine_eq_error_iff.mp hfault
  rcases completes_nibbles h instruction.mnemonic instruction.operands with
    hsame | ⟨owner, name, hmissing⟩
  · rw [atLine_eq_ok_iff, hsame, hcause] at hword
    simp at hword
  · rw [hmissing, map_eq_error_iff, Except.error.injEq] at hcause
    exact ⟨owner, name, by rw [hcause]⟩

end Words

/-! ### Drafts with more lines -/

/-- The second draft has the code and the labels of the first, and every other label of it stands
behind that code. -/
structure Extends (first second : Draft) : Prop where
  code : first.code.toList <+: second.code.toList
  bindings : ∀ binding ∈ first.table.bindings, binding ∈ second.table.bindings
  behind : ∀ binding ∈ second.table.bindings,
    binding ∈ first.table.bindings ∨ first.code.size ≤ binding.index

section Extends

variable {first second third : Draft}

lemma Extends.refl (draft : Draft) : Extends draft draft :=
  ⟨List.prefix_rfl, fun _ hmem => hmem, fun _ hmem => Or.inl hmem⟩

lemma Extends.size_le (h : Extends first second) : first.code.size ≤ second.code.size := by
  simpa using h.code.length_le

lemma Extends.trans (h : Extends first second) (hnext : Extends second third) :
    Extends first third := by
  refine ⟨h.code.trans hnext.code, ?_, ?_⟩
  · intro binding hmem
    exact hnext.bindings binding (h.bindings binding hmem)
  · intro binding hmem
    rcases hnext.behind binding hmem with hmem | hindex
    · exact h.behind binding hmem
    · exact Or.inr (h.size_le.trans hindex)

lemma Step.draft_extends {line : Nat} {draft next : Draft} {statement : Statement}
    {code : List Instruction} (h : Step line draft statement code next) : Extends draft next := by
  have hcode : draft.code.toList <+: next.code.toList := by
    rw [h.code_eq]
    exact List.prefix_append _ _
  cases h with
  | blank => exact .refl draft
  | stack => exact ⟨hcode, fun _ hmem => hmem, fun _ hmem => Or.inl hmem⟩
  | instruction => exact ⟨hcode, fun _ hmem => hmem, fun _ hmem => Or.inl hmem⟩
  | label hbind =>
    refine ⟨hcode, ?_, ?_⟩
    · intro binding hmem
      exact (mem_bindings_bind hbind).mpr (Or.inr hmem)
    · intro binding hmem
      rcases (mem_bindings_bind hbind).mp hmem with rfl | hmem
      · exact Or.inr le_rfl
      · exact Or.inl hmem

/-- Reading on only adds to the draft. -/
theorem addLines_extends {draft next : Draft} {line : Nat} {texts : List String}
    (h : draft.addLines line texts = .ok next) : Extends draft next := by
  induction texts generalizing draft line with
  | nil =>
    obtain rfl := Except.ok.inj h
    exact .refl draft
  | cons text texts ih =>
    unfold Draft.addLines at h
    cases hline : draft.addLine line text with
    | error fault => simp [hline] at h
    | ok middle =>
      rw [hline] at h
      obtain ⟨statement, code, -, hstep⟩ := addLine_eq_ok_iff.mp hline
      exact hstep.draft_extends.trans (ih h)

lemma Extends.find?_eq (h : Extends first second) {name : String} {binding : Binding}
    (hfind : first.table.find? name = some binding) :
    second.table.find? name = some binding := by
  rw [SymbolTable.find?_eq_some_iff] at hfind ⊢
  exact ⟨h.bindings binding hfind.1, hfind.2⟩

lemma Extends.completes_address (h : Extends first second) (target : Target) (owner name : String) :
    Completes (first.table.address target owner name)
      (second.table.address target owner name) := by
  unfold SymbolTable.address
  cases hfind : first.table.find? name with
  | none => exact Or.inr ⟨owner, name, rfl⟩
  | some binding =>
    rw [h.find?_eq hfind]
    exact Or.inl rfl

lemma Extends.namesAt_eq (h : Extends first second) {index : Nat}
    (hindex : index < first.code.size) :
    second.table.namesAt index = first.table.namesAt index := by
  apply (second.table.pairwise_namesAt index).eq_of_mem_iff (first.table.pairwise_namesAt index)
  intro name
  rw [SymbolTable.mem_namesAt, SymbolTable.mem_namesAt]
  constructor
  · rintro ⟨binding, hmem, hname, rfl⟩
    rcases h.behind binding hmem with hmem | hbehind
    · exact ⟨binding, hmem, hname, rfl⟩
    · omega
  · rintro ⟨binding, hmem, hname, rfl⟩
    exact ⟨binding, h.bindings binding hmem, hname, rfl⟩

/-- The entries of a draft are the first entries of every longer one. -/
theorem Extends.entries (h : Extends first second) {base : UInt16} {target : Target}
    {program whole : Program}
    (hprogram : Program.link base target first.table first.code.toList = .ok program)
    (hwhole : Program.link base target second.table second.code.toList = .ok whole) :
    program.entries <+: whole.entries := by
  rw [List.prefix_iff_getElem?]
  intro i hi
  obtain ⟨instruction, word, hcode, hword, heq⟩ :=
    (getElem?_entries_iff hprogram).mp (List.getElem?_eq_getElem hi)
  obtain ⟨hlt, rfl⟩ := List.getElem?_eq_some_iff.mp hcode
  rw [getElem?_entries_iff hwhole]
  refine ⟨_, word, List.prefix_iff_getElem?.mp h.code i hlt, ?_, ?_⟩
  · exact word_of_completes (h.completes_address target) rfl hword
  · rw [heq, h.namesAt_eq (by simpa using hlt)]

end Extends

/-! ### Sources with more lines -/

/-- The faults that lines behind a source can mend. -/
inductive Mendable : Fault → Prop
  | trailing {line : Nat} {label : String} : Mendable (.source line (.trailingLabel label))
  | unresolved {line : Nat} {owner label : String} :
      Mendable (.source line (.unresolvedLabel owner label))

section Sources

variable {target : Target} {first second : List String}

lemma exists_extends_of_scan {whole : Draft} (h : scan target (first ++ second) = .ok whole) :
    ∃ draft, scan target first = .ok draft ∧
      draft.addLines (first.length + 1) second = .ok whole ∧ Extends draft whole := by
  rw [scan_append, bind_eq_ok_iff] at h
  obtain ⟨draft, hdraft, hrest⟩ := h
  exact ⟨draft, hdraft, hrest, addLines_extends hrest⟩

lemma entries_append {program whole : Program} (h : assemble target first = .ok program)
    (hwhole : assemble target (first ++ second) = .ok whole) :
    program.entries <+: whole.entries := by
  obtain ⟨-, draft, hscan, -, hlink⟩ := assemble_eq_ok_iff.mp h
  obtain ⟨-, next, hnext, -, hlink'⟩ := assemble_eq_ok_iff.mp hwhole
  obtain ⟨draft', hscan', -, hextends⟩ := exists_extends_of_scan hnext
  obtain rfl := Except.ok.inj (hscan.symm.trans hscan')
  exact hextends.entries hlink hlink'

/-- A fault that is gone in a longer source is one that can be mended. -/
lemma mendable_of_append {fault : Fault} {whole : Program}
    (h : assemble target first = .error fault)
    (hwhole : assemble target (first ++ second) = .ok whole) : Mendable fault := by
  obtain ⟨htarget, next, hnext, -, hlink⟩ := assemble_eq_ok_iff.mp hwhole
  obtain ⟨draft, hscan, -, hextends⟩ := exists_extends_of_scan hnext
  rw [assemble_of_accepted htarget, hscan] at h
  rcases finish_eq_error_iff.mp h with ⟨label, -, rfl⟩ | ⟨-, hfault⟩
  · exact .trailing
  · obtain ⟨instruction, hmem, hword⟩ := exists_word_error hfault
    have hmem := hextends.code.subset hmem
    rw [← link_instructions hlink] at hmem
    obtain ⟨entry, hentry, rfl⟩ := List.mem_map.mp hmem
    obtain ⟨owner, name, rfl⟩ := unresolved_of_completes (hextends.completes_address target) hword
      (link_word hlink entry hentry)
    exact .unresolved

end Sources

/-- Lines behind a source leave its entries as they are, and the source stays refused unless the
fault is a label without an instruction or without a line. -/
theorem assemble_append_stable (target : Target) (first second : List String) :
    (∀ program whole, assemble target first = .ok program →
      assemble target (first ++ second) = .ok whole → program.entries <+: whole.entries) ∧
    ∀ fault, assemble target first = .error fault → ¬Mendable fault →
      ∃ other, assemble target (first ++ second) = .error other := by
  refine ⟨fun program whole => entries_append, ?_⟩
  intro fault hfault hmendable
  cases hwhole : assemble target (first ++ second) with
  | error other => exact ⟨other, rfl⟩
  | ok whole => exact absurd (mendable_of_append hfault hwhole) hmendable

/-- A jump back keeps its entry, and the label that a jump misses does not mend a wide literal. -/
theorem assemble_append_stable_jump : ∃ program whole other,
    assemble {} ["LABEL a", "JP a"] = .ok program ∧
    assemble {} (["LABEL a", "JP a"] ++ ["LABEL b", "JP b"]) = .ok whole ∧
    program.entries <+: whole.entries ∧
    assemble {} ["LD_BYTE V0 256", "JP end"] =
      .error (.source 1 (.operand "LD_BYTE" (.tooWide "0x100" 2))) ∧
    ¬Mendable (.source 1 (.operand "LD_BYTE" (.tooWide "0x100" 2))) ∧
    assemble {} (["LD_BYTE V0 256", "JP end"] ++ ["LABEL end", "CLS"]) = .error other := by
  have hprogram : (assemble {} ["LABEL a", "JP a"]).map Program.size = .ok 1 := by decide +kernel
  have hwhole : (assemble {} (["LABEL a", "JP a"] ++ ["LABEL b", "JP b"])).map Program.size =
      .ok 2 := by
    decide +kernel
  have hfault : assemble {} ["LD_BYTE V0 256", "JP end"] =
      .error (.source 1 (.operand "LD_BYTE" (.tooWide "0x100" 2))) := by
    decide +kernel
  have hmendable : ¬Mendable (.source 1 (.operand "LD_BYTE" (.tooWide "0x100" 2))) := nofun
  obtain ⟨program, hprogram, -⟩ := map_eq_ok_iff.mp hprogram
  obtain ⟨whole, hwhole, -⟩ := map_eq_ok_iff.mp hwhole
  obtain ⟨other, hother⟩ := (assemble_append_stable {} ["LD_BYTE V0 256", "JP end"]
    ["LABEL end", "CLS"]).2 _ hfault hmendable
  exact ⟨program, whole, other, hprogram, hwhole,
    (assemble_append_stable {} _ _).1 program whole hprogram hwhole, hfault, hmendable, hother⟩

end Chip8.Proofs
