import Mathlib
import Chip8.Proofs.Expansion
import Chip8.Proofs.Tables
import Chip8.Proofs.TwoRuns

/-!
# Names of labels

The assembler does nothing with the name of a label but compare it with others: a source whose
labels are renamed, one to one, makes the same bytes with the new names before the instructions, or
fails on the same line with a fault of the same kind. Main statement: `assemble_rename`.
-/

namespace Chip8.Proofs

/-- New names for labels, different ones for different labels. -/
structure Renaming where
  rename : String → String
  valid : ∀ name, Token.isLabelName name = true → Token.isLabelName (rename name) = true
  injective : ∀ first second, Token.isLabelName first = true → Token.isLabelName second = true →
    rename first = rename second → first = second

namespace Renaming

variable (rho : Renaming)

/-- The token with its new name if it is a valid name of a label. -/
def token (text : String) : String :=
  if Token.isLabelName text then rho.rename text else text

/-- The operand of an instruction with its new name if it refers to a label. -/
def reference (text : String) : String :=
  match Token.operand text with
  | .ok (.label name) => rho.rename name
  | _ => text

/-- The words of a line with labels renamed: behind `LABEL`, and behind a mnemonic. -/
def tokens : List String → List String
  | [] => []
  | head :: words =>
    if upper head = Statement.labelKeyword then head :: words.map rho.token
    else if (Mnemonic.ofName? head).isSome then head :: words.map rho.reference
    else head :: words

def operand : Operand → Operand
  | .label name => .label (rho.token name)
  | operand => operand

def instruction (instruction : Instruction) : Instruction :=
  { instruction with operands := instruction.operands.map rho.operand }

def statement : Statement → Statement
  | .label name => .label (rho.token name)
  | .instruction instruction => .instruction (rho.instruction instruction)
  | statement => statement

def binding (binding : Binding) : Binding :=
  { binding with name := rho.token binding.name }

end Renaming

namespace Renaming

/-- The line with labels renamed, a space between each two words. -/
def line (rho : Renaming) (text : String) : String :=
  String.intercalate " " (rho.tokens (tokensOf text))

/-- The renaming that exchanges two names. -/
def swap (first second : String) (hfirst : Token.isLabelName first = true)
    (hsecond : Token.isLabelName second = true) : Renaming where
  rename := Equiv.swap first second
  valid name hname := by
    rw [Equiv.swap_apply_def]
    split
    · exact hsecond
    · split
      · exact hfirst
      · exact hname
  injective _ _ _ _ h := (Equiv.swap first second).injective h

end Renaming

/-- The words of the second line are those of the first with labels renamed. -/
def Renames (rho : Renaming) (text other : String) : Prop :=
  tokensOf other = rho.tokens (tokensOf text)

instance (rho : Renaming) : DecidableRel (Renames rho) := fun text other =>
  inferInstanceAs (Decidable (tokensOf other = rho.tokens (tokensOf text)))

/-- The same word at the same address, of the same line. The new names are those of the old labels,
in the order of their bytes. -/
structure RenamedEntry (rho : Renaming) (entry copy : Entry) : Prop where
  address : copy.address = entry.address
  word : copy.word = entry.word
  line : copy.line = entry.line
  labels : copy.labels.Perm (entry.labels.map rho.rename)
  sorted : (copy.labels.map utf8).Pairwise (· < ·)

structure RenamedProgram (rho : Renaming) (program copy : Program) : Prop where
  bytes : copy.bytes = program.bytes
  entries : List.Forall₂ (RenamedEntry rho) program.entries copy.entries

/-- Equal bindings up to the names, in any order. -/
def RenamedTable (rho : Renaming) (table copy : SymbolTable) : Prop :=
  copy.bindings.Perm (table.bindings.map rho.binding)

structure RenamedDraft (rho : Renaming) (draft copy : Draft) : Prop where
  table : RenamedTable rho draft.table copy.table
  stack : copy.stack = draft.stack
  code : copy.code = draft.code.map rho.instruction
  begun : copy.begun = draft.begun
  lastLabel : copy.lastLabel = draft.lastLabel.map rho.binding

/-! ### Tokens -/

section Tokens

variable (rho : Renaming) {text : String}

lemma token_of_isLabelName (h : Token.isLabelName text = true) :
    rho.token text = rho.rename text :=
  if_pos h

lemma token_of_not_isLabelName (h : Token.isLabelName text = false) : rho.token text = text :=
  if_neg (by simp [h])

lemma isLabelName_token (text : String) :
    Token.isLabelName (rho.token text) = Token.isLabelName text := by
  cases h : Token.isLabelName text with
  | true => rw [token_of_isLabelName rho h, rho.valid text h]
  | false => rw [token_of_not_isLabelName rho h, h]

/-- Words that are no names stay as they are, and a name becomes none of them. -/
lemma token_injective : Function.Injective rho.token := by
  intro first second h
  have hvalid : Token.isLabelName first = Token.isLabelName second := by
    rw [← isLabelName_token rho first, h, isLabelName_token rho second]
  cases hsecond : Token.isLabelName second with
  | true =>
    rw [hsecond] at hvalid
    rw [token_of_isLabelName rho hvalid, token_of_isLabelName rho hsecond] at h
    exact rho.injective first second hvalid hsecond h
  | false =>
    rw [hsecond] at hvalid
    rwa [token_of_not_isLabelName rho hvalid, token_of_not_isLabelName rho hsecond] at h

lemma label_of_operand {name : String} (h : Token.operand text = .ok (.label name)) :
    text = name ∧ Token.isLabelName name = true := by
  have hname : Token.isLabelName name = true := by
    cases readable_of_operand h with
    | label hname => exact hname
  refine ⟨?_, hname⟩
  unfold Token.operand at h
  split at h
  · simp at h
  · split at h
    · split at h
      · exact Operand.label.inj (Except.ok.inj h)
      · simp at h
    · obtain ⟨value, -, hvalue⟩ := map_eq_ok_iff.mp h
      simp at hvalue

lemma reference_eq_token (text : String) : rho.reference text = rho.token text := by
  cases hname : Token.isLabelName text with
  | true =>
    unfold Renaming.reference
    rw [operand_of_isLabelName hname, token_of_isLabelName rho hname]
  | false =>
    unfold Renaming.reference
    rw [token_of_not_isLabelName rho hname]
    split
    · next name hlabel =>
      obtain ⟨rfl, hvalid⟩ := label_of_operand hlabel
      simp [hname] at hvalid
    · rfl

lemma operand_token (text : String) :
    Token.operand (rho.token text) = (Token.operand text).map rho.operand := by
  cases hname : Token.isLabelName text with
  | true =>
    have hnew : Token.isLabelName (rho.token text) = true := by rw [isLabelName_token, hname]
    rw [operand_of_isLabelName hname, operand_of_isLabelName hnew]
    rfl
  | false =>
    rw [token_of_not_isLabelName rho hname]
    cases hoperand : Token.operand text with
    | error fault => rfl
    | ok operand =>
      cases operand with
      | register number => rfl
      | literal value => rfl
      | label name =>
        obtain ⟨rfl, hvalid⟩ := label_of_operand hoperand
        simp [hname] at hvalid

lemma solid_token (h : Solid text) : Solid (rho.token text) := by
  cases hname : Token.isLabelName text with
  | true =>
    rw [token_of_isLabelName rho hname]
    exact (plain_of_isLabelName (rho.valid text hname)).solid
  | false => rwa [token_of_not_isLabelName rho hname]

/-- Labels can be renamed on every line. -/
theorem renames_line (text : String) : Renames rho text (rho.line text) := by
  have hsolid : ∀ part ∈ rho.tokens (tokensOf text), Solid part := by
    have hwords : ∀ word ∈ tokensOf text, Solid word := fun _ => solid_of_mem_tokensOf
    generalize tokensOf text = words at hwords
    cases words with
    | nil => simp [Renaming.tokens]
    | cons head words =>
      obtain ⟨hhead, hwords⟩ := List.forall_mem_cons.mp hwords
      have hrenamed : ∀ word ∈ words.map rho.token, Solid word := by
        intro word hword
        obtain ⟨old, hold, rfl⟩ := List.mem_map.mp hword
        exact solid_token rho (hwords old hold)
      rw [Renaming.tokens, funext (reference_eq_token rho)]
      split
      · exact List.forall_mem_cons.mpr ⟨hhead, hrenamed⟩
      · split
        · exact List.forall_mem_cons.mpr ⟨hhead, hrenamed⟩
        · exact List.forall_mem_cons.mpr ⟨hhead, hwords⟩
  exact tokensOf_intercalate hsolid

end Tokens

/-! ### Statements -/

section Statements

variable (rho : Renaming) (line : Nat)

lemma operands_rename (owner : String) (words : List String) :
    Token.operands owner (words.map rho.reference) =
      (Token.operands owner words).map (List.map rho.operand) := by
  induction words with
  | nil => rfl
  | cons word words ih =>
    rw [List.map_cons, Token.operands, Token.operands, ih, reference_eq_token, operand_token]
    cases Token.operand word with
    | error fault => rfl
    | ok operand => cases Token.operands owner words <;> rfl

lemma instruction_read_rename (head : String) (words : List String) :
    Instruction.read line head (words.map rho.reference) =
      (Instruction.read line head words).map rho.instruction := by
  unfold Instruction.read
  cases Mnemonic.ofName? head with
  | none => rfl
  | some mnemonic =>
    simp only [List.length_map, operands_rename, map_bind]
    apply bind_congr
    intro _
    cases Token.operands mnemonic.name words <;> rfl

/-- The words of a line with labels renamed write the statement with labels renamed. -/
theorem ofTokens_rename (words : List String) :
    Statement.ofTokens line (rho.tokens words) =
      (Statement.ofTokens line words).map rho.statement := by
  cases words with
  | nil => rfl
  | cons head words =>
    by_cases hlabel : upper head = Statement.labelKeyword
    · simp only [Renaming.tokens, Statement.ofTokens, if_pos hlabel, List.length_map]
      cases words with
      | nil => rfl
      | cons word words => cases words <;> rfl
    · cases hmnemonic : Mnemonic.ofName? head with
      | some mnemonic =>
        rw [Renaming.tokens, if_neg hlabel, hmnemonic, Option.isSome_some, if_pos rfl]
        simp only [Statement.ofTokens, if_neg hlabel, directive_ofName?_of_mnemonic hmnemonic,
          instruction_read_rename]
        cases Instruction.read line head words <;> rfl
      | none =>
        rw [Renaming.tokens, if_neg hlabel, hmnemonic, Option.isSome_none, if_neg (by simp)]
        simp only [Statement.ofTokens, if_neg hlabel, Instruction.read, hmnemonic]
        cases Directive.ofName? head <;> rfl

end Statements

/-! ### Tables -/

section Tables

variable {rho : Renaming} {table copy : SymbolTable}

lemma RenamedTable.find?_eq (h : RenamedTable rho table copy) (name : String) :
    copy.find? (rho.token name) = (table.find? name).map rho.binding := by
  cases hfind : table.find? name with
  | some binding =>
    obtain ⟨hmem, rfl⟩ := SymbolTable.find?_eq_some_iff.mp hfind
    refine SymbolTable.find?_eq_some_iff.mpr ⟨?_, rfl⟩
    rw [h.mem_iff]
    exact List.mem_map_of_mem hmem
  | none =>
    refine SymbolTable.find?_eq_none_iff.mpr ?_
    intro other hother hname
    rw [h.mem_iff, List.mem_map] at hother
    obtain ⟨binding, hmem, rfl⟩ := hother
    exact SymbolTable.find?_eq_none_iff.mp hfind binding hmem (token_injective rho hname)

lemma RenamedTable.namesAt_perm (h : RenamedTable rho table copy) (index : Nat) :
    (copy.namesAt index).Perm ((table.namesAt index).map rho.rename) := by
  have hnames : (table.namesAt index).map rho.rename = (table.namesAt index).map rho.token := by
    apply List.map_congr_left
    intro name hname
    exact (token_of_isLabelName rho (isLabelName_of_mem_namesAt hname)).symm
  have hperm := (h.filter (·.index == index)).map (·.name)
  rw [List.filter_map, List.map_map] at hperm
  rw [hnames, SymbolTable.namesAt, SymbolTable.namesAt, List.map_map]
  exact hperm

/-- A name is new in one table if its new name is in the other. -/
lemma bind_rename (h : RenamedTable rho table copy) (binding : Binding) :
    Alike SameKind (RenamedTable rho) (table.bind binding) (copy.bind (rho.binding binding)) := by
  have hvalid : Token.isLabelName (rho.binding binding).name = Token.isLabelName binding.name :=
    isLabelName_token rho binding.name
  have hfind := h.find?_eq binding.name
  cases hbind : table.bind binding with
  | ok next =>
    obtain ⟨hname, hfresh, hnext⟩ := SymbolTable.bind_eq_ok_iff.mp hbind
    rw [hfresh] at hfind
    obtain ⟨other, hother⟩ := exists_bind (rho.binding binding) (hvalid.trans hname)
      (indexOf?_eq_none_iff.mpr hfind)
    rw [hother]
    refine .ok ?_
    rw [RenamedTable, hnext, (SymbolTable.bind_eq_ok_iff.mp hother).2.2]
    refine (insertByName_perm _ _).trans ?_
    exact (h.cons _).trans ((insertByName_perm binding table.bindings).symm.map rho.binding)
  | error cause =>
    rcases SymbolTable.bind_eq_error_iff.mp hbind with ⟨hname, rfl⟩ | ⟨hname, first, hfirst, rfl⟩
    · rw [SymbolTable.bind_eq_error_iff.mpr (Or.inl ⟨hvalid.trans hname, rfl⟩)]
      exact .error rfl
    · rw [hfirst] at hfind
      rw [SymbolTable.bind_eq_error_iff.mpr (Or.inr ⟨hvalid.trans hname, _, hfind, rfl⟩)]
      exact .error rfl

end Tables

/-! ### The first pass -/

section FirstPass

variable {rho : Renaming} {draft copy : Draft} {line : Nat}

/-- The code of a directive refers to no label. -/
lemma Expansion.rename_eq {stack : Stack} {first : Bool} {directive : Directive}
    {tokens : List String} {cursor : Nat} {code : List Instruction}
    (h : Expansion stack line first directive tokens cursor code) :
    code.map rho.instruction = code := by
  have hcode : ∃ top, ∀ instruction ∈ code, StackInstruction line top instruction := by
    cases h with
    | start => exact ⟨stack.top, by simpa using .setPointer le_rfl⟩
    | @push cursor _ _ _ _ _ _ _ hregisters hsave =>
      exact ⟨cursor, stackInstruction_of_saveAll hsave hregisters.lt le_rfl⟩
    | @pop cursor _ _ _ hregister _ =>
      refine ⟨cursor + 1, ?_⟩
      simp only [List.mem_cons, List.not_mem_nil, or_false, forall_eq_or_imp, forall_eq]
      exact ⟨.setPointer le_rfl, .load, .copy (Token.lt_of_registerNumber? hregister) (by decide)⟩
    | reset => exact ⟨cursor, by simpa using .setPointer le_rfl⟩
  obtain ⟨top, hcode⟩ := hcode
  have hsame : ∀ instruction ∈ code, rho.instruction instruction = instruction := by
    intro instruction hmem
    cases hcode instruction hmem <;> rfl
  rw [List.map_congr_left hsame, List.map_id']

/-- Two equal stacks give a directive the same code, whatever the labels are called. -/
lemma code_rename (rho : Renaming) (stack : Stack) (directive : Directive) (tokens : List String)
    (line : Nat) (first : Bool) :
    Alike SameKind (fun result copy => copy = result ∧ result.2.map rho.instruction = result.2)
      (stack.code directive tokens line first) (stack.code directive tokens line first) := by
  cases h : stack.code directive tokens line first with
  | error cause => exact .error rfl
  | ok result => exact .ok ⟨rfl, (code_eq_ok_iff.mp h).rename_eq⟩

lemma RenamedDraft.add (h : RenamedDraft rho draft copy) (statement : Statement) :
    Alike SameKind (RenamedDraft rho) (draft.add line statement)
      (copy.add line (rho.statement statement)) := by
  have hsize : copy.code.size = draft.code.size := by rw [h.code, Array.size_map]
  cases statement with
  | blank => exact .ok h
  | label name =>
    change Alike _ _ _ (copy.add line (.label (rho.token name)))
    rw [add_label, add_label, hsize]
    refine (bind_rename h.table ⟨name, draft.code.size, line⟩).map ?_
    intro table other htable
    exact ⟨htable, h.stack, h.code, rfl, rfl⟩
  | stack directive tokens =>
    change Alike _ _ _ (copy.add line (.stack directive tokens))
    rw [add_stack, add_stack, h.stack, h.begun]
    refine (code_rename rho draft.stack directive tokens line _).map ?_
    rintro ⟨cursor, code⟩ _ ⟨rfl, hcode⟩
    refine ⟨h.table, rfl, ?_, rfl, h.lastLabel⟩
    apply Array.toList_inj.mp
    simp [h.code, hcode]
  | instruction instruction =>
    refine .ok ⟨h.table, h.stack, ?_, rfl, h.lastLabel⟩
    simp [h.code]

/-- A line with labels renamed adds the same to a draft with labels renamed. -/
theorem RenamedDraft.addLine (h : RenamedDraft rho draft copy) {text other : String}
    (htext : Renames rho text other) (line : Nat) :
    Alike SameFault (RenamedDraft rho) (draft.addLine line text) (copy.addLine line other) := by
  have hline : Alike SameKind (RenamedDraft rho) (Statement.read line text >>= draft.add line)
      (Statement.read line other >>= copy.add line) := by
    have hother : Statement.read line other =
        (Statement.read line text).map rho.statement := by
      rw [Statement.read, htext, ofTokens_rename]
      rfl
    rw [hother]
    cases Statement.read line text with
    | error cause => exact .error rfl
    | ok statement => exact h.add statement
  exact hline.atLine fun _ _ hkind => hkind.sameFault line

end FirstPass

/-! ### The second pass -/

section SecondPass

variable {rho : Renaming} {table names : SymbolTable} (h : RenamedTable rho table names)
  (target : Target) (owner : String)

include h

lemma address_rename (name : String) : Alike SameKind Eq (table.address target owner name)
    (names.address target owner (rho.token name)) := by
  unfold SymbolTable.address
  rw [h.find?_eq]
  cases table.find? name with
  | none => exact .error rfl
  | some binding => exact SameKind.alike_self _

lemma number_rename (slot : Slot) (operand : Operand) :
    Alike SameKind Eq (slot.number target table owner operand)
      (slot.number target names owner (rho.operand operand)) := by
  cases operand with
  | register number => cases slot <;> exact SameKind.alike_self _
  | literal value => cases slot <;> exact SameKind.alike_self _
  | label name =>
    cases slot with
    | address => exact address_rename h target owner name
    | register => exact .error rfl
    | byte => exact .error rfl
    | nibble => exact .error rfl

lemma fill_rename (slot : Slot) (operand : Operand) :
    Alike SameKind Eq (slot.fill target table owner operand)
      (slot.fill target names owner (rho.operand operand)) := by
  refine (number_rename h target owner slot operand).bind ?_
  rintro number _ rfl
  exact SameKind.alike_self _

lemma fillAll_rename (slots : List Slot) (operands : List Operand) :
    Alike SameKind Eq (Slot.fillAll target table owner slots operands)
      (Slot.fillAll target names owner slots (operands.map rho.operand)) := by
  induction slots generalizing operands with
  | nil => exact .ok rfl
  | cons slot slots ih =>
    cases operands with
    | nil => exact .ok rfl
    | cons operand operands =>
      refine (fill_rename h target owner slot operand).bind ?_
      rintro first _ rfl
      refine (ih operands).bind ?_
      rintro others _ rfl
      exact .ok rfl

lemma word_rename (instruction : Instruction) :
    Alike SameFault Eq (instruction.word target table)
      ((rho.instruction instruction).word target names) := by
  have hnibbles : Alike SameKind Eq
      (instruction.mnemonic.nibbles target table instruction.operands)
      (instruction.mnemonic.nibbles target names (instruction.operands.map rho.operand)) := by
    unfold Mnemonic.nibbles
    rw [List.length_map]
    refine (SameKind.alike_self _).bind fun _ _ _ => ?_
    refine (fillAll_rename h target instruction.mnemonic.name _ instruction.operands).bind ?_
    rintro fields _ rfl
    exact .ok rfl
  refine Alike.atLine (hnibbles.map ?_) fun _ _ hkind => hkind.sameFault instruction.line
  rintro nibbles _ rfl
  rfl

lemma entry_rename (base : UInt16) (index : Nat) (instruction : Instruction) :
    Alike SameFault (RenamedEntry rho) (Program.entry base target table index instruction)
      (Program.entry base target names index (rho.instruction instruction)) := by
  refine (word_rename h target instruction).map ?_
  rintro word _ rfl
  exact ⟨rfl, rfl, rfl, h.namesAt_perm index, pairwise_utf8_namesAt names index⟩

end SecondPass

section Programs

variable {rho : Renaming}

lemma RenamedProgram.of_entries {program copy : Program}
    (h : List.Forall₂ (RenamedEntry rho) program.entries copy.entries) :
    RenamedProgram rho program copy := by
  refine ⟨?_, h⟩
  have hwords : copy.entries.map (·.word) = program.entries.map (·.word) := by
    rw [← List.forall₂_eq_eq_eq, List.forall₂_map_left_iff, List.forall₂_map_right_iff]
    exact h.flip.imp fun _ _ hentry => hentry.word
  rw [bytes_eq_flatMap_words, bytes_eq_flatMap_words, hwords]

theorem RenamedDraft.finish {draft copy : Draft} (h : RenamedDraft rho draft copy)
    (target : Target) :
    Alike SameFault (RenamedProgram rho) (draft.finish target) (copy.finish target) := by
  have hcode : List.Forall₂ (fun instruction renamed => renamed = rho.instruction instruction)
      draft.code.toList copy.code.toList := by
    rw [h.code, Array.toList_map, List.forall₂_map_right_iff, List.forall₂_same]
    exact fun _ _ => rfl
  have htrailing : copy.trailing? = draft.trailing?.map rho.binding :=
    trailing?_map (fun _ => rfl) h.lastLabel (by rw [h.code, Array.size_map])
  refine finish_alike htrailing (fun label => ⟨rfl, rfl⟩) ?_
  refine (link_alike (R := RenamedEntry rho) hcode ?_).imp (fun _ _ hfault => hfault)
    fun _ _ hentries => .of_entries hentries
  rintro index instruction _ rfl
  exact entry_rename h.table target target.loadBase index instruction

end Programs

/-! ### Sources -/

lemma scan_rename (rho : Renaming) (target : Target) {lines renamed : List String}
    (h : List.Forall₂ (Renames rho) lines renamed) :
    Alike SameFault (RenamedDraft rho) (scan target lines) (scan target renamed) := by
  have hnew : RenamedDraft rho (Draft.new target) (Draft.new target) :=
    ⟨.nil, rfl, by simp [Draft.new], rfl, rfl⟩
  exact scan_alike h (fun number _ _ _ _ htext hdraft => hdraft.addLine htext number) hnew

/-- A source with labels renamed makes the same program with labels renamed, or fails alike. -/
theorem assemble_rename (rho : Renaming) (target : Target) {lines renamed : List String}
    (h : List.Forall₂ (Renames rho) lines renamed) :
    Alike SameFault (RenamedProgram rho) (assemble target lines) (assemble target renamed) :=
  assemble_alike (fun fault => .refl (.target fault)) (scan_rename rho target h)
    fun _ _ hdraft => hdraft.finish target

/-- Every renaming can be carried out on every source. -/
theorem assemble_map_line (rho : Renaming) (target : Target) (lines : List String) :
    Alike SameFault (RenamedProgram rho) (assemble target lines)
      (assemble target (lines.map rho.line)) := by
  have hlines : List.Forall₂ (Renames rho) lines (lines.map rho.line) := by
    rw [List.forall₂_map_right_iff, List.forall₂_same]
    exact fun text _ => renames_line rho text
  exact assemble_alike (fun fault => .refl (.target fault)) (scan_rename rho target hlines)
    fun _ _ hdraft => hdraft.finish target

/-- A label gets the name of a mnemonic, and comes before the other one in the order of names. -/
theorem assemble_rename_swap : ∃ program copy,
    List.Forall₂ (Renames (.swap "loop" "CLS" (by decide) (by decide)))
      ["LABEL end", "LABEL loop ; twice", "cls", "jp loop", "CALL end"]
      ["LABEL end", "LABEL CLS ; twice", "cls", "jp CLS", "CALL end"] ∧
    assemble {} ["LABEL end", "LABEL loop ; twice", "cls", "jp loop", "CALL end"] = .ok program ∧
    program.entries.map (·.labels) = [["end", "loop"], [], []] ∧
    assemble {} ["LABEL end", "LABEL CLS ; twice", "cls", "jp CLS", "CALL end"] = .ok copy ∧
    RenamedProgram (.swap "loop" "CLS" (by decide) (by decide)) program copy ∧
    copy.entries.map (·.labels) = [["CLS", "end"], [], []] := by
  have hlines : List.Forall₂ (Renames (.swap "loop" "CLS" (by decide) (by decide)))
      ["LABEL end", "LABEL loop ; twice", "cls", "jp loop", "CALL end"]
      ["LABEL end", "LABEL CLS ; twice", "cls", "jp CLS", "CALL end"] := by
    decide +kernel
  have hlabels : (assemble {} ["LABEL end", "LABEL loop ; twice", "cls", "jp loop",
      "CALL end"]).map (fun program => program.entries.map (·.labels)) =
      .ok [["end", "loop"], [], []] := by
    decide +kernel
  have hrenamed : (assemble {} ["LABEL end", "LABEL CLS ; twice", "cls", "jp CLS",
      "CALL end"]).map (fun program => program.entries.map (·.labels)) =
      .ok [["CLS", "end"], [], []] := by
    decide +kernel
  obtain ⟨program, hprogram, hlabels⟩ := map_eq_ok_iff.mp hlabels
  obtain ⟨copy, hcopy, hrenamed⟩ := map_eq_ok_iff.mp hrenamed
  have halike := assemble_rename (.swap "loop" "CLS" (by decide) (by decide)) {} hlines
  rw [hprogram, hcopy] at halike
  obtain ⟨_, hsame, hpair⟩ := halike.exists_of_ok
  obtain rfl := Except.ok.inj hsame
  exact ⟨program, copy, hlines, hprogram, hlabels, hcopy, hpair, hrenamed⟩

end Chip8.Proofs
