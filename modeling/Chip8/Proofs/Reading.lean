import Mathlib
import Chip8.Statement
import Chip8.Proofs.Outcome
import Chip8.Proofs.Text

/-!
# Printing and reading

What the reader makes of the tokens of a line, and that it reads back what the assembler prints:
`operand_text` for one operand and `read_text` for an instruction.
-/

namespace Chip8.Proofs

/-! ### Operands -/

/-- The operand is what some token denotes. -/
inductive Readable : Operand → Prop
  | register {number : Nat} (hnumber : number < 16) : Readable (.register number)
  | literal {value : Nat} (hvalue : value < UInt64.size) : Readable (.literal value)
  | label {name : String} (hname : Token.isLabelName name = true) : Readable (.label name)

lemma readable_of_operand {token : String} {operand : Operand}
    (h : Token.operand token = .ok operand) : Readable operand := by
  unfold Token.operand at h
  split at h
  · next number hnumber =>
    obtain rfl := Except.ok.inj h
    exact .register (Token.lt_of_registerNumber? hnumber)
  · next hregister =>
    by_cases hletter : Token.startsWithLetter token = true
    · by_cases hname : token.toList.all Token.isNameChar = true
      · rw [if_pos hletter, if_pos hname] at h
        obtain rfl := Except.ok.inj h
        refine .label ?_
        simp [Token.isLabelName, hletter, hname, hregister]
      · simp [hletter, hname] at h
    · rw [if_neg hletter] at h
      obtain ⟨value, hvalue, rfl⟩ := map_eq_ok_iff.mp h
      exact .literal (Token.literal_eq_ok_iff.mp hvalue).2

lemma operand_of_isLabelName {name : String} (h : Token.isLabelName name = true) :
    Token.operand name = .ok (.label name) := by
  simp only [Token.isLabelName, Bool.and_eq_true, Option.isNone_iff_eq_none] at h
  obtain ⟨⟨hletter, hname⟩, hregister⟩ := h
  simp [Token.operand, hregister, hletter, hname]

lemma literal_of_operand {token : String} {value : Nat}
    (h : Token.operand token = .ok (.literal value)) : Numeral.read? token.toList = some value := by
  unfold Token.operand at h
  split at h
  · simp at h
  · split at h
    · split at h <;> simp at h
    · obtain ⟨number, hnumber, hvalue⟩ := map_eq_ok_iff.mp h
      obtain rfl := Operand.literal.inj hvalue
      exact (Token.literal_eq_ok_iff.mp hnumber).1

/-- A token is too wide only if it is a numeral of more than 64 bits. -/
lemma tooWide_of_operand {token shown : String} {digits : Nat}
    (h : Token.operand token = .error (.tooWide shown digits)) : ∃ value,
      Numeral.read? token.toList = some value ∧ UInt64.size ≤ value ∧ shown = token ∧
      digits = 16 := by
  unfold Token.operand at h
  split at h
  · simp at h
  · split at h
    · split at h <;> simp at h
    · have hliteral := map_eq_error_iff.mp h
      unfold Token.literal at hliteral
      split at hliteral
      · next value hvalue =>
        split at hliteral
        · simp at hliteral
        · next hlarge =>
          obtain ⟨rfl, rfl⟩ := OperandFault.tooWide.inj (Except.error.inj hliteral)
          exact ⟨value, hvalue, Nat.le_of_not_lt hlarge, rfl, rfl⟩
      · simp at hliteral

lemma toList_hexPrefixed (value : Nat) :
    (Numeral.hexPrefixed value).toList = '0' :: 'x' :: Numeral.hex value := by
  simp [Numeral.hexPrefixed]

theorem operand_text {operand : Operand} (h : Readable operand) :
    Token.operand operand.text = .ok operand := by
  cases h with
  | @register number hnumber =>
    have htext : (Operand.register number).text.toList = ['V', (Nat.digitChar number).toUpper] := by
      simp [Operand.text, Numeral.hex_of_lt hnumber]
    have hregister : Token.registerNumber? (Operand.register number).text.toList = some number := by
      rw [htext]
      simpa [Token.registerNumber?] using Numeral.digit?_digitChar number hnumber
    simp [Token.operand, hregister]
  | @literal value hvalue =>
    have hregister : Token.registerNumber? (Operand.literal value).text.toList = none := by
      rw [Operand.text, toList_hexPrefixed]
      cases hhex : Numeral.hex value with
      | nil => exact absurd hhex (Numeral.hex_ne_nil value)
      | cons digit digits => rfl
    have hletter : Token.startsWithLetter (Operand.literal value).text = false := by
      rw [Operand.text, Token.startsWithLetter, toList_hexPrefixed]
      rfl
    have hliteral : Token.literal (Operand.literal value).text = .ok value :=
      Token.literal_eq_ok_iff.mpr ⟨Numeral.read?_hexPrefixed value, hvalue⟩
    simp [Token.operand, hregister, hletter, hliteral, Except.map]
  | label hname => exact operand_of_isLabelName hname

/-! ### Words that are read as one token -/

/-- The text is one token wherever it stands between spaces. -/
def Solid (text : String) : Prop :=
  text.toList ≠ [] ∧ ∀ c ∈ text.toList, isBlank c = false ∧ c ≠ ';'

/-- The text consists of characters that may stand in names. -/
def Plain (text : String) : Prop :=
  text.toList ≠ [] ∧ ∀ c ∈ text.toList, Token.isNameChar c = true

lemma plain_of_isLabelName {name : String} (h : Token.isLabelName name = true) : Plain name := by
  simp only [Token.isLabelName, Token.startsWithLetter, Bool.and_eq_true, List.all_eq_true] at h
  obtain ⟨⟨hletter, hname⟩, -⟩ := h
  refine ⟨?_, hname⟩
  rintro hnil
  simp [hnil] at hletter

lemma toNat_of_isNameChar {c : Char} (h : Token.isNameChar c = true) :
    48 ≤ c.toNat ∧ c.toNat ≤ 57 ∨ 65 ≤ c.toNat ∧ c.toNat ≤ 122 := by
  simp only [Token.isNameChar, Char.isAlphanum, Char.isAlpha, Char.isUpper, Char.isLower,
    Char.isDigit, Bool.or_eq_true, Bool.and_eq_true, decide_eq_true_eq, ge_iff_le,
    beq_iff_eq, UInt32.le_iff_toNat_le] at h
  change ((65 ≤ c.toNat ∧ c.toNat ≤ 90 ∨ 97 ≤ c.toNat ∧ c.toNat ≤ 122) ∨
    48 ≤ c.toNat ∧ c.toNat ≤ 57) ∨ c = '_' at h
  rcases h with h | rfl
  · omega
  · decide

lemma isNameChar_solid {c : Char} (h : Token.isNameChar c = true) :
    isBlank c = false ∧ c ≠ ';' := by
  have hrange := toNat_of_isNameChar h
  constructor
  · simp only [isBlank, blankRanges, List.any_cons, List.any_nil, Bool.or_false]
    simp
    omega
  · rintro rfl
    simp at hrange

lemma Plain.solid {text : String} (h : Plain text) : Solid text :=
  ⟨h.1, fun c hc => isNameChar_solid (h.2 c hc)⟩

lemma plain_name (mnemonic : Mnemonic) : Plain mnemonic.name := by
  have hall : mnemonic.name.toList.all Token.isNameChar = true := by cases mnemonic <;> decide
  refine ⟨?_, List.all_eq_true.mp hall⟩
  cases mnemonic <;> decide

/-- What holds of every upper-case digit holds of all characters of a number in hexadecimal. -/
lemma forall_mem_hex {P : Char → Prop} (h : ∀ digit < 16, P (Nat.digitChar digit).toUpper)
    (value : Nat) : ∀ c ∈ Numeral.hex value, P c := by
  induction value using Nat.strongRecOn with
  | _ value ih =>
    intro c hc
    rcases Nat.lt_or_ge value 16 with hvalue | hvalue
    · rw [Numeral.hex_of_lt hvalue, List.mem_singleton] at hc
      rw [hc]
      exact h value hvalue
    · rw [Numeral.hex_of_le hvalue, List.mem_append, List.mem_singleton] at hc
      rcases hc with hc | rfl
      · exact ih (value / 16) (by omega) c hc
      · exact h (value % 16) (by omega)

lemma isNameChar_of_mem_hex {value : Nat} {c : Char} (h : c ∈ Numeral.hex value) :
    Token.isNameChar c = true := by
  have hdigit : ∀ digit < 16, Token.isNameChar (Nat.digitChar digit).toUpper = true := by decide
  exact forall_mem_hex (P := (Token.isNameChar · = true)) hdigit value c h

lemma Readable.plain_text {operand : Operand} (h : Readable operand) : Plain operand.text := by
  cases h with
  | @register number hnumber =>
    refine ⟨by simp [Operand.text], ?_⟩
    intro c hc
    simp only [Operand.text, String.toList_append, String.toList_ofList, List.mem_append] at hc
    rcases hc with hc | hc
    · obtain rfl : c = 'V' := by simpa using hc
      decide
    · exact isNameChar_of_mem_hex hc
  | @literal value hvalue =>
    rw [Operand.text, Plain, toList_hexPrefixed]
    refine ⟨by simp, ?_⟩
    intro c hc
    rcases List.mem_cons.mp hc with rfl | hc
    · decide
    · rcases List.mem_cons.mp hc with rfl | hc
      · decide
      · exact isNameChar_of_mem_hex hc
  | @label name hname => exact plain_of_isLabelName hname

lemma mem_intercalate {parts : List (List Char)} {separator c : Char}
    (h : c ∈ [separator].intercalate parts) : c = separator ∨ ∃ part ∈ parts, c ∈ part := by
  induction parts with
  | nil => simp at h
  | cons part parts ih =>
    cases parts with
    | nil => exact Or.inr ⟨part, by simp, by simpa using h⟩
    | cons next parts =>
      rw [List.intercalate_cons_cons, List.mem_append, List.mem_append, List.mem_singleton] at h
      rcases h with (h | h) | h
      · exact Or.inr ⟨part, by simp, h⟩
      · exact Or.inl h
      · rcases ih h with h | ⟨other, hother, h⟩
        · exact Or.inl h
        · exact Or.inr ⟨other, by simp [hother], h⟩

/-- Solid words with a space between each two are the tokens of their line. -/
theorem tokensOf_intercalate {parts : List String} (h : ∀ part ∈ parts, Solid part) :
    tokensOf (String.intercalate " " parts) = parts := by
  have hsolid : ∀ part ∈ parts.map String.toList, ∀ c ∈ part, isBlank c = false ∧ c ≠ ';' := by
    intro part hpart c hc
    obtain ⟨text, htext, rfl⟩ := List.mem_map.mp hpart
    exact (h text htext).2 c hc
  have hnonempty : ∀ part ∈ parts.map String.toList, part ≠ [] := by
    intro part hpart
    obtain ⟨text, htext, rfl⟩ := List.mem_map.mp hpart
    exact (h text htext).1
  have hcomment : (String.intercalate " " parts).toList.takeWhile (· != ';') =
      [' '].intercalate (parts.map String.toList) := by
    rw [String.toList_intercalate]
    apply List.takeWhile_eq_self_iff.mpr
    intro c hc
    rcases mem_intercalate hc with rfl | ⟨part, hpart, hc⟩
    · decide
    · simpa using (hsolid part hpart c hc).2
  have hwords := words_intercalate hnonempty fun part hpart c hc => (hsolid part hpart c hc).1
  rw [tokensOf, hcomment, hwords, List.map_map]
  simp

lemma subset_of_mem_words {text word : List Char} (h : word ∈ words text) : word ⊆ text := by
  have hpieces : ∀ piece ∈ text.splitOnP isBlank, piece ⊆ text := by
    clear h
    induction text with
    | nil => simp
    | cons head rest ih =>
      rw [List.splitOnP_cons_eq_if_modifyHead]
      split
      · intro piece hpiece
        rcases List.mem_cons.mp hpiece with rfl | hpiece
        · exact List.nil_subset _
        · exact List.subset_cons_of_subset head (ih piece hpiece)
      · cases hsplit : rest.splitOnP isBlank with
        | nil => simp
        | cons first others =>
          rw [hsplit] at ih
          intro piece hpiece
          rcases List.mem_cons.mp hpiece with rfl | hpiece
          · exact List.cons_subset_cons head (ih first (by simp))
          · exact List.subset_cons_of_subset head (ih piece (by simp [hpiece]))
  exact hpieces word (List.mem_filter.mp h).1

lemma solid_of_mem_tokensOf {text token : String} (h : token ∈ tokensOf text) : Solid token := by
  obtain ⟨word, hword, rfl⟩ := List.mem_map.mp h
  rw [Solid, String.toList_ofList]
  refine ⟨ne_nil_of_mem_words hword, ?_⟩
  intro c hc
  refine ⟨isBlank_eq_false_of_mem_words hword hc, ?_⟩
  have hcomment := List.mem_takeWhile_imp (subset_of_mem_words hword hc)
  simpa using hcomment

/-! ### Statements -/

lemma operands_eq_mapM (owner : String) (tokens : List String) :
    Token.operands owner tokens =
      tokens.mapM fun token => (Token.operand token).mapError (.operand owner) := by
  induction tokens with
  | nil => rfl
  | cons token tokens ih => rw [List.mapM_cons, Token.operands, ih]

lemma operands_eq_ok_iff {owner : String} {tokens : List String} {operands : List Operand} :
    Token.operands owner tokens = .ok operands ↔
      List.Forall₂ (fun token operand => Token.operand token = .ok operand) tokens operands := by
  rw [operands_eq_mapM, mapM_eq_ok_iff]
  simp only [mapError_eq_ok_iff]

lemma operands_eq_error_iff {owner : String} {tokens : List String} {cause : Cause} :
    Token.operands owner tokens = .error cause ↔ ∃ before token after fault,
      tokens = before ++ token :: after ∧
      (∀ earlier ∈ before, ∃ operand, Token.operand earlier = .ok operand) ∧
      Token.operand token = .error fault ∧ cause = .operand owner fault := by
  rw [operands_eq_mapM, mapM_eq_error_iff]
  simp only [mapError_eq_ok_iff, mapError_eq_error_iff, eq_comm (a := cause), exists_and_left]

lemma instruction_read_eq_ok_iff {line : Nat} {head : String} {tokens : List String}
    {instruction : Instruction} : Instruction.read line head tokens = .ok instruction ↔
      Mnemonic.ofName? head = some instruction.mnemonic ∧
      tokens.length = instruction.mnemonic.arity ∧
      List.Forall₂ (fun token operand => Token.operand token = .ok operand)
        tokens instruction.operands ∧ instruction.line = line := by
  obtain ⟨mnemonic, operands, number⟩ := instruction
  unfold Instruction.read
  cases hmnemonic : Mnemonic.ofName? head with
  | none => simp
  | some found =>
    simp only [requireCount, bind_eq_ok_iff, operands_eq_ok_iff, pure, Except.pure, Except.ok.injEq,
      Instruction.mk.injEq, Option.some.injEq]
    constructor
    · rintro ⟨⟨⟩, hcount, operands, hoperands, rfl, rfl, rfl⟩
      exact ⟨rfl, require_eq_ok_iff.mp hcount, hoperands, rfl⟩
    · rintro ⟨rfl, hcount, hoperands, rfl⟩
      exact ⟨(), require_eq_ok_iff.mpr hcount, operands, hoperands, rfl, rfl, rfl⟩

lemma instruction_read_eq_error_iff {line : Nat} {head : String} {tokens : List String}
    {cause : Cause} : Instruction.read line head tokens = .error cause ↔
      Mnemonic.ofName? head = none ∧ cause = .unknownMnemonic head ∨
      ∃ mnemonic, Mnemonic.ofName? head = some mnemonic ∧
        (tokens.length ≠ mnemonic.arity ∧
            cause = .arity mnemonic.name mnemonic.arity tokens.length ∨
          tokens.length = mnemonic.arity ∧
            Token.operands mnemonic.name tokens = .error cause) := by
  unfold Instruction.read
  cases Mnemonic.ofName? head with
  | none => simp [eq_comm]
  | some mnemonic =>
    simp only [reduceCtorEq, false_and, false_or, Option.some.injEq, exists_eq_left',
      bind_eq_error_iff, requireCount, require_eq_error_iff, pure, Except.pure, and_false,
      exists_false, or_false]
    apply or_congr_right
    constructor
    · rintro ⟨⟨⟩, hcount, hoperands⟩
      exact ⟨require_eq_ok_iff.mp hcount, hoperands⟩
    · rintro ⟨hcount, hoperands⟩
      exact ⟨(), require_eq_ok_iff.mpr hcount, hoperands⟩

/-- The statement as it reads on another line. -/
def renumber (line : Nat) : Statement → Statement
  | .instruction instruction => .instruction { instruction with line }
  | statement => statement

lemma instruction_read_renumber (line other : Nat) (head : String) (tokens : List String) :
    Instruction.read other head tokens =
      (Instruction.read line head tokens).map fun instruction =>
        { instruction with line := other } := by
  unfold Instruction.read
  cases Mnemonic.ofName? head with
  | none => rfl
  | some mnemonic =>
    simp only [map_bind]
    rfl

/-- Which statement is on a line depends on its number only in the instruction. -/
theorem read_renumber (line other : Nat) (text : String) :
    Statement.read other text = (Statement.read line text).map (renumber other) := by
  unfold Statement.read
  cases tokensOf text with
  | nil => rfl
  | cons head tokens =>
    simp only [Statement.ofTokens]
    split
    · split <;> rfl
    · split
      · rfl
      · rw [instruction_read_renumber line other]
        cases Instruction.read line head tokens <;> rfl

/-- The instruction has one operand for each field, and each is what some token denotes. -/
structure Canonical (instruction : Instruction) : Prop where
  arity : instruction.operands.length = instruction.mnemonic.arity
  readable : ∀ operand ∈ instruction.operands, Readable operand

lemma ofTokens_instruction {line : Nat} {tokens : List String} {instruction : Instruction}
    (h : Statement.ofTokens line tokens = .ok (.instruction instruction)) :
    ∃ head rest, tokens = head :: rest ∧ Instruction.read line head rest = .ok instruction := by
  unfold Statement.ofTokens at h
  split at h
  · simp at h
  · next head rest =>
    split at h
    · split at h <;> simp at h
    · split at h
      · simp at h
      · obtain ⟨read, hread, hinstruction⟩ := map_eq_ok_iff.mp h
        obtain rfl := Statement.instruction.inj hinstruction
        exact ⟨head, rest, rfl, hread⟩

/-- A label with other than one word behind it is refused, and so is what is no instruction. -/
lemma ofTokens_error {line : Nat} {tokens : List String} {cause : Cause}
    (h : Statement.ofTokens line tokens = .error cause) : ∃ head rest, tokens = head :: rest ∧
      (cause = .arity Statement.labelKeyword 1 rest.length ∨
        Instruction.read line head rest = .error cause) := by
  unfold Statement.ofTokens at h
  split at h
  · simp at h
  · next head rest =>
    refine ⟨head, rest, rfl, ?_⟩
    split at h
    · split at h
      · simp at h
      · exact Or.inl (Except.error.inj h).symm
    · split at h
      · simp at h
      · exact Or.inr (map_eq_error_iff.mp h)

lemma line_of_read {line : Nat} {text : String} {instruction : Instruction}
    (h : Statement.read line text = .ok (.instruction instruction)) : instruction.line = line := by
  obtain ⟨head, rest, -, hread⟩ := ofTokens_instruction h
  exact (instruction_read_eq_ok_iff.mp hread).2.2.2

theorem canonical_of_read {line : Nat} {text : String} {instruction : Instruction}
    (h : Statement.read line text = .ok (.instruction instruction)) : Canonical instruction := by
  obtain ⟨head, rest, -, hread⟩ := ofTokens_instruction h
  obtain ⟨-, hcount, hoperands, -⟩ := instruction_read_eq_ok_iff.mp hread
  refine ⟨hoperands.length_eq.symm.trans hcount, ?_⟩
  intro operand hoperand
  obtain ⟨i, hi, rfl⟩ := List.mem_iff_getElem.mp hoperand
  exact readable_of_operand (hoperands.get (by rw [hoperands.length_eq]; exact hi) hi)

lemma plain_of_mem_text {instruction : Instruction} (h : Canonical instruction) {part : String}
    (hpart : part ∈ instruction.mnemonic.name :: instruction.operands.map Operand.text) :
    Plain part := by
  rcases List.mem_cons.mp hpart with rfl | hpart
  · exact plain_name instruction.mnemonic
  · obtain ⟨operand, hoperand, rfl⟩ := List.mem_map.mp hpart
    exact (h.readable operand hoperand).plain_text

lemma upper_mnemonicName (mnemonic : Mnemonic) : upper mnemonic.name = mnemonic.name := by
  cases mnemonic <;> decide

/-- No mnemonic is a word that introduces a label or a stack directive. -/
lemma upper_name (mnemonic : Mnemonic) : upper mnemonic.name ≠ Statement.labelKeyword ∧
    Directive.ofName? mnemonic.name = none := by
  cases mnemonic <;> decide

lemma directive_ofName?_congr {head name : String} (h : upper head = upper name) :
    Directive.ofName? head = Directive.ofName? name := by
  unfold Directive.ofName?
  rw [h]

lemma mnemonic_ofName?_congr {head name : String} (h : upper head = upper name) :
    Mnemonic.ofName? head = Mnemonic.ofName? name := by
  unfold Mnemonic.ofName?
  rw [h]

/-- No word is both a mnemonic and a directive. -/
lemma directive_ofName?_of_mnemonic {head : String} {mnemonic : Mnemonic}
    (h : Mnemonic.ofName? head = some mnemonic) : Directive.ofName? head = none := by
  have hname : upper head = upper mnemonic.name := by
    rw [upper_mnemonicName, Mnemonic.name_of_ofName? h]
  rw [directive_ofName?_congr hname]
  exact (upper_name mnemonic).2

theorem read_text {instruction : Instruction} (h : Canonical instruction) (line : Nat) :
    Statement.read line instruction.text = .ok (.instruction { instruction with line }) := by
  have htokens : tokensOf instruction.text =
      instruction.mnemonic.name :: instruction.operands.map Operand.text :=
    tokensOf_intercalate fun part hpart => (plain_of_mem_text h hpart).solid
  obtain ⟨hlabel, hdirective⟩ := upper_name instruction.mnemonic
  have hread : Instruction.read line instruction.mnemonic.name
      (instruction.operands.map Operand.text) = .ok { instruction with line } := by
    apply instruction_read_eq_ok_iff.mpr
    refine ⟨Mnemonic.ofName?_name _, by simpa using h.arity, ?_, rfl⟩
    rw [List.forall₂_map_left_iff, List.forall₂_same]
    exact fun operand hoperand => operand_text (h.readable operand hoperand)
  simp [Statement.read, Statement.ofTokens, htokens, hlabel, hdirective, hread, Except.map]

end Chip8.Proofs
