import Mathlib
import Chip8.Proofs.Bindings
import Chip8.Proofs.Expansion
import Chip8.Proofs.TwoRuns

/-!
# Spelling

The case of a mnemonic, the blanks and the comments of a line, the case of a register and the way
a number is written do not matter: sources whose lines have the same words up to these make the
same program, or fail on the same line with faults of one kind. Main statement: `assemble_respell`.
-/

namespace Chip8.Proofs

/-- Both tokens are one and the same, or name the same register, or denote the same number. -/
inductive SameToken : String → String → Prop
  | refl (token : String) : SameToken token token
  | register {token other : String} {number : Nat} (htoken : Token.register token = .ok number)
      (hother : Token.register other = .ok number) : SameToken token other
  | literal {token other : String} {value : Nat} (htoken : Token.literal token = .ok value)
      (hother : Token.literal other = .ok value) : SameToken token other

/-- The first words differ at most in the case of their ASCII letters, the others in spelling. -/
inductive SameTokens : List String → List String → Prop
  | nil : SameTokens [] []
  | cons {head name : String} {tokens others : List String} (hhead : upper head = upper name)
      (htokens : List.Forall₂ SameToken tokens others) :
      SameTokens (head :: tokens) (name :: others)

/-- The lines have the same words before their comments, up to spelling. -/
def SameLine (text other : String) : Prop :=
  SameTokens (tokensOf text) (tokensOf other)

/-! ### Deciding whether lines are the same -/

/-- A token that is refused is named in the refusal. -/
theorem sameToken_iff {token other : String} : SameToken token other ↔
    Token.register token = Token.register other ∨ Token.literal token = Token.literal other := by
  constructor
  · intro h
    cases h with
    | refl => exact Or.inl rfl
    | register htoken hother => exact Or.inl (htoken.trans hother.symm)
    | literal htoken hother => exact Or.inr (htoken.trans hother.symm)
  · rintro (h | h)
    · cases hother : Token.register other with
      | ok number => exact .register (h.trans hother) hother
      | error fault =>
        have htoken := h.trans hother
        unfold Token.register at htoken hother
        grind [SameToken.refl]
    · cases hother : Token.literal other with
      | ok value => exact .literal (h.trans hother) hother
      | error fault =>
        have htoken := h.trans hother
        unfold Token.literal at htoken hother
        grind [SameToken.refl]

instance : DecidableRel SameToken := fun _ _ => decidable_of_iff _ sameToken_iff.symm

instance : DecidableRel SameTokens
  | [], [] => .isTrue .nil
  | [], _ :: _ => .isFalse nofun
  | _ :: _, [] => .isFalse nofun
  | head :: tokens, name :: others =>
    decidable_of_iff (upper head = upper name ∧ List.Forall₂ SameToken tokens others)
      ⟨fun h => .cons h.1 h.2, fun | .cons hhead htokens => ⟨hhead, htokens⟩⟩

instance : DecidableRel SameLine := fun text other =>
  inferInstanceAs (Decidable (SameTokens (tokensOf text) (tokensOf other)))

/-! ### Tokens -/

section Tokens

variable {token other : String}

lemma digit_of_digit? {c : Char} {digit : Nat} (h : Numeral.digit? 10 c = some digit) :
    '0' ≤ c ∧ c ≤ '9' := by
  by_contra hrange
  obtain ⟨hvalue, hlt⟩ := Option.filter_eq_some_iff.mp h
  -- The other digits are letters, which stand for ten and more.
  unfold Numeral.digitValue? at hvalue
  rw [if_neg hrange] at hvalue
  have hlt : digit < 10 := by simpa using hlt
  split at hvalue
  · have := Option.some.inj hvalue
    omega
  · split at hvalue
    · have := Option.some.inj hvalue
      omega
    · simp at hvalue

lemma exists_digit_of_read? {text : List Char} {value : Nat} (h : Numeral.read? text = some value) :
    ∃ digit rest, text = digit :: rest ∧ '0' ≤ digit ∧ digit ≤ '9' := by
  unfold Numeral.read? at h
  split at h
  · exact ⟨'0', _, rfl, by decide, by decide⟩
  · exact ⟨'0', _, rfl, by decide, by decide⟩
  · cases text with
    | nil => simp [Numeral.positional?] at h
    | cons digit rest =>
      simp only [Numeral.positional?, List.isEmpty_cons, Bool.false_eq_true, if_false,
        List.mapM_cons] at h
      cases hdigit : Numeral.digit? 10 digit with
      | none => simp [hdigit] at h
      | some number => exact ⟨digit, rest, rfl, digit_of_digit? hdigit⟩

/-- A numeral starts with a digit, so it is no register and no name. -/
lemma not_letter_of_read? {value : Nat} (h : Numeral.read? token.toList = some value) :
    Token.registerNumber? token.toList = none ∧ Token.startsWithLetter token = false := by
  obtain ⟨digit, rest, htext, hlow, hhigh⟩ := exists_digit_of_read? h
  change 48 ≤ digit.toNat at hlow
  change digit.toNat ≤ 57 at hhigh
  rw [Token.startsWithLetter, htext]
  constructor
  · unfold Token.registerNumber?
    split
    · next letter _ hletter =>
      obtain ⟨rfl, -⟩ := List.cons.inj hletter
      apply if_neg
      rintro (rfl | rfl)
      · simp at hhigh
      · simp at hhigh
    · rfl
  · have halpha : digit.isAlpha = false := by
      rw [Bool.eq_false_iff, Ne, Char.isAlpha, Char.isUpper, Char.isLower]
      simp only [Bool.or_eq_true, Bool.and_eq_true, decide_eq_true_eq, ge_iff_le,
        UInt32.le_iff_toNat_le]
      change ¬(65 ≤ digit.toNat ∧ digit.toNat ≤ 90 ∨ 97 ≤ digit.toNat ∧ digit.toNat ≤ 122)
      omega
    simpa using halpha

lemma not_letter_of_literal {value : Nat} (h : Token.literal token = .ok value) :
    Token.registerNumber? token.toList = none ∧ Token.startsWithLetter token = false :=
  not_letter_of_read? (Token.literal_eq_ok_iff.mp h).1

lemma register_of_literal {value : Nat} (h : Token.literal token = .ok value) :
    Token.register token = .error (.badRegister token) := by
  unfold Token.register
  rw [(not_letter_of_literal h).1]

lemma operand_of_literal {value : Nat} (h : Token.literal token = .ok value) :
    Token.operand token = .ok (.literal value) := by
  obtain ⟨hregister, hletter⟩ := not_letter_of_literal h
  simp [Token.operand, hregister, hletter, h, Except.map]

lemma operand_of_register {number : Nat} (h : Token.register token = .ok number) :
    Token.operand token = .ok (.register number) := by
  simp [Token.operand, Token.register_eq_ok_iff.mp h]

lemma not_isLabelName_of_register {number : Nat} (h : Token.register token = .ok number) :
    Token.isLabelName token = false := by
  simp [Token.isLabelName, Token.register_eq_ok_iff.mp h]

lemma not_isLabelName_of_literal {value : Nat} (h : Token.literal token = .ok value) :
    Token.isLabelName token = false := by
  simp [Token.isLabelName, not_letter_of_literal h]

theorem SameToken.operand_eq (h : SameToken token other) :
    Token.operand token = Token.operand other := by
  cases h with
  | refl => rfl
  | register htoken hother => rw [operand_of_register htoken, operand_of_register hother]
  | literal htoken hother => rw [operand_of_literal htoken, operand_of_literal hother]

theorem SameToken.register_alike (h : SameToken token other) (owner : String) :
    Alike SameKind Eq ((Token.register token).mapError (.operand owner))
      ((Token.register other).mapError (.operand owner)) := by
  cases h with
  | refl => exact SameKind.alike_self _
  | register htoken hother =>
    rw [htoken, hother]
    exact .ok rfl
  | literal htoken hother =>
    rw [register_of_literal htoken, register_of_literal hother]
    exact .error rfl

/-- A name has one spelling. -/
lemma SameToken.eq_or_not_isLabelName (h : SameToken token other) :
    token = other ∨ Token.isLabelName token = false ∧ Token.isLabelName other = false := by
  cases h with
  | refl => exact Or.inl rfl
  | register htoken hother =>
    exact Or.inr ⟨not_isLabelName_of_register htoken, not_isLabelName_of_register hother⟩
  | literal htoken hother =>
    exact Or.inr ⟨not_isLabelName_of_literal htoken, not_isLabelName_of_literal hother⟩

end Tokens

/-! ### Statements -/

section Statements

variable {tokens others : List String}

/-- Both lines bind the same name or one that is none, or write the same directive with the same
words up to spelling, or the same instruction. -/
inductive SameStatement : Statement → Statement → Prop
  | blank : SameStatement .blank .blank
  | label {name other : String} (hname : SameToken name other) :
      SameStatement (.label name) (.label other)
  | stack {directive : Directive} {tokens others : List String}
      (htokens : List.Forall₂ SameToken tokens others) :
      SameStatement (.stack directive tokens) (.stack directive others)
  | instruction {instruction : Instruction} :
      SameStatement (.instruction instruction) (.instruction instruction)

lemma operands_respell (h : List.Forall₂ SameToken tokens others) (owner : String) :
    Token.operands owner tokens = Token.operands owner others := by
  induction h with
  | nil => rfl
  | cons htoken _ ih => rw [Token.operands, Token.operands, htoken.operand_eq, ih]

lemma instruction_read_respell {head name : String} (hhead : upper head = upper name)
    (h : List.Forall₂ SameToken tokens others) (line : Nat) :
    Alike SameKind Eq (Instruction.read line head tokens) (Instruction.read line name others) := by
  unfold Instruction.read
  rw [mnemonic_ofName?_congr hhead, h.length_eq]
  cases Mnemonic.ofName? name with
  | none => exact .error rfl
  | some mnemonic =>
    simp only [operands_respell h]
    exact SameKind.alike_self _

theorem ofTokens_respell (h : SameTokens tokens others) (line : Nat) :
    Alike SameKind SameStatement (Statement.ofTokens line tokens)
      (Statement.ofTokens line others) := by
  cases h with
  | nil => exact .ok .blank
  | @cons head name tokens others hhead htokens =>
    simp only [Statement.ofTokens, hhead, directive_ofName?_congr hhead]
    by_cases hlabel : upper name = Statement.labelKeyword
    · simp only [if_pos hlabel]
      -- A label has one word behind it: compare the lists of words up to their second elements.
      cases htokens with
      | nil => exact .error rfl
      | cons hname hrest =>
        cases hrest with
        | nil => exact .ok (.label hname)
        | cons _ _ => exact .error rfl
    · simp only [if_neg hlabel]
      cases Directive.ofName? name with
      | some directive => exact .ok (.stack htokens)
      | none =>
        refine (instruction_read_respell hhead htokens line).map ?_
        rintro instruction _ rfl
        exact .instruction

/-! ### Directives -/

lemma require_alike {condition same : Prop} [Decidable condition] [Decidable same]
    {cause other : Cause} (hiff : condition ↔ same) (hkind : SameKind cause other) :
    Alike SameKind Eq (require condition cause) (require same other) := by
  unfold require
  by_cases hsame : same
  · rw [if_pos (hiff.mpr hsame), if_pos hsame]
    exact .ok rfl
  · rw [if_neg (mt hiff.mp hsame), if_neg hsame]
    exact .error hkind

lemma registers_respell (h : List.Forall₂ SameToken tokens others) (directive : Directive) :
    Alike SameKind Eq (Stack.registers directive tokens) (Stack.registers directive others) := by
  rw [registers_eq_mapM, registers_eq_mapM]
  refine (mapM_alike (h.imp fun _ _ htoken => htoken.register_alike directive.name)).imp
    (fun _ _ hkind => hkind) ?_
  intro registers same hsame
  rwa [List.forall₂_eq_eq_eq] at hsame

theorem code_respell (h : List.Forall₂ SameToken tokens others) (stack : Stack)
    (directive : Directive) (line : Nat) (first : Bool) :
    Alike SameKind Eq (stack.code directive tokens line first)
      (stack.code directive others line first) := by
  cases directive with
  | stackInit =>
    unfold Stack.code Stack.startCode
    rw [h.length_eq]
    exact SameKind.alike_self _
  | push =>
    have hempty : tokens ≠ [] ↔ others ≠ [] := by
      rw [Ne, Ne, ← List.length_eq_zero_iff, ← List.length_eq_zero_iff, h.length_eq]
    unfold Stack.code Stack.pushCode
    rw [h.length_eq]
    refine (SameKind.alike_self _).bind ?_
    rintro cursor _ rfl
    refine (require_alike hempty rfl).bind fun _ _ _ => (SameKind.alike_self _).bind fun _ _ _ => ?_
    refine (registers_respell h .push).bind ?_
    rintro registers _ rfl
    exact SameKind.alike_self _
  | pop =>
    unfold Stack.code Stack.popCode
    rw [h.length_eq]
    refine (SameKind.alike_self _).bind ?_
    rintro cursor _ rfl
    refine (SameKind.alike_self _).bind fun _ _ _ => (registers_respell h .pop).bind ?_
    rintro registers _ rfl
    exact SameKind.alike_self _
  | resetSp =>
    unfold Stack.code Stack.resetCode
    rw [h.length_eq]
    exact SameKind.alike_self _

end Statements

/-! ### Sources -/

lemma add_respell {statement other : Statement} (h : SameStatement statement other)
    (draft : Draft) (line : Nat) :
    Alike SameKind Eq (draft.add line statement) (draft.add line other) := by
  cases h with
  | blank => exact .ok rfl
  | @label name other hname =>
    rcases hname.eq_or_not_isLabelName with rfl | ⟨hfirst, hsecond⟩
    · exact SameKind.alike_self _
    · have hrefused {name : String} (hname : Token.isLabelName name = false) :
          draft.table.bind ⟨name, draft.code.size, line⟩ = .error (.badLabelName name) :=
        SymbolTable.bind_of_not_isLabelName hname
      rw [add_label, add_label, hrefused hfirst, hrefused hsecond]
      exact .error rfl
  | stack htokens =>
    rw [add_stack, add_stack]
    refine (code_respell htokens draft.stack _ line _).map ?_
    rintro result _ rfl
    rfl
  | instruction => exact .ok rfl

/-- Two spellings of a line add the same to a draft. -/
theorem addLine_respell {text other : String} (h : SameLine text other) (draft : Draft)
    (line : Nat) : Alike SameFault Eq (draft.addLine line text) (draft.addLine line other) := by
  have hline : Alike SameKind Eq (Statement.read line text >>= draft.add line)
      (Statement.read line other >>= draft.add line) :=
    (ofTokens_respell h line).bind fun _ _ hstatement => add_respell hstatement draft line
  exact hline.atLine fun _ _ hkind => hkind.sameFault line

/-- Two spellings of a source make the same program, or fail alike. -/
theorem assemble_respell (target : Target) {lines others : List String}
    (h : List.Forall₂ SameLine lines others) :
    Alike SameFault Eq (assemble target lines) (assemble target others) := by
  have hscan : Alike SameFault Eq (scan target lines) (scan target others) := by
    refine scan_alike h ?_ rfl
    rintro number text other draft _ hsame rfl
    exact addLine_respell hsame draft number
  refine assemble_alike (fun fault => .refl (.target fault)) hscan ?_
  rintro draft _ rfl
  exact Alike.refl SameFault.refl (fun _ => rfl) _

/-- Other cases, blanks and comments, and decimal numerals for hexadecimal ones. -/
theorem assemble_respell_push : ∃ program,
    List.Forall₂ SameLine ["STACK_INIT", "LABEL loop", "PUSH VA V1", "LD_BYTE V1 0x1F", "JP loop"]
      ["Stack_Init ; ready", "  label loop", "push\tva\tv1", "ld_byte v1 031", "jp loop;"] ∧
    assemble {} ["STACK_INIT", "LABEL loop", "PUSH VA V1", "LD_BYTE V1 0x1F", "JP loop"] =
      .ok program ∧
    program.entries.map (·.word) =
      [0xAFFF, 0x80A0, 0xF055, 0xAFFE, 0x8010, 0xF055, 0xAFFD, 0x611F, 0x1201] ∧
    assemble {} ["Stack_Init ; ready", "  label loop", "push\tva\tv1", "ld_byte v1 031",
      "jp loop;"] = .ok program := by
  have hlines : List.Forall₂ SameLine
      ["STACK_INIT", "LABEL loop", "PUSH VA V1", "LD_BYTE V1 0x1F", "JP loop"]
      ["Stack_Init ; ready", "  label loop", "push\tva\tv1", "ld_byte v1 031", "jp loop;"] := by
    decide +kernel
  have hwords : (assemble {} ["STACK_INIT", "LABEL loop", "PUSH VA V1", "LD_BYTE V1 0x1F",
      "JP loop"]).map (fun program => program.entries.map (·.word)) =
      .ok [0xAFFF, 0x80A0, 0xF055, 0xAFFE, 0x8010, 0xF055, 0xAFFD, 0x611F, 0x1201] := by
    decide +kernel
  obtain ⟨program, hprogram, hwords⟩ := map_eq_ok_iff.mp hwords
  have halike := assemble_respell {} hlines
  rw [hprogram] at halike
  obtain ⟨same, hsame, rfl⟩ := halike.exists_of_ok
  exact ⟨program, hlines, hprogram, hwords, hsame⟩

end Chip8.Proofs
