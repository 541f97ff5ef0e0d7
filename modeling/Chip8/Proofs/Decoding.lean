import Mathlib
import Chip8.Proofs.Encoding

/-!
# Words as instructions

The fixed digits of a word tell its mnemonic, and the other digits its operands. Only a system call
shares its words with other mnemonics: `SYS 0x0E0`, `SYS 0x0EE` and `SYS 0x0FD` are `CLS`, `RET` and
`HALT`. Main statement: `word_decodes`.
-/

namespace Chip8.Proofs

/-- The number that an operand stands for: of a register, a literal, or the address of a label. -/
inductive Denotes (target : Target) (table : SymbolTable) : Operand → Nat → Prop
  | register {number : Nat} : Denotes target table (.register number) number
  | literal {value : Nat} : Denotes target table (.literal value) value
  | label {name : String} {address : Nat}
      (haddress : ∀ owner, table.address target owner name = .ok address) :
      Denotes target table (.label name) address

/-- The operands stand for the numbers, in order. -/
def DenotesAll (target : Target) (table : SymbolTable) : List Operand → List Nat → Prop :=
  List.Forall₂ (Denotes target table)

/-! ### Fixed digits -/

/-- The places of a word from left to right: a fixed digit, or a digit of some field. -/
def places (pattern : WordPattern) : List (Option Nat) :=
  some pattern.lead :: pattern.slots.flatMap (fun slot => List.replicate slot.width none) ++
    pattern.trail.map some

/-- The digits have every fixed digit in its place. -/
def keepsFixed (fixed : List (Option Nat)) (digits : List Nat) : Bool :=
  (fixed.zip digits).all fun (place, digit) => place.all (· == digit)

/-- Some place has two different digits fixed. -/
def clash (first second : List (Option Nat)) : Bool :=
  (first.zip second).any fun (a, b) => a.any fun digit => b.any (· != digit)

lemma not_clash {first second : List (Option Nat)} {digits : List Nat}
    (hlength : first.length ≤ digits.length) (hfirst : keepsFixed first digits = true)
    (hsecond : keepsFixed second digits = true) : clash first second = false := by
  induction digits generalizing first second with
  | nil =>
    obtain rfl := List.eq_nil_of_length_eq_zero (Nat.le_zero.mp hlength)
    rfl
  | cons digit digits ih =>
    cases first with
    | nil => rfl
    | cons a first =>
      cases second with
      | nil => rfl
      | cons b second =>
        simp only [keepsFixed, List.zip_cons_cons, List.all_cons,
          Bool.and_eq_true] at hfirst hsecond
        have hrest := ih (by simpa using hlength) hfirst.2 hsecond.2
        unfold clash at hrest ⊢
        rw [List.zip_cons_cons, List.any_cons, hrest]
        cases a <;> cases b <;> simp_all

/-- Two mnemonics have different digits fixed in some place, but for `SYS` and those without
operands. -/
lemma clash_places (first second : Mnemonic) : first = second ∨
    clash (places first.pattern) (places second.pattern) = true ∨
    first = .sys ∧ second.pattern.slots = [] ∨ second = .sys ∧ first.pattern.slots = [] := by
  have hall : ∀ first ∈ Mnemonic.all, ∀ second ∈ Mnemonic.all, first = second ∨
      clash (places first.pattern) (places second.pattern) = true ∨
      first = .sys ∧ second.pattern.slots = [] ∨ second = .sys ∧ first.pattern.slots = [] := by
    decide +kernel
  exact hall first (Mnemonic.mem_all first) second (Mnemonic.mem_all second)

/-! ### Reading a word -/

/-- The numbers in the fields at the start of some digits. -/
def readFields : List Slot → List Nat → List Nat
  | [], _ => []
  | slot :: slots, digits =>
    Numeral.value 16 (digits.take slot.width) :: readFields slots (digits.drop slot.width)

/-- The first mnemonic whose fixed digits a word has, and the numbers in its fields. -/
def decode? (word : UInt16) : Option (Mnemonic × List Nat) :=
  let digits := Nibble.lowest word.toNat 4
  (Mnemonic.all.find? fun mnemonic => keepsFixed (places mnemonic.pattern) digits).map
    fun mnemonic => (mnemonic, readFields mnemonic.pattern.slots digits.tail)

/-! ### The digits of a word -/

lemma keepsFixed_append {fixed others : List (Option Nat)} {digits more : List Nat}
    (hlength : fixed.length = digits.length) : keepsFixed (fixed ++ others) (digits ++ more) =
      (keepsFixed fixed digits && keepsFixed others more) := by
  rw [keepsFixed, List.zip_append hlength, List.all_append]
  rfl

lemma keepsFixed_replicate (count : Nat) (digits : List Nat) :
    keepsFixed (List.replicate count none) digits = true := by
  unfold keepsFixed
  rw [List.all_eq_true]
  rintro ⟨place, digit⟩ hmem
  obtain rfl := List.eq_of_mem_replicate (List.of_mem_zip hmem).1
  rfl

lemma keepsFixed_map_some (digits : List Nat) : keepsFixed (digits.map some) digits = true := by
  induction digits with
  | nil => rfl
  | cons digit digits ih => simpa [keepsFixed] using ih

/-- Where every digit is fixed, there is only one way to keep them. -/
lemma eq_of_keepsFixed {fixed digits : List Nat} (hlength : fixed.length = digits.length)
    (h : keepsFixed (fixed.map some) digits = true) : fixed = digits := by
  induction fixed generalizing digits with
  | nil => exact (List.eq_nil_of_length_eq_zero hlength.symm).symm
  | cons digit fixed ih =>
    cases digits with
    | nil => simp at hlength
    | cons other digits =>
      simp only [keepsFixed, List.map_cons, List.zip_cons_cons, List.all_cons,
        Bool.and_eq_true, Option.all_some, beq_iff_eq] at h
      rw [h.1, ih (by simpa using hlength) h.2]

section Word

variable {target : Target} {table : SymbolTable}

lemma FitsAll.keepsFixed_fields {slots : List Slot} {operands : List Operand} {numbers : List Nat}
    (h : FitsAll target table slots operands numbers) (trail : List Nat) :
    keepsFixed (slots.flatMap (fun slot => List.replicate slot.width none) ++ trail.map some)
      (fieldDigits slots numbers ++ trail) = true := by
  induction h with
  | nil => exact keepsFixed_map_some trail
  | cons _ _ ih =>
    rw [List.flatMap_cons, fieldDigits, List.append_assoc, List.append_assoc,
      keepsFixed_append (by simp [Nibble.length_lowest]), keepsFixed_replicate, ih]
    rfl

lemma FitsAll.readFields_eq {slots : List Slot} {operands : List Operand} {numbers : List Nat}
    (h : FitsAll target table slots operands numbers) (rest : List Nat) :
    readFields slots (fieldDigits slots numbers ++ rest) = numbers := by
  induction h with
  | nil => rfl
  | @cons slot operand number slots operands numbers hfits hrest ih =>
    have hwidth : (Nibble.lowest number slot.width).length = slot.width := Nibble.length_lowest _ _
    rw [fieldDigits, List.append_assoc, readFields, List.take_left' hwidth,
      List.drop_left' hwidth, ih, Nibble.value_lowest, Nat.mod_eq_of_lt hfits.lt]

lemma FitsAll.denotesAll {slots : List Slot} {operands : List Operand} {numbers : List Nat}
    (h : FitsAll target table slots operands numbers) :
    DenotesAll target table operands numbers := by
  induction h with
  | nil => exact .nil
  | cons hfits _ ih =>
    refine .cons ?_ ih
    cases hfits with
    | register => exact .register
    | literal => exact .literal
    | label haddress => exact .label haddress

lemma rightUnique_denotes : Relator.RightUnique (Denotes target table) := by
  intro operand number other h hother
  cases h with
  | register =>
    cases hother
    rfl
  | literal =>
    cases hother
    rfl
  | label haddress =>
    cases hother with
    | label hother => exact Except.ok.inj ((haddress "").symm.trans (hother ""))

lemma DenotesAll.eq {operands : List Operand} {numbers others : List Nat}
    (h : DenotesAll target table operands numbers)
    (hothers : DenotesAll target table operands others) : numbers = others :=
  List.right_unique_forall₂' rightUnique_denotes h hothers

/-- The digits of a word are the fixed ones of its mnemonic and those of its operands. -/
lemma FitsAll.lowest_word {mnemonic : Mnemonic} {operands : List Operand} {numbers : List Nat}
    {word : UInt16} (h : FitsAll target table mnemonic.pattern.slots operands numbers)
    (hword : word.toNat = patternNumber mnemonic.pattern numbers) :
    Nibble.lowest word.toNat 4 = mnemonic.pattern.lead ::
      (fieldDigits mnemonic.pattern.slots numbers ++ mnemonic.pattern.trail) := by
  obtain ⟨hlength, hdigits⟩ := h.digits
  rw [hword, ← toNat_word_fields h, toNat_word hlength hdigits, ← hlength,
    Nibble.lowest_value hdigits]
  rfl

lemma FitsAll.keepsFixed_word {mnemonic : Mnemonic} {operands : List Operand} {numbers : List Nat}
    {word : UInt16} (h : FitsAll target table mnemonic.pattern.slots operands numbers)
    (hword : word.toNat = patternNumber mnemonic.pattern numbers) :
    keepsFixed (places mnemonic.pattern) (Nibble.lowest word.toNat 4) = true := by
  have hfields := h.keepsFixed_fields mnemonic.pattern.trail
  rw [h.lowest_word hword]
  simpa [places, keepsFixed] using hfields

/-- The operands can be read off the word. -/
lemma FitsAll.readFields_word {mnemonic : Mnemonic} {operands : List Operand} {numbers : List Nat}
    {word : UInt16} (h : FitsAll target table mnemonic.pattern.slots operands numbers)
    (hword : word.toNat = patternNumber mnemonic.pattern numbers) :
    readFields mnemonic.pattern.slots (Nibble.lowest word.toNat 4).tail = numbers := by
  rw [h.lowest_word hword, List.tail_cons, h.readFields_eq]

end Word

/-! ### Mnemonics without operands -/

lemma cases_of_slots {mnemonic : Mnemonic} (h : mnemonic.pattern.slots = []) :
    mnemonic = .cls ∨ mnemonic = .ret ∨ mnemonic = .halt := by
  revert h
  cases mnemonic <;> decide

lemma decode?_of_slots {mnemonic : Mnemonic} {word : UInt16} (h : mnemonic.pattern.slots = [])
    (hword : word.toNat = patternNumber mnemonic.pattern []) :
    decode? word = some (mnemonic, []) := by
  obtain rfl : word = UInt16.ofNat (patternNumber mnemonic.pattern []) := by
    rw [← hword, UInt16.ofNat_toNat]
  rcases cases_of_slots h with rfl | rfl | rfl <;> decide

/-- A word has the fixed digits of a mnemonic without operands only if it is the word of it. -/
lemma toNat_of_keepsFixed {mnemonic : Mnemonic} {word : UInt16} (h : mnemonic.pattern.slots = [])
    (hkeeps : keepsFixed (places mnemonic.pattern) (Nibble.lowest word.toNat 4) = true) :
    word.toNat = patternNumber mnemonic.pattern [] := by
  have hfixed : places mnemonic.pattern =
      (mnemonic.pattern.lead :: mnemonic.pattern.trail).map some := by
    simp [places, h]
  have hlength : (mnemonic.pattern.lead :: mnemonic.pattern.trail).length =
      (Nibble.lowest word.toNat 4).length := by
    rcases cases_of_slots h with rfl | rfl | rfl <;> rfl
  rw [hfixed] at hkeeps
  have hvalue := Nibble.value_lowest word.toNat 4
  have hlt : word.toNat < 16 ^ 4 := word.toNat_lt
  rw [← eq_of_keepsFixed hlength hkeeps, Nat.mod_eq_of_lt hlt] at hvalue
  rw [← hvalue]
  rcases cases_of_slots h with rfl | rfl | rfl <;> rfl

/-! ### Instructions -/

section Decode

variable {target : Target} {table : SymbolTable}

/-- The instruction is `SYS` with the number that makes the word of the other mnemonic. -/
def SystemCall (target : Target) (table : SymbolTable) (instruction : Instruction)
    (named : Mnemonic) : Prop :=
  instruction.mnemonic = .sys ∧ ∃ number, DenotesAll target table instruction.operands [number] ∧
    (number, named) ∈ [(0x0E0, .cls), (0x0EE, .ret), (0x0FD, .halt)]

lemma patternNumber_sys (number : Nat) : patternNumber Mnemonic.sys.pattern [number] = number := by
  rw [patternNumber_address rfl]
  exact Nat.zero_add number

lemma systemCall_of_word {instruction : Instruction} {numbers : List Nat} {word : UInt16}
    {named : Mnemonic} (hsys : instruction.mnemonic = .sys)
    (hfits : FitsAll target table instruction.mnemonic.pattern.slots instruction.operands numbers)
    (hword : word.toNat = patternNumber instruction.mnemonic.pattern numbers)
    (hnamed : named.pattern.slots = []) (hsame : word.toNat = patternNumber named.pattern []) :
    SystemCall target table instruction named := by
  have hlength := hfits.length_numbers
  rw [hsys] at hlength hword
  obtain ⟨number, rfl⟩ := List.length_eq_one_iff.mp hlength
  rw [patternNumber_sys, hsame] at hword
  refine ⟨hsys, number, hfits.denotesAll, ?_⟩
  rw [← hword]
  rcases cases_of_slots hnamed with rfl | rfl | rfl <;> decide

lemma SystemCall.decode?_eq {instruction : Instruction} {named : Mnemonic} {numbers : List Nat}
    {word : UInt16} (h : SystemCall target table instruction named)
    (hfits : FitsAll target table instruction.mnemonic.pattern.slots instruction.operands numbers)
    (hword : word.toNat = patternNumber instruction.mnemonic.pattern numbers) :
    decode? word = some (named, []) := by
  obtain ⟨hsys, number, hnumber, hmem⟩ := h
  obtain rfl := hnumber.eq hfits.denotesAll
  rw [hsys, patternNumber_sys] at hword
  simp only [List.mem_cons, Prod.mk.injEq, List.not_mem_nil, or_false] at hmem
  rcases hmem with ⟨rfl, rfl⟩ | ⟨rfl, rfl⟩ | ⟨rfl, rfl⟩ <;> exact decode?_of_slots rfl hword

/-- The word of an instruction is decoded to its mnemonic and numbers, or is that of a mnemonic
without operands that a `SYS` stands for. -/
lemma decode?_of_fits {mnemonic : Mnemonic} {operands : List Operand} {numbers : List Nat}
    {word : UInt16} (hfits : FitsAll target table mnemonic.pattern.slots operands numbers)
    (hword : word.toNat = patternNumber mnemonic.pattern numbers) :
    decode? word = some (mnemonic, numbers) ∨
    mnemonic = .sys ∧ ∃ named : Mnemonic, named.pattern.slots = [] ∧
      word.toNat = patternNumber named.pattern [] := by
  by_cases hslots : mnemonic.pattern.slots = []
  · have hnumbers := hfits.length_numbers
    rw [hslots, List.length_nil] at hnumbers
    obtain rfl := List.eq_nil_of_length_eq_zero hnumbers
    exact Or.inl (decode?_of_slots hslots hword)
  · have hkeeps := hfits.keepsFixed_word hword
    cases hfind : Mnemonic.all.find? fun mnemonic =>
        keepsFixed (places mnemonic.pattern) (Nibble.lowest word.toNat 4) with
    | none => exact absurd hkeeps (List.find?_eq_none.mp hfind mnemonic (Mnemonic.mem_all mnemonic))
    | some found =>
      have hfound := List.find?_some hfind
      rcases clash_places mnemonic found with rfl | hclash | ⟨rfl, hnamed⟩ | ⟨-, hbare⟩
      · left
        unfold decode?
        simp only [hfind, Option.map_some, hfits.readFields_word hword]
      · have hlength : (places mnemonic.pattern).length ≤ (Nibble.lowest word.toNat 4).length := by
          rw [Nibble.length_lowest]
          cases mnemonic <;> decide
        rw [not_clash hlength hkeeps hfound] at hclash
        exact absurd hclash (by decide)
      · exact Or.inr ⟨rfl, found, hnamed, toNat_of_keepsFixed hnamed hfound⟩
      · exact absurd hbare hslots

end Decode

/-- Two instructions with the same word have the same mnemonic and stand for the same numbers, or
one of them is a `SYS` that stands for the other. Every instruction but such a `SYS` can be read off
its word. -/
theorem word_decodes (target : Target) (table : SymbolTable) :
    (∀ first second word, first.word target table = .ok word →
      second.word target table = .ok word →
      (first.mnemonic = second.mnemonic ∧ ∃ numbers,
          DenotesAll target table first.operands numbers ∧
          DenotesAll target table second.operands numbers) ∨
        SystemCall target table first second.mnemonic ∨
        SystemCall target table second first.mnemonic) ∧
    ∀ instruction word, instruction.word target table = .ok word → ∃ numbers,
      DenotesAll target table instruction.operands numbers ∧
      ((∀ named, ¬SystemCall target table instruction named) →
        decode? word = some (instruction.mnemonic, numbers)) ∧
      ∀ named, SystemCall target table instruction named → decode? word = some (named, []) := by
  constructor
  · intro first second word hfirst hsecond
    obtain ⟨numbers, hfits, hword⟩ := word_eq_ok_iff.mp hfirst
    obtain ⟨others, hfits', hword'⟩ := word_eq_ok_iff.mp hsecond
    rcases decode?_of_fits hfits hword with hdecode | ⟨hsys, named, hnamed, hsame⟩
    · rcases decode?_of_fits hfits' hword' with hdecode' | ⟨hsys', named', hnamed', hsame'⟩
      · rw [hdecode, Option.some.injEq, Prod.mk.injEq] at hdecode'
        obtain ⟨hmnemonic, rfl⟩ := hdecode'
        exact Or.inl ⟨hmnemonic, numbers, hfits.denotesAll, hfits'.denotesAll⟩
      · rw [decode?_of_slots hnamed' hsame', Option.some.injEq, Prod.mk.injEq] at hdecode
        rw [← hdecode.1]
        exact Or.inr (Or.inr (systemCall_of_word hsys' hfits' hword' hnamed' hsame'))
    · rcases decode?_of_fits hfits' hword' with hdecode' | ⟨hsys', -⟩
      · rw [decode?_of_slots hnamed hsame, Option.some.injEq, Prod.mk.injEq] at hdecode'
        rw [← hdecode'.1]
        exact Or.inr (Or.inl (systemCall_of_word hsys hfits hword hnamed hsame))
      · left
        refine ⟨hsys.trans hsys'.symm, numbers, hfits.denotesAll, ?_⟩
        have hnumbers := hfits.readFields_word hword
        have hothers := hfits'.readFields_word hword'
        rw [hsys'] at hothers
        rw [hsys, hothers] at hnumbers
        exact hnumbers ▸ hfits'.denotesAll
  · intro instruction word h
    obtain ⟨numbers, hfits, hword⟩ := word_eq_ok_iff.mp h
    refine ⟨numbers, hfits.denotesAll, ?_, fun named hnamed => hnamed.decode?_eq hfits hword⟩
    intro hnone
    rcases decode?_of_fits hfits hword with hdecode | ⟨hsys, named, hnamed, hsame⟩
    · exact hdecode
    · exact absurd (systemCall_of_word hsys hfits hword hnamed hsame) (hnone named)

/-- A program loaded at `0x0E0` calls its first label by the word of `CLS`. -/
theorem word_decodes_label :
    let target : Target := { loadBase := 0x0E0 }
    let table : SymbolTable := { bindings := [⟨"draw", 0, 1⟩], named := by decide }
    let call : Instruction := ⟨.sys, [.label "draw"], 2⟩
    let clear : Instruction := ⟨.cls, [], 3⟩
    call.word target table = .ok 0x00E0 ∧ clear.word target table = .ok 0x00E0 ∧
      SystemCall target table call .cls ∧ decode? 0x00E0 = some (.cls, []) := by
  intro target table call clear
  have hcall : call.word target table = .ok 0x00E0 := by decide
  have hclear : clear.word target table = .ok 0x00E0 := by decide
  obtain ⟨hsame, hdecode⟩ := word_decodes target table
  have hnamed : SystemCall target table call .cls := by
    rcases hsame call clear _ hcall hclear with ⟨hmnemonic, -⟩ | hnamed | ⟨hmnemonic, -⟩
    · exact absurd hmnemonic (by decide)
    · exact hnamed
    · exact absurd hmnemonic (by decide)
  obtain ⟨-, -, -, hplain⟩ := hdecode call _ hcall
  exact ⟨hcall, hclear, hnamed, hplain _ hnamed⟩

end Chip8.Proofs
