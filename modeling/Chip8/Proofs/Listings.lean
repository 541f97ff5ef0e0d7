import Mathlib
import Chip8.Proofs.Relisting

/-!
# Listings

The listing of a program says all about it: `readListing?` gets the program back from the text. The
columns for addresses and lines have least widths only, so a line is read by its words. One with a
single word shows a label, which goes to the next line of the other kind. Main statement:
`assemble_listing`.
-/

namespace Chip8.Proofs

/-- What a line of a listing shows. -/
inductive Row where
  | ofLabel (name : String)
  | ofWord (address word : UInt16) (instruction : Instruction)
deriving DecidableEq

/-- The line of a listing, without its ending. -/
def Row.line : Row → String
  | ofLabel name => name ++ ":"
  | ofWord address word instruction =>
    Numeral.hexPadded 3 address.toNat ++ "  " ++ Numeral.hexPadded 4 word.toNat ++ "  " ++
      Entry.alignRight 5 (toString instruction.line) ++ "  " ++ instruction.text

/-- The rows for an entry: one for each label, and one for the word. -/
def rowsOf (entry : Entry) : List Row :=
  entry.labels.map .ofLabel ++ [.ofWord entry.address entry.word entry.instruction]

/-- The row that a line of a listing shows, by its words. -/
def readRow? (line : String) : Option Row :=
  match words line.toList with
  | [label] => some (.ofLabel (String.ofList label.dropLast))
  | address :: word :: number :: text => do
    let address ← Numeral.positional? 16 address
    let word ← Numeral.positional? 16 word
    let number ← Numeral.positional? 10 number
    match Statement.ofTokens number (text.map String.ofList) with
    | .ok (.instruction instruction) =>
      some (.ofWord (UInt16.ofNat address) (UInt16.ofNat word) instruction)
    | _ => none
  | _ => none

/-- The entries that rows show, the first of which has the labels read so far. -/
def entriesOf (labels : List String) : List Row → List Entry
  | [] => []
  | .ofLabel name :: rows => entriesOf (labels ++ [name]) rows
  | .ofWord address word instruction :: rows =>
    { address, word, instruction, labels } :: entriesOf [] rows

/-- The program that a listing shows. -/
def readListing? (text : String) : Option Program :=
  ((linesOf text).mapM readRow?).map fun rows => { entries := entriesOf [] rows }

/-! ### Rows and entries -/

lemma entriesOf_labels (labels names : List String) (rows : List Row) :
    entriesOf labels (names.map .ofLabel ++ rows) = entriesOf (labels ++ names) rows := by
  induction names generalizing labels with
  | nil => simp
  | cons name names ih =>
    rw [List.map_cons, List.cons_append, entriesOf, ih, List.append_assoc, List.singleton_append]

theorem entriesOf_rows (entries : List Entry) :
    entriesOf [] (entries.flatMap rowsOf) = entries := by
  induction entries with
  | nil => rfl
  | cons entry entries ih =>
    rw [List.flatMap_cons, rowsOf, List.append_assoc, entriesOf_labels, List.singleton_append,
      entriesOf, ih, List.nil_append]

lemma rows_eq (entry : Entry) : entry.rows = (rowsOf entry).map fun row => row.line ++ "\n" := by
  have hlabel : Entry.labelRow = (fun row : Row => row.line ++ "\n") ∘ Row.ofLabel := by
    funext name
    have hrow : Entry.labelRow name = name ++ ":\n" := rfl
    simp [hrow, Row.line, String.append_assoc]
  have hword : entry.wordRow =
      (Row.ofWord entry.address entry.word entry.instruction).line ++ "\n" := rfl
  rw [Entry.rows, rowsOf, List.map_append, List.map_map, List.map_singleton, ← hlabel, hword]

lemma listing_eq (program : Program) : program.listing =
    String.join (((program.entries.flatMap rowsOf).map Row.line).map (· ++ "\n")) := by
  unfold Program.listing
  rw [List.map_map, List.map_flatMap]
  exact congrArg String.join (List.flatMap_congr fun entry _ => rows_eq entry)

/-! ### Columns -/

lemma plain_hexPadded (width value : Nat) : Plain (Numeral.hexPadded width value) := by
  rw [Plain, Numeral.hexPadded, String.toList_ofList, List.leftpad]
  refine ⟨by simp [Numeral.hex_ne_nil], fun c hc => ?_⟩
  rcases List.mem_append.mp hc with hc | hc
  · rw [List.eq_of_mem_replicate hc]
    decide
  · exact isNameChar_of_mem_hex hc

lemma plain_toString (n : Nat) : Plain (toString n) := by
  rw [Plain, Nat.toString_eq_ofList_toDigits, String.toList_ofList]
  refine ⟨Nat.toDigits_ne_nil, fun c hc => ?_⟩
  have hdigit := Nat.isDigit_of_mem_toDigits (by decide) (le_refl 10) hc
  simp [Token.isNameChar, Char.isAlphanum, hdigit]

lemma Plain.words_eq {column : String} (h : Plain column) :
    words column.toList = [column.toList] :=
  words_eq_singleton h.1 fun c hc => (isNameChar_solid (h.2 c hc)).1

lemma words_cons_space (text : List Char) : words (' ' :: text) = words text :=
  words_append_cons (by decide) [] text

lemma words_spaces (count : Nat) (text : List Char) :
    words (List.replicate count ' ' ++ text) = words text := by
  induction count with
  | zero => rfl
  | succ count ih => rw [List.replicate_succ, List.cons_append, words_cons_space, ih]

/-- Two spaces end a column. -/
lemma Plain.words_append {column : String} (h : Plain column) (text : List Char) :
    words (column.toList ++ ' ' :: ' ' :: text) = column.toList :: words text := by
  rw [words_append_cons (by decide), words_cons_space, h.words_eq, List.singleton_append]

lemma Plain.words_alignRight {column : String} (h : Plain column) (width : Nat) (text : List Char) :
    words ((Entry.alignRight width column).toList ++ ' ' :: ' ' :: text) =
      column.toList :: words text := by
  rw [Entry.alignRight, String.toList_ofList, List.leftpad, List.append_assoc, words_spaces,
    h.words_append]

/-! ### A row and its line -/

/-- The row shows what an assembled program may have. -/
def Listed : Row → Prop
  | .ofLabel name => Token.isLabelName name = true
  | .ofWord _ _ instruction => Canonical instruction

section Line

variable {address word : UInt16} {instruction : Instruction}

/-- The words of the canonical text. -/
def textParts (instruction : Instruction) : List String :=
  instruction.mnemonic.name :: instruction.operands.map Operand.text

lemma words_text (h : Canonical instruction) :
    words instruction.text.toList = (textParts instruction).map String.toList := by
  have hparts : ∀ part ∈ (textParts instruction).map String.toList,
      part ≠ [] ∧ ∀ c ∈ part, isBlank c = false := by
    intro part hpart
    obtain ⟨text, htext, rfl⟩ := List.mem_map.mp hpart
    have hplain := plain_of_mem_text h htext
    exact ⟨hplain.1, fun c hc => (isNameChar_solid (hplain.2 c hc)).1⟩
  rw [Instruction.text, String.toList_intercalate]
  exact words_intercalate (fun part hpart => (hparts part hpart).1) fun part hpart =>
    (hparts part hpart).2

lemma ofTokens_textParts (h : Canonical instruction) :
    Statement.ofTokens instruction.line (textParts instruction) =
      .ok (.instruction instruction) := by
  have htokens : tokensOf instruction.text = textParts instruction :=
    tokensOf_intercalate fun part hpart => (plain_of_mem_text h hpart).solid
  rw [← htokens]
  exact read_text h instruction.line

lemma toList_labelLine (name : String) : (Row.ofLabel name).line.toList = name.toList ++ [':'] := by
  simp [Row.line]

lemma toList_line : (Row.ofWord address word instruction).line.toList =
    (Numeral.hexPadded 3 address.toNat).toList ++ ' ' :: ' ' ::
      ((Numeral.hexPadded 4 word.toNat).toList ++ ' ' :: ' ' ::
        ((Entry.alignRight 5 (toString instruction.line)).toList ++ ' ' :: ' ' ::
          instruction.text.toList)) := by
  simp [Row.line]

lemma words_line (h : Canonical instruction) :
    words (Row.ofWord address word instruction).line.toList =
      (Numeral.hexPadded 3 address.toNat).toList :: (Numeral.hexPadded 4 word.toNat).toList ::
        (toString instruction.line).toList :: (textParts instruction).map String.toList := by
  rw [toList_line, (plain_hexPadded _ _).words_append, (plain_hexPadded _ _).words_append,
    (plain_toString _).words_alignRight, words_text h]

theorem readRow?_line {row : Row} (h : Listed row) : readRow? row.line = some row := by
  cases row with
  | ofLabel name =>
    have hplain := plain_of_isLabelName h
    have hwords : words (Row.ofLabel name).line.toList = [name.toList ++ [':']] := by
      rw [toList_labelLine]
      apply words_eq_singleton (by simp)
      intro c hc
      rcases List.mem_append.mp hc with hc | hc
      · exact (isNameChar_solid (hplain.2 c hc)).1
      · rw [List.mem_singleton.mp hc]
        decide
    simp [readRow?, hwords]
  | ofWord address word instruction =>
    have hstatement : Statement.ofTokens instruction.line
        (((textParts instruction).map String.toList).map String.ofList) =
          .ok (.instruction instruction) := by
      simpa [List.map_map] using ofTokens_textParts h
    rw [readRow?, words_line h]
    simp only [Numeral.positional?_hexPadded, Numeral.positional?_toString, Option.bind_eq_bind,
      Option.bind_some, hstatement, UInt16.ofNat_toNat]

/-- The columns for addresses and lines are wider here than their least widths. -/
example : readRow? "1000  00EE  123456  RET" = some (.ofWord 0x1000 0x00EE ⟨.ret, [], 123456⟩) := by
  decide +kernel

lemma mem_text (h : Canonical instruction) {c : Char} (hc : c ∈ instruction.text.toList) :
    c = ' ' ∨ Token.isNameChar c = true := by
  rw [Instruction.text, String.toList_intercalate] at hc
  rcases mem_intercalate hc with rfl | ⟨part, hpart, hc⟩
  · exact Or.inl rfl
  · obtain ⟨text, htext, rfl⟩ := List.mem_map.mp hpart
    exact Or.inr ((plain_of_mem_text h htext).2 c hc)

lemma mem_line {row : Row} (h : Listed row) {c : Char} (hc : c ∈ row.line.toList) :
    c = ' ' ∨ c = ':' ∨ Token.isNameChar c = true := by
  cases row with
  | ofLabel name =>
    rw [toList_labelLine, List.mem_append, List.mem_singleton] at hc
    rcases hc with hc | rfl
    · exact Or.inr (Or.inr ((plain_of_isLabelName h).2 c hc))
    · exact Or.inr (Or.inl rfl)
  | ofWord address word instruction =>
    have hnumber : c ∈ (Entry.alignRight 5 (toString instruction.line)).toList →
        c = ' ' ∨ Token.isNameChar c = true := by
      rw [Entry.alignRight, String.toList_ofList, List.leftpad, List.mem_append]
      rintro (hc | hc)
      · exact Or.inl (List.eq_of_mem_replicate hc)
      · exact Or.inr ((plain_toString _).2 c hc)
    rw [toList_line] at hc
    simp only [List.mem_append, List.mem_cons, or_self_left] at hc
    rcases hc with hc | rfl | hc | rfl | hc | rfl | hc
    · exact Or.inr (Or.inr ((plain_hexPadded _ _).2 c hc))
    · exact Or.inl rfl
    · exact Or.inr (Or.inr ((plain_hexPadded _ _).2 c hc))
    · exact Or.inl rfl
    · exact (hnumber hc).imp_right Or.inr
    · exact Or.inl rfl
    · exact (mem_text h hc).imp_right Or.inr

/-- No character of a line ends it. -/
lemma not_ending_of_mem_line {row : Row} (h : Listed row) {c : Char} (hc : c ∈ row.line.toList) :
    c ≠ '\n' ∧ c ≠ '\r' := by
  rcases mem_line h hc with rfl | rfl | hname
  · decide
  · decide
  · have hblank := (isNameChar_solid hname).1
    constructor <;> rintro rfl <;> simp [isBlank, blankRanges] at hblank

end Line

/-! ### The listing of a program -/

lemma linesOf_join {lines : List String}
    (h : ∀ line ∈ lines, ∀ c ∈ line.toList, c ≠ '\n' ∧ c ≠ '\r') :
    linesOf (String.join (lines.map (· ++ "\n"))) = lines := by
  induction lines with
  | nil => simp [linesOf_empty]
  | cons line lines ih =>
    have hfeed : '\n' ∉ line.toList := fun hmem => (h line (by simp) _ hmem).1 rfl
    have hreturn : line.toList.getLast? ≠ some '\r' := fun hlast =>
      (h line (by simp) _ (List.mem_of_getLast? hlast)).2 rfl
    rw [List.map_cons, String.join_cons, linesOf_append hfeed, dropReturn, if_neg hreturn,
      String.ofList_toList, ih fun other hother => h other (by simp [hother])]

lemma mapM_readRow?_line {rows : List Row} (h : ∀ row ∈ rows, Listed row) :
    (rows.map Row.line).mapM readRow? = some rows := by
  induction rows with
  | nil => rfl
  | cons row rows ih =>
    rw [List.map_cons, List.mapM_cons, readRow?_line (h row (by simp)),
      ih fun other hother => h other (by simp [hother])]
    rfl

section Program

variable {target : Target} {lines : List String} {program : Program}

lemma listed_of_assemble (h : assemble target lines = .ok program) :
    ∀ row ∈ program.entries.flatMap rowsOf, Listed row := by
  obtain ⟨-, draft, hscan, -, hlink⟩ := assemble_eq_ok_iff.mp h
  obtain ⟨blocks, hblocks⟩ := scan_eq_ok_iff.mp hscan
  intro row hrow
  obtain ⟨entry, hentry, hrow⟩ := List.mem_flatMap.mp hrow
  obtain ⟨i, hi⟩ := List.mem_iff_getElem?.mp hentry
  obtain ⟨instruction, word, hinstruction, -, rfl⟩ := (getElem?_entries_iff hlink).mp hi
  rw [rowsOf, List.mem_append, List.mem_map, List.mem_singleton] at hrow
  rcases hrow with ⟨name, hname, rfl⟩ | rfl
  · exact isLabelName_of_mem_namesAt hname
  · exact hblocks.canonical instruction (List.mem_of_getElem? hinstruction)

theorem linesOf_listing (h : assemble target lines = .ok program) :
    linesOf program.listing = (program.entries.flatMap rowsOf).map Row.line := by
  rw [listing_eq]
  apply linesOf_join
  intro line hline c hc
  obtain ⟨row, hrow, rfl⟩ := List.mem_map.mp hline
  exact not_ending_of_mem_line (listed_of_assemble h row hrow) hc

theorem readListing?_listing (h : assemble target lines = .ok program) :
    readListing? program.listing = some program := by
  have hrows := mapM_readRow?_line (listed_of_assemble h)
  rw [readListing?, linesOf_listing h, hrows, Option.map_some, entriesOf_rows]

lemma length_rows (entries : List Entry) : (entries.flatMap rowsOf).length =
    entries.length + (entries.map fun entry => entry.labels.length).sum := by
  induction entries with
  | nil => rfl
  | cons entry entries ih =>
    rw [List.flatMap_cons, List.length_append, ih, rowsOf]
    simp
    omega

end Program

/-- The listing of a program that is assembled reads back as the program, with a line for each entry
and each label. So two such programs with the same listing are equal, whatever their targets and
sources: entry by entry, the addresses, words, lines, texts and labels are the same. -/
theorem assemble_listing {target : Target} {lines : List String} {program : Program}
    (h : assemble target lines = .ok program) :
    readListing? program.listing = some program ∧
    (linesOf program.listing).length =
      program.size + (program.entries.map fun entry => entry.labels.length).sum ∧
    ∀ place others other, assemble place others = .ok other → program.listing = other.listing →
      program = other := by
  have hread := readListing?_listing h
  refine ⟨hread, ?_, ?_⟩
  · rw [linesOf_listing h, List.length_map, length_rows, Program.size]
  · intro place others other hother hlisting
    rw [hlisting, readListing?_listing hother] at hread
    exact (Option.some.inj hread).symm

/-- Two spellings of one source, with two labels on one address. -/
theorem assemble_listing_spellings : ∃ program,
    assemble {} ["STACK_INIT", "label b ; loop", "Label a", "push v1", "jp b"] = .ok program ∧
    assemble {} ["stack_init", "LABEL b", "LABEL a", "PUSH V1", "JP b"] = .ok program ∧
    linesOf program.listing = ["200  AFFF      1  LD_I 0xFFF", "a:", "b:",
      "202  8010      4  LD_REG V0 V1", "204  F055      4  STORE_REGS V0",
      "206  AFFE      4  LD_I 0xFFE", "208  1201      5  JP b"] ∧
    readListing? program.listing = some program := by
  have hlines : (assemble {} ["STACK_INIT", "label b ; loop", "Label a", "push v1", "jp b"]).map
      (fun program => linesOf program.listing) = .ok ["200  AFFF      1  LD_I 0xFFF", "a:", "b:",
        "202  8010      4  LD_REG V0 V1", "204  F055      4  STORE_REGS V0",
        "206  AFFE      4  LD_I 0xFFE", "208  1201      5  JP b"] := by
    decide +kernel
  have hlisting : (assemble {} ["stack_init", "LABEL b", "LABEL a", "PUSH V1", "JP b"]).map
      Program.listing = (assemble {} ["STACK_INIT", "label b ; loop", "Label a", "push v1",
        "jp b"]).map Program.listing := by
    decide +kernel
  obtain ⟨program, hprogram, hlines⟩ := map_eq_ok_iff.mp hlines
  rw [hprogram] at hlisting
  obtain ⟨other, hother, hlisting⟩ := map_eq_ok_iff.mp hlisting
  obtain ⟨hread, -, hunique⟩ := assemble_listing hprogram
  obtain rfl := hunique _ _ _ hother hlisting.symm
  exact ⟨program, hprogram, hother, hlines, hread⟩

end Chip8.Proofs
