import Mathlib
import Chip8.Mnemonic
import Chip8.Directive
import Chip8.Token
import Chip8.Text.Lines

/-!
# Texts

What printing and reading undo of each other, one kind of text at a time: the digits of a number,
the words of a line, the lines of a text, the names of mnemonics and directives, and tokens.
-/

namespace Chip8

/-! ### Numerals -/

namespace Numeral

lemma value_concat (base : Nat) (digits : List Nat) (digit : Nat) :
    value base (digits ++ [digit]) = base * value base digits + digit := by
  simp [value]

lemma digit?_digitChar : ∀ digit < 16, digit? 16 (Nat.digitChar digit).toUpper = some digit := by
  decide

lemma hex_of_lt {n : Nat} (h : n < 16) : hex n = [(Nat.digitChar n).toUpper] := by
  simp [hex, Nat.toDigits_of_lt_base h]

lemma hex_of_le {n : Nat} (h : 16 ≤ n) :
    hex n = hex (n / 16) ++ [(Nat.digitChar (n % 16)).toUpper] := by
  simp [hex, Nat.toDigits_of_base_le (by decide) h]

lemma hex_ne_nil (n : Nat) : hex n ≠ [] := by
  by_cases h : n < 16
  · simp [hex_of_lt h]
  · simp [hex_of_le (Nat.le_of_not_lt h)]

/-- The digits of a number, whatever letters they are written with, denote it. -/
lemma mapM_digit?_toDigits {base : Nat} {letter : Char → Char} (hbase : 1 < base)
    (hletter : ∀ digit < base, digit? base (letter (Nat.digitChar digit)) = some digit) (n : Nat) :
    ∃ digits, ((Nat.toDigits base n).map letter).mapM (digit? base) = some digits ∧
      value base digits = n := by
  induction n using Nat.strongRecOn with
  | _ n ih =>
    by_cases h : n < base
    · refine ⟨[n], ?_, by simp [value]⟩
      simp [Nat.toDigits_of_lt_base h, hletter n h]
    · have hn : base ≤ n := Nat.le_of_not_lt h
      obtain ⟨digits, hread, hvalue⟩ := ih (n / base) (Nat.div_lt_self (by omega) hbase)
      refine ⟨digits ++ [n % base], ?_, by rw [value_concat, hvalue, Nat.div_add_mod]⟩
      rw [Nat.toDigits_of_base_le hbase hn, List.map_append, List.mapM_append, hread]
      simp [hletter (n % base) (Nat.mod_lt n (by omega))]

/-- Zeros in front of digits count for nothing. -/
lemma positional?_leftpad {base width n : Nat} {text : List Char}
    (hzero : digit? base '0' = some 0) (h : positional? base text = some n) :
    positional? base (text.leftpad width '0') = some n := by
  have hgrow : ∀ count, positional? base (List.replicate count '0' ++ text) = some n := by
    intro count
    induction count with
    | zero => simpa using h
    | succ count ih =>
      simp only [positional?, List.isEmpty_iff, List.append_eq_nil_iff] at ih ⊢
      rw [List.replicate_succ, List.cons_append, if_neg (by simp), List.mapM_cons, hzero]
      split at ih
      · simp at ih
      · obtain ⟨digits, hread, hvalue⟩ := Option.map_eq_some_iff.mp ih
        rw [hread]
        simpa [value] using hvalue
  exact hgrow (width - text.length)

/-- Printing a number in hexadecimal and reading it gives the number. -/
lemma positional?_hex (n : Nat) : positional? 16 (hex n) = some n := by
  obtain ⟨digits, hread, hvalue⟩ := mapM_digit?_toDigits (by decide) digit?_digitChar n
  rw [positional?, if_neg (by simpa using hex_ne_nil n), hex, hread, Option.map_some, hvalue]

lemma positional?_hexPadded (width n : Nat) :
    positional? 16 (hexPadded width n).toList = some n := by
  rw [hexPadded, String.toList_ofList]
  exact positional?_leftpad (by decide) (positional?_hex n)

/-- Printing a number in decimal and reading it gives the number. -/
lemma positional?_toString (n : Nat) : positional? 10 (toString n).toList = some n := by
  have hletter : ∀ digit < 10, digit? 10 (id (Nat.digitChar digit)) = some digit := by decide
  obtain ⟨digits, hread, hvalue⟩ := mapM_digit?_toDigits (by decide) hletter n
  simp only [List.map_id] at hread
  simp [positional?, hread, hvalue]

lemma read?_hexPrefixed (n : Nat) : read? (hexPrefixed n).toList = some n := by
  have htext : (hexPrefixed n).toList = '0' :: 'x' :: hex n := by simp [hexPrefixed]
  rw [htext]
  exact positional?_hex n

end Numeral

/-! ### Words -/

lemma ne_nil_of_mem_words {text word : List Char} (h : word ∈ words text) : word ≠ [] := by
  simpa using (List.mem_filter.mp h).2

/-- No piece of a text holds a character that the text was cut at. -/
lemma eq_false_of_mem_splitOnP {p : Char → Bool} {text : List Char} :
    ∀ piece ∈ text.splitOnP p, ∀ c ∈ piece, p c = false := by
  induction text with
  | nil => simp
  | cons head rest ih =>
    rw [List.splitOnP_cons_eq_if_modifyHead]
    split
    · simpa using ih
    · next hhead =>
      obtain ⟨first, others, hrest⟩ := List.exists_cons_of_ne_nil (List.splitOnP_ne_nil p rest)
      rw [hrest, List.modifyHead_cons]
      rw [hrest] at ih
      intro piece hpiece c hc
      rcases List.mem_cons.mp hpiece with rfl | hpiece
      · rcases List.mem_cons.mp hc with rfl | hc
        · simpa using hhead
        · exact ih first (by simp) c hc
      · exact ih piece (by simp [hpiece]) c hc

lemma isBlank_eq_false_of_mem_words {text word : List Char} {c : Char} (h : word ∈ words text)
    (hc : c ∈ word) : isBlank c = false :=
  eq_false_of_mem_splitOnP word (List.mem_filter.mp h).1 c hc

lemma words_append_cons {blank : Char} (h : isBlank blank) (first rest : List Char) :
    words (first ++ blank :: rest) = words first ++ words rest := by
  rw [words, List.splitOnP_append_cons _ _ h, List.filter_append, words, words]

lemma words_eq_singleton {word : List Char} (hne : word ≠ [])
    (hsolid : ∀ c ∈ word, isBlank c = false) : words word = [word] := by
  simp [words, List.splitOnP_eq_singleton hsolid, hne]

/-- Words joined by spaces are the words of the text. -/
lemma words_intercalate {parts : List (List Char)} (hne : ∀ part ∈ parts, part ≠ [])
    (hsolid : ∀ part ∈ parts, ∀ c ∈ part, isBlank c = false) :
    words ([' '].intercalate parts) = parts := by
  induction parts with
  | nil => simp [words]
  | cons part parts ih =>
    have hpart := words_eq_singleton (hne part (by simp)) (hsolid part (by simp))
    cases parts with
    | nil => simpa using hpart
    | cons next parts =>
      have hothers := ih (fun part hmem => hne part (by simp [hmem]))
        fun part hmem => hsolid part (by simp [hmem])
      rw [List.intercalate_cons_cons, List.append_assoc, List.singleton_append,
        words_append_cons (by decide), hpart, hothers, List.singleton_append]

/-! ### Lines -/

lemma splitLines_nil : splitLines [] = [] := by
  simp [splitLines]

lemma splitLines_append_cons {line : List Char} (h : '\n' ∉ line) (rest : List Char) :
    splitLines (line ++ '\n' :: rest) = dropReturn line :: splitLines rest := by
  have hpieces : (line ++ '\n' :: rest).splitOn '\n' = line :: rest.splitOn '\n' :=
    List.splitOn_append_cons_self_of_not_mem h rest
  have hne : rest.splitOn '\n' ≠ [] := List.splitOn_ne_nil _ _
  simp only [splitLines, hpieces]
  rw [List.dropLast_cons_of_ne_nil hne, List.getLast?_cons_of_ne_nil hne]
  simp

lemma splitLines_of_not_mem {line : List Char} (h : '\n' ∉ line) (hne : line ≠ []) :
    splitLines line = [line] := by
  simp [splitLines, List.splitOn_eq_singleton h, hne]

lemma linesOf_empty : linesOf "" = [] := by
  simp [linesOf, splitLines_nil]

lemma linesOf_append {line : String} (h : '\n' ∉ line.toList) (rest : String) :
    linesOf (line ++ "\n" ++ rest) = String.ofList (dropReturn line.toList) :: linesOf rest := by
  have htext : (line ++ "\n" ++ rest).toList = line.toList ++ '\n' :: rest.toList := by simp
  rw [linesOf, htext, splitLines_append_cons h, List.map_cons, linesOf]

lemma linesOf_of_not_mem {line : String} (h : '\n' ∉ line.toList) (hne : line ≠ "") :
    linesOf line = [line] := by
  simp [linesOf, splitLines_of_not_mem h (by simpa using hne)]

/-! ### Mnemonics and directives -/

namespace Mnemonic

lemma mem_all (mnemonic : Mnemonic) : mnemonic ∈ all := by
  cases mnemonic <;> decide

lemma width_pattern (mnemonic : Mnemonic) : mnemonic.pattern.width = 4 := by
  cases mnemonic <;> rfl

lemma ofName?_name (mnemonic : Mnemonic) : ofName? mnemonic.name = some mnemonic := by
  cases mnemonic <;> rfl

lemma name_of_ofName? {text : String} {mnemonic : Mnemonic} (h : ofName? text = some mnemonic) :
    mnemonic.name = upper text := by
  simpa using List.find?_some h

end Mnemonic

namespace Directive

lemma ofName?_name (directive : Directive) : ofName? directive.name = some directive := by
  cases directive <;> rfl

lemma name_of_ofName? {text : String} {directive : Directive}
    (h : ofName? text = some directive) : directive.name = upper text := by
  simpa using List.find?_some h

end Directive

/-! ### Tokens -/

namespace Token

lemma literal_eq_ok_iff {token : String} {value : Nat} :
    literal token = .ok value ↔ Numeral.read? token.toList = some value ∧ value < UInt64.size := by
  unfold literal
  split
  · next number hread =>
    by_cases h : number < UInt64.size
    · simp only [h, if_true, Except.ok.injEq, hread, Option.some.injEq]
      exact ⟨fun heq => ⟨heq, heq ▸ h⟩, And.left⟩
    · simp only [h, if_false, reduceCtorEq, hread, Option.some.injEq, false_iff, not_and]
      exact fun heq => heq ▸ h
  · next hread => simp [hread]

lemma register_eq_ok_iff {token : String} {number : Nat} :
    register token = .ok number ↔ registerNumber? token.toList = some number := by
  unfold register
  split <;> simp_all

lemma lt_of_registerNumber? {token : List Char} {number : Nat}
    (h : registerNumber? token = some number) : number < 16 := by
  unfold registerNumber? at h
  split at h
  · split at h
    · simp only [Numeral.digit?, Option.filter_eq_some_iff] at h
      simpa using h.2
    · simp at h
  · simp at h

end Token

end Chip8
