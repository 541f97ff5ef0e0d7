import Mathlib
import Chip8.Program
import Chip8.Proofs.Bindings
import Chip8.Proofs.Reading

/-!
# What a symbol table says

A table answers which instruction a name stands before; the line of a binding matters for
duplicates only. Two tables with the same answers give every label the same address and every
instruction the same word and the same names. The names before an instruction are in the order of
their bytes.
-/

namespace Chip8.Proofs

/-- The number of the instruction that a name is bound to. -/
def indexOf? (table : SymbolTable) (name : String) : Option Nat :=
  (table.find? name).map (·.index)

/-- The tables bind the same names to the same instructions. -/
def SameIndices (first second : SymbolTable) : Prop :=
  ∀ name, indexOf? first name = indexOf? second name

lemma indexOf?_eq_some_iff {table : SymbolTable} {name : String} {index : Nat} :
    indexOf? table name = some index ↔
      ∃ binding ∈ table.bindings, binding.name = name ∧ binding.index = index := by
  simp only [indexOf?, Option.map_eq_some_iff, SymbolTable.find?_eq_some_iff, and_assoc]

lemma indexOf?_eq_none_iff {table : SymbolTable} {name : String} :
    indexOf? table name = none ↔ table.find? name = none := by
  simp [indexOf?]

lemma eq_of_mem_of_name_eq {table : SymbolTable} {first second : Binding}
    (hf : first ∈ table.bindings) (hs : second ∈ table.bindings) (h : first.name = second.name) :
    first = second := by
  have h1 := SymbolTable.find?_eq_some_iff.mpr ⟨hf, h⟩
  have h2 := SymbolTable.find?_eq_some_iff.mpr ⟨hs, rfl⟩
  rw [h1, Option.some.injEq] at h2
  exact h2

lemma isLabelName_of_mem_namesAt {table : SymbolTable} {index : Nat} {name : String}
    (h : name ∈ table.namesAt index) : Token.isLabelName name = true := by
  obtain ⟨binding, hmem, rfl, -⟩ := SymbolTable.mem_namesAt.mp h
  exact table.named binding hmem

lemma mem_namesAt_iff {table : SymbolTable} {index : Nat} {name : String} :
    name ∈ table.namesAt index ↔ indexOf? table name = some index := by
  rw [SymbolTable.mem_namesAt, indexOf?_eq_some_iff]

lemma nodup_namesAt (table : SymbolTable) (index : Nat) : (table.namesAt index).Nodup :=
  (table.pairwise_namesAt index).imp fun hlt => ne_of_lt hlt

/-- A name is bound to one instruction, so no two instructions share it. -/
lemma nodup_flatMap_namesAt (table : SymbolTable) {indices : List Nat} (h : indices.Nodup) :
    (indices.flatMap table.namesAt).Nodup := by
  rw [List.nodup_flatMap]
  refine ⟨fun index _ => nodup_namesAt table index, h.imp ?_⟩
  intro i j hne name hi hj
  have hfirst := mem_namesAt_iff.mp hi
  have hsecond := mem_namesAt_iff.mp hj
  exact hne (Option.some.inj (hfirst.symm.trans hsecond))

/-! ### One more binding -/

lemma insertByName_perm (binding : Binding) (bindings : List Binding) :
    (SymbolTable.insertByName binding bindings).Perm (binding :: bindings) := by
  induction bindings with
  | nil => exact .refl _
  | cons other rest ih =>
    rw [SymbolTable.insertByName]
    split
    · exact .refl _
    · exact (ih.cons other).trans (.swap binding other rest)

section Bind

variable {table next : SymbolTable} {binding : Binding}

lemma mem_bindings_bind (h : table.bind binding = .ok next) {other : Binding} :
    other ∈ next.bindings ↔ other = binding ∨ other ∈ table.bindings := by
  obtain ⟨-, -, hnext⟩ := SymbolTable.bind_eq_ok_iff.mp h
  rw [hnext, SymbolTable.mem_insertByName]

lemma indexOf?_bind (h : table.bind binding = .ok next) (name : String) :
    indexOf? next name = if name = binding.name then some binding.index
      else indexOf? table name := by
  have hmem : ∀ index, indexOf? next name = some index ↔
      name = binding.name ∧ binding.index = index ∨ indexOf? table name = some index := by
    intro index
    simp only [indexOf?_eq_some_iff, mem_bindings_bind h]
    grind
  obtain ⟨-, hfresh, -⟩ := SymbolTable.bind_eq_ok_iff.mp h
  by_cases hname : name = binding.name
  · rw [if_pos hname, hmem]
    exact Or.inl ⟨hname, rfl⟩
  · rw [if_neg hname]
    apply Option.ext
    intro index
    rw [hmem]
    simp [hname]

/-- A binding is accepted if its name is a label name that has none. -/
lemma exists_bind (binding : Binding) (hvalid : Token.isLabelName binding.name = true)
    (hfresh : indexOf? table binding.name = none) : ∃ next, table.bind binding = .ok next := by
  rw [indexOf?_eq_none_iff] at hfresh
  exact ⟨_, SymbolTable.bind_of_fresh hvalid hfresh⟩

end Bind

/-! ### Tables with the same answers -/

section SameIndices

variable {first second : SymbolTable}

lemma SameIndices.namesAt_eq (h : SameIndices first second) (index : Nat) :
    first.namesAt index = second.namesAt index := by
  apply (first.pairwise_namesAt index).eq_of_mem_iff (second.pairwise_namesAt index)
  intro name
  rw [SymbolTable.mem_namesAt, SymbolTable.mem_namesAt, ← indexOf?_eq_some_iff, h name,
    indexOf?_eq_some_iff]

lemma SameIndices.address_eq (h : SameIndices first second) (target : Target)
    (owner name : String) : first.address target owner name = second.address target owner name := by
  have hname := h name
  unfold indexOf? at hname
  unfold SymbolTable.address
  cases hf : first.find? name with
  | none => cases hs : second.find? name <;> simp_all
  | some binding => cases hs : second.find? name <;> simp_all

lemma SameIndices.fill_eq (h : SameIndices first second) (target : Target) (owner : String)
    (slot : Slot) (operand : Operand) :
    slot.fill target first owner operand = slot.fill target second owner operand := by
  unfold Slot.fill
  cases slot <;> cases operand <;> simp only [Slot.number, h.address_eq]

lemma SameIndices.fillAll_eq (h : SameIndices first second) (target : Target) (owner : String)
    (slots : List Slot) (operands : List Operand) :
    Slot.fillAll target first owner slots operands =
      Slot.fillAll target second owner slots operands := by
  induction slots generalizing operands with
  | nil => rfl
  | cons slot slots ih =>
    cases operands with
    | nil => rfl
    | cons operand operands => simp only [Slot.fillAll, h.fill_eq, ih]

lemma SameIndices.nibbles_eq (h : SameIndices first second) (target : Target)
    (mnemonic : Mnemonic) (operands : List Operand) :
    mnemonic.nibbles target first operands = mnemonic.nibbles target second operands := by
  simp only [Mnemonic.nibbles, h.fillAll_eq]

end SameIndices

/-! ### Names in byte order -/

/-- The bytes of a text in UTF-8. -/
def utf8 (text : String) : List UInt8 :=
  text.toUTF8.data.toList

/-- An ASCII character is one byte. -/
lemma utf8_eq_map {text : String} (h : ∀ c ∈ text.toList, c.toNat < 128) :
    utf8 text = text.toList.map fun c => UInt8.ofNat c.toNat := by
  have hbytes : utf8 text = text.toList.flatMap String.utf8EncodeChar := by
    unfold utf8 String.toUTF8
    rw [← String.utf8Encode_toList]
    simp [List.utf8Encode]
  have hchar : ∀ c ∈ text.toList, String.utf8EncodeChar c = [UInt8.ofNat c.toNat] := by
    intro c hc
    have hval : c.val.toNat ≤ 127 := Nat.le_of_lt_succ (h c hc)
    simp only [String.utf8EncodeChar]
    rw [if_pos hval]
    rfl
  rw [hbytes, List.flatMap_congr hchar]
  exact List.map_eq_flatMap.symm

lemma map_lt_map {first second : List Char} (hfirst : ∀ c ∈ first, c.toNat < 128)
    (hsecond : ∀ c ∈ second, c.toNat < 128) (h : first < second) :
    (first.map fun c => UInt8.ofNat c.toNat) < second.map fun c => UInt8.ofNat c.toNat := by
  induction first generalizing second with
  | nil =>
    cases second with
    | nil => simp at h
    | cons d second => simp
  | cons c first ih =>
    cases second with
    | nil => simp at h
    | cons d second =>
      have hc := hfirst c (by simp)
      have hd := hsecond d (by simp)
      rw [List.cons_lt_cons_iff] at h
      rw [List.map_cons, List.map_cons, List.cons_lt_cons_iff]
      rcases h with hlt | ⟨rfl, hlt⟩
      · left
        rw [Char.lt_def, UInt32.lt_iff_toNat_lt] at hlt
        rw [UInt8.lt_iff_toNat_lt, UInt8.toNat_ofNat', UInt8.toNat_ofNat']
        change c.toNat < d.toNat at hlt
        omega
      · exact Or.inr ⟨rfl, ih (fun e he => hfirst e (by simp [he]))
          (fun e he => hsecond e (by simp [he])) hlt⟩

lemma ascii_of_isLabelName {name : String} (h : Token.isLabelName name = true) :
    ∀ c ∈ name.toList, c.toNat < 128 := by
  intro c hc
  have hrange := toNat_of_isNameChar ((plain_of_isLabelName h).2 c hc)
  omega

theorem pairwise_utf8_namesAt (table : SymbolTable) (index : Nat) :
    ((table.namesAt index).map utf8).Pairwise (· < ·) := by
  have hascii : ∀ name ∈ table.namesAt index, ∀ c ∈ name.toList, c.toNat < 128 := by
    intro name hname
    exact ascii_of_isLabelName (isLabelName_of_mem_namesAt hname)
  rw [List.pairwise_map]
  refine (table.pairwise_namesAt index).imp_of_mem ?_
  intro first second hfirst hsecond hlt
  rw [utf8_eq_map (hascii first hfirst), utf8_eq_map (hascii second hsecond)]
  exact map_lt_map (hascii first hfirst) (hascii second hsecond) (String.lt_iff_toList_lt.mp hlt)

end Chip8.Proofs
