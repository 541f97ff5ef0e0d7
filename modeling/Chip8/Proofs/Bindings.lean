import Mathlib
import Chip8.SymbolTable
import Chip8.Proofs.Outcome

/-!
# Bindings of a symbol table

What one definition does to a table, and what a table answers whose bindings are in strict order of
their names: the binding of a name, the names before an instruction, the instructions with names.
-/

namespace Chip8.SymbolTable

open Proofs

/-! ### One definition -/

section Define

variable {table next : SymbolTable} {binding first : Binding}

lemma define_run_of_invalid (hinvalid : Token.isLabelName binding.name = false) :
    (define binding).run.run table = (.error (.badLabelName binding.name), table) := by
  rw [define, run_get_bind, dif_neg (by simp [hinvalid])]
  rfl

lemma define_run_of_bound (hvalid : Token.isLabelName binding.name = true)
    (hbound : table.find? binding.name = some first) :
    (define binding).run.run table =
      (.error (.duplicateLabel binding.name first.line), table) := by
  rw [define, run_get_bind, dif_pos hvalid]
  split
  · next other hother =>
    obtain rfl := Option.some.inj (hbound.symm.trans hother)
    rfl
  · next hfresh => simp [hbound] at hfresh

lemma define_run_of_fresh (hvalid : Token.isLabelName binding.name = true)
    (hfresh : table.find? binding.name = none) :
    (define binding).run.run table = (.ok (), table.insert binding hvalid hfresh) := by
  rw [define, run_get_bind, dif_pos hvalid]
  split
  · next hbound => simp [hfresh] at hbound
  · rfl

lemma bind_of_not_isLabelName (hinvalid : Token.isLabelName binding.name = false) :
    table.bind binding = .error (.badLabelName binding.name) := by
  rw [bind, define_run_of_invalid hinvalid]
  rfl

lemma bind_of_bound (hvalid : Token.isLabelName binding.name = true)
    (hbound : table.find? binding.name = some first) :
    table.bind binding = .error (.duplicateLabel binding.name first.line) := by
  rw [bind, define_run_of_bound hvalid hbound]
  rfl

lemma bind_of_fresh (hvalid : Token.isLabelName binding.name = true)
    (hfresh : table.find? binding.name = none) :
    table.bind binding = .ok (table.insert binding hvalid hfresh) := by
  rw [bind, define_run_of_fresh hvalid hfresh]
  rfl

theorem bind_eq_ok_iff : table.bind binding = .ok next ↔ Token.isLabelName binding.name = true ∧
    table.find? binding.name = none ∧ next.bindings = insertByName binding table.bindings := by
  cases hvalid : Token.isLabelName binding.name with
  | false => simp [bind_of_not_isLabelName hvalid]
  | true =>
    cases hfound : table.find? binding.name with
    | some first => simp [bind_of_bound hvalid hfound]
    | none => simp [bind_of_fresh hvalid hfound, SymbolTable.ext_iff, insert, eq_comm]

theorem bind_eq_error_iff {cause : Cause} : table.bind binding = .error cause ↔
    Token.isLabelName binding.name = false ∧ cause = .badLabelName binding.name ∨
    Token.isLabelName binding.name = true ∧ ∃ first, table.find? binding.name = some first ∧
      cause = .duplicateLabel binding.name first.line := by
  cases hvalid : Token.isLabelName binding.name with
  | false => simp [bind_of_not_isLabelName hvalid, eq_comm]
  | true =>
    cases hfound : table.find? binding.name with
    | some first => simp [bind_of_bound hvalid hfound, eq_comm]
    | none => simp [bind_of_fresh hvalid hfound]

/-- A definition that is refused leaves the table as it was. -/
theorem define_run_of_error {cause : Cause} (h : table.bind binding = .error cause) :
    (define binding).run.run table = (.error cause, table) := by
  cases hvalid : Token.isLabelName binding.name with
  | false =>
    obtain rfl := Except.error.inj ((bind_of_not_isLabelName hvalid).symm.trans h)
    exact define_run_of_invalid hvalid
  | true =>
    cases hfound : table.find? binding.name with
    | some first =>
      obtain rfl := Except.error.inj ((bind_of_bound hvalid hfound).symm.trans h)
      exact define_run_of_bound hvalid hfound
    | none => simp [bind_of_fresh hvalid hfound] at h

lemma define_run_of_ok (h : table.bind binding = .ok next) :
    (define binding).run.run table = (.ok (), next) := by
  obtain ⟨hvalid, hfresh, -⟩ := bind_eq_ok_iff.mp h
  obtain rfl := Except.ok.inj ((bind_of_fresh hvalid hfresh).symm.trans h)
  exact define_run_of_fresh hvalid hfresh

end Define

/-! ### What a table answers -/

section Answers

variable {table : SymbolTable} {index : Nat} {name : String}

lemma find?_eq_some_iff {binding : Binding} :
    table.find? name = some binding ↔ binding ∈ table.bindings ∧ binding.name = name := by
  constructor
  · intro h
    exact ⟨List.mem_of_find?_eq_some h, by simpa using List.find?_some h⟩
  · rintro ⟨hmem, rfl⟩
    have hordered := table.ordered
    rw [find?]
    generalize table.bindings = bindings at hmem hordered
    induction bindings with
    | nil => simp at hmem
    | cons head rest ih =>
      obtain ⟨hhead, hrest⟩ := List.pairwise_cons.mp hordered
      rcases List.mem_cons.mp hmem with rfl | hmem
      · simp
      · have hne : head.name ≠ binding.name := (hhead binding hmem).ne
        simp [hne, ih hmem hrest]

lemma find?_eq_none_iff :
    table.find? name = none ↔ ∀ binding ∈ table.bindings, binding.name ≠ name := by
  simp [find?]

lemma mem_namesAt :
    name ∈ table.namesAt index ↔
      ∃ binding ∈ table.bindings, binding.name = name ∧ binding.index = index := by
  simp [namesAt, and_assoc, and_comm, and_left_comm]

lemma pairwise_namesAt (table : SymbolTable) (index : Nat) :
    (table.namesAt index).Pairwise (· < ·) := by
  rw [namesAt, List.pairwise_map]
  exact table.ordered.filter _

lemma mem_insertIndex {other : Nat} {indices : List Nat} :
    other ∈ insertIndex index indices ↔ other = index ∨ other ∈ indices := by
  induction indices with
  | nil => simp [insertIndex]
  | cons head rest ih => grind [insertIndex]

lemma pairwise_insertIndex {indices : List Nat} (hordered : indices.Pairwise (· < ·)) :
    (insertIndex index indices).Pairwise (· < ·) := by
  induction indices with
  | nil => simp [insertIndex]
  | cons head rest ih =>
    obtain ⟨hhead, hrest⟩ := List.pairwise_cons.mp hordered
    rw [insertIndex]
    split
    · next hlt =>
      refine List.pairwise_cons.mpr ⟨fun other hmem => ?_, hordered⟩
      rcases List.mem_cons.mp hmem with rfl | hmem
      · exact hlt
      · exact Nat.lt_trans hlt (hhead other hmem)
    · split
      · exact hordered
      · refine List.pairwise_cons.mpr ⟨fun other hmem => ?_, ih hrest⟩
        rcases mem_insertIndex.mp hmem with rfl | hmem
        · omega
        · exact hhead other hmem

lemma mem_indices :
    index ∈ table.indices ↔ ∃ binding ∈ table.bindings, binding.index = index := by
  rw [indices]
  induction table.bindings with
  | nil => simp
  | cons binding rest ih => simp [mem_insertIndex, ih, eq_comm]

lemma pairwise_indices (table : SymbolTable) : table.indices.Pairwise (· < ·) := by
  rw [indices]
  induction table.bindings with
  | nil => simp
  | cons binding rest ih => exact pairwise_insertIndex ih

end Answers

end Chip8.SymbolTable
