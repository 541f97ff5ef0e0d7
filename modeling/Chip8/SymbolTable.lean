import Chip8.Fault

/-!
# Symbol tables

A symbol table binds label names to instruction numbers. A name is bound once: a second binding is
refused. Bindings are kept in strictly increasing order of their names, so two tables with the same
bindings are equal whatever the order they were made in.
-/

namespace Chip8

/-- A label, the number of the instruction it stands before, and the line that binds it. -/
structure Binding where
  name : String
  index : Nat
  line : Nat
deriving DecidableEq

@[ext]
structure SymbolTable where
  bindings : List Binding := []
  ordered : bindings.Pairwise (fun a b => a.name < b.name) := by simp
  named : ∀ binding ∈ bindings, Token.isLabelName binding.name = true := by simp

namespace SymbolTable

/-- Adds a binding before the first one with a greater name. -/
def insertByName (binding : Binding) : List Binding → List Binding
  | [] => [binding]
  | other :: rest =>
    if binding.name < other.name then binding :: other :: rest
    else other :: insertByName binding rest

theorem mem_insertByName {binding other : Binding} {bindings : List Binding} :
    other ∈ insertByName binding bindings ↔ other = binding ∨ other ∈ bindings := by
  induction bindings with
  | nil => simp [insertByName]
  | cons head rest ih =>
    rw [insertByName]
    split
    · simp
    · simp only [List.mem_cons, ih]
      exact or_left_comm

theorem pairwise_insertByName {binding : Binding} {bindings : List Binding}
    (hordered : bindings.Pairwise (fun a b => a.name < b.name))
    (hfresh : ∀ other ∈ bindings, other.name ≠ binding.name) :
    (insertByName binding bindings).Pairwise (fun a b => a.name < b.name) := by
  induction bindings with
  | nil => simp [insertByName]
  | cons head rest ih =>
    obtain ⟨hhead, hrest⟩ := List.pairwise_cons.mp hordered
    rw [insertByName]
    split
    · next hlt =>
      refine List.pairwise_cons.mpr ⟨fun other hmem => ?_, hordered⟩
      rcases List.mem_cons.mp hmem with rfl | hmem
      · exact hlt
      · exact String.lt_trans hlt (hhead other hmem)
    · next hge =>
      have hlt : head.name < binding.name := by
        refine String.not_le.mp fun hle => hfresh head (by simp) ?_
        exact String.le_antisymm (String.not_lt.mp hge) hle
      refine List.pairwise_cons.mpr ⟨fun other hmem => ?_, ih hrest fun other hmem => ?_⟩
      · rcases mem_insertByName.mp hmem with rfl | hmem
        · exact hlt
        · exact hhead other hmem
      · exact hfresh other (by simp [hmem])

/-- The binding of a name. -/
def find? (table : SymbolTable) (name : String) : Option Binding :=
  table.bindings.find? (·.name == name)

/-- The table with a binding for a label name that has none. -/
def insert (table : SymbolTable) (binding : Binding)
    (hvalid : Token.isLabelName binding.name = true) (hfresh : table.find? binding.name = none) :
    SymbolTable where
  bindings := insertByName binding table.bindings
  ordered := pairwise_insertByName table.ordered fun other hmem heq => by
    simpa [heq] using List.find?_eq_none.mp hfresh other hmem
  named := fun other hmem => by
    rcases mem_insertByName.mp hmem with rfl | hmem
    · exact hvalid
    · exact table.named other hmem

/-- Puts a binding into the table at hand; the name must be a label name and not be bound yet. -/
def define (binding : Binding) : ExceptT Cause (StateM SymbolTable) Unit := do
  let table ← get
  if hvalid : Token.isLabelName binding.name = true then
    match hfound : table.find? binding.name with
    | some first => throw (.duplicateLabel binding.name first.line)
    | none => set (table.insert binding hvalid hfound)
  else throw (.badLabelName binding.name)

/-- The table behind a binding that is put into it. -/
def bind (table : SymbolTable) (binding : Binding) : Except Cause SymbolTable :=
  let (result, next) := (define binding).run.run table
  result.map fun _ => next

/-- The names of the labels before an instruction, in increasing order. -/
def namesAt (table : SymbolTable) (index : Nat) : List String :=
  (table.bindings.filter (·.index == index)).map (·.name)

/-- Adds a number to a strictly increasing list unless it is there. -/
def insertIndex (index : Nat) : List Nat → List Nat
  | [] => [index]
  | other :: rest =>
    if index < other then index :: other :: rest
    else if index = other then other :: rest
    else other :: insertIndex index rest

/-- The numbers of the instructions that have labels, in increasing order. -/
def indices (table : SymbolTable) : List Nat :=
  table.bindings.foldr (fun binding => insertIndex binding.index) []

/-- The labels of each instruction that has any, in increasing order of instructions. -/
def groups (table : SymbolTable) : List (Nat × List String) :=
  table.indices.map fun index => (index, table.namesAt index)

/-- The address of a label on a target, which has to lie in memory; the owner is the mnemonic whose
operand the label is. -/
def address (table : SymbolTable) (target : Target) (owner name : String) : Except Cause Nat :=
  match table.find? name with
  | none => .error (.unresolvedLabel owner name)
  | some binding =>
    let address := target.labelAddress binding.index
    if address < target.memorySize.toUInt32 then .ok address.toNat
    else .error (.addressOutOfRange owner address.toNat .labelBeyondMemory)

end SymbolTable

end Chip8
