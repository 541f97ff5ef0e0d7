import Mathlib
import Chip8.Proofs.Tables

/-!
# Histories of a symbol table

Bindings made one after another in a fresh table, some of which may be refused. The first binding of
a name wins, a refused one leaves no trace, and the accepted ones are all that the table knows. Main
statement: `define_history`.
-/

namespace Chip8.Proofs

/-- The table behind a definition, and why it is refused. -/
def define (table : SymbolTable) (binding : Binding) : SymbolTable × Except Fault Unit :=
  let (result, next) := (SymbolTable.define binding).run.run table
  (next, atLine binding.line result)

/-- A table, and the bindings accepted in it so far, with one more binding tried. -/
def record (state : SymbolTable × List Binding) (binding : Binding) :
    SymbolTable × List Binding :=
  match define state.1 binding with
  | (next, .ok ()) => (next, state.2 ++ [binding])
  | (next, .error _) => (next, state.2)

/-- The table behind the bindings tried in it one after another, and the accepted ones in order. -/
def history (table : SymbolTable) (tried : List Binding) : SymbolTable × List Binding :=
  tried.foldl record (table, [])

/-! ### One binding -/

/-- A binding is accepted if its name is a label name that no earlier accepted one has. Otherwise it
is refused, for its name in the first place, and the table stays. -/
structure DefineEffect (table : SymbolTable) (accepted : List Binding) (binding : Binding) :
    Prop where
  accepted_iff : (define table binding).2 = .ok () ↔ Token.isLabelName binding.name = true ∧
    ∀ earlier ∈ accepted, earlier.name ≠ binding.name
  refused_iff : ∀ fault, (define table binding).2 = .error fault ↔
    Token.isLabelName binding.name = false ∧
        fault = .source binding.line (.badLabelName binding.name) ∨
      Token.isLabelName binding.name = true ∧ ∃ first ∈ accepted, first.name = binding.name ∧
        fault = .source binding.line (.duplicateLabel binding.name first.line)
  unchanged : ∀ fault, (define table binding).2 = .error fault → (define table binding).1 = table

section Define

variable {table : SymbolTable} {binding : Binding}

lemma define_of_ok {next : SymbolTable} (h : table.bind binding = .ok next) :
    define table binding = (next, .ok ()) := by
  rw [define, SymbolTable.define_run_of_ok h]
  rfl

lemma define_of_error {cause : Cause} (h : table.bind binding = .error cause) :
    define table binding = (table, .error (.source binding.line cause)) := by
  rw [define, SymbolTable.define_run_of_error h]
  rfl

lemma define_snd (table : SymbolTable) (binding : Binding) :
    (define table binding).2 = atLine binding.line ((table.bind binding).map fun _ => ()) := by
  cases hbind : table.bind binding with
  | ok next =>
    rw [define_of_ok hbind]
    rfl
  | error cause =>
    rw [define_of_error hbind]
    rfl

lemma exists_bind_iff : (∃ next, table.bind binding = .ok next) ↔
    Token.isLabelName binding.name = true ∧ table.find? binding.name = none := by
  constructor
  · rintro ⟨next, hbind⟩
    obtain ⟨hvalid, hfresh, -⟩ := SymbolTable.bind_eq_ok_iff.mp hbind
    exact ⟨hvalid, hfresh⟩
  · rintro ⟨hvalid, hfresh⟩
    exact exists_bind binding hvalid (indexOf?_eq_none_iff.mpr hfresh)

lemma defineEffect_of_perm {accepted : List Binding} (h : table.bindings.Perm accepted)
    (binding : Binding) : DefineEffect table accepted binding := by
  refine ⟨?_, ?_, ?_⟩
  · simp only [define_snd, atLine_eq_ok_iff, map_eq_ok_iff, and_true, exists_bind_iff,
      SymbolTable.find?_eq_none_iff, h.mem_iff]
  · intro fault
    simp only [define_snd, atLine_eq_error_iff, map_eq_error_iff, SymbolTable.bind_eq_error_iff,
      SymbolTable.find?_eq_some_iff, h.mem_iff]
    constructor
    · rintro ⟨cause, ⟨hinvalid, rfl⟩ | ⟨hvalid, first, ⟨hfirst, hname⟩, rfl⟩, rfl⟩
      · exact Or.inl ⟨hinvalid, rfl⟩
      · exact Or.inr ⟨hvalid, first, hfirst, hname, rfl⟩
    · rintro (⟨hinvalid, rfl⟩ | ⟨hvalid, first, hfirst, hname, rfl⟩)
      · exact ⟨_, Or.inl ⟨hinvalid, rfl⟩, rfl⟩
      · exact ⟨_, Or.inr ⟨hvalid, first, ⟨hfirst, hname⟩, rfl⟩, rfl⟩
  · intro fault h
    cases hbind : table.bind binding with
    | ok next => simp [define_of_ok hbind] at h
    | error cause => rw [define_of_error hbind]

end Define

/-! ### Many bindings -/

lemma record_perm {state : SymbolTable × List Binding} (h : state.1.bindings.Perm state.2)
    (binding : Binding) :
    (record state binding).1.bindings.Perm (record state binding).2 := by
  unfold record
  cases hbind : state.1.bind binding with
  | error cause =>
    rw [define_of_error hbind]
    exact h
  | ok next =>
    obtain ⟨-, -, hnext⟩ := SymbolTable.bind_eq_ok_iff.mp hbind
    rw [define_of_ok hbind, hnext]
    refine (insertByName_perm binding state.1.bindings).trans ?_
    exact (h.cons binding).trans (List.perm_append_singleton binding state.2).symm

lemma history_concat (table : SymbolTable) (tried : List Binding) (binding : Binding) :
    history table (tried ++ [binding]) = record (history table tried) binding :=
  List.foldl_concat record _ binding tried

/-- The table behind a history of a fresh one holds the accepted bindings and no others. -/
theorem history_perm (tried : List Binding) :
    (history {} tried).1.bindings.Perm (history {} tried).2 := by
  induction tried using List.reverseRecOn with
  | nil => exact .nil
  | append_singleton tried binding ih =>
    rw [history_concat]
    exact record_perm ih binding

/-- What the table answers: the accepted bindings have different names, each name is found at its
index, and the groups hold each name once, at its index and in the order of the bytes. -/
structure Records (table : SymbolTable) (accepted : List Binding) : Prop where
  names : (accepted.map (·.name)).Nodup
  get : ∀ name index, indexOf? table name = some index ↔
    ∃ binding ∈ accepted, binding.name = name ∧ binding.index = index
  size : table.bindings.length = accepted.length
  empty : table.bindings = [] ↔ accepted = []
  indices : (table.groups.map Prod.fst).Nodup
  nonempty : ∀ group ∈ table.groups, group.2 ≠ []
  ordered : ∀ group ∈ table.groups, (group.2.map utf8).Pairwise (· < ·)
  once : ∀ binding ∈ accepted, (table.groups.flatMap Prod.snd).count binding.name = 1
  under : ∀ index name, (∃ names, (index, names) ∈ table.groups ∧ name ∈ names) ↔
    ∃ binding ∈ accepted, binding.name = name ∧ binding.index = index

section Groups

variable {table : SymbolTable}

lemma mem_groups_iff {index : Nat} {names : List String} : (index, names) ∈ table.groups ↔
    names = table.namesAt index ∧ ∃ binding ∈ table.bindings, binding.index = index := by
  unfold SymbolTable.groups
  simp only [List.mem_map, Prod.mk.injEq, SymbolTable.mem_indices]
  constructor
  · rintro ⟨_, hbinding, rfl, rfl⟩
    exact ⟨rfl, hbinding⟩
  · rintro ⟨rfl, hbinding⟩
    exact ⟨index, hbinding, rfl, rfl⟩

lemma groups_indices (table : SymbolTable) : table.groups.map Prod.fst = table.indices := by
  simp [SymbolTable.groups, Function.comp_def]

lemma groups_names (table : SymbolTable) :
    table.groups.flatMap Prod.snd = table.indices.flatMap table.namesAt := by
  simp [SymbolTable.groups, List.flatMap_map]

lemma nodup_indices (table : SymbolTable) : table.indices.Nodup :=
  table.pairwise_indices.imp fun hlt => ne_of_lt hlt

lemma mem_group_iff {index : Nat} {name : String} :
    (∃ names, (index, names) ∈ table.groups ∧ name ∈ names) ↔
      ∃ binding ∈ table.bindings, binding.name = name ∧ binding.index = index := by
  simp only [mem_groups_iff, and_assoc, exists_eq_left, SymbolTable.mem_namesAt]
  constructor
  · exact fun h => h.2
  · rintro ⟨binding, hmem, hname, hindex⟩
    exact ⟨⟨binding, hmem, hindex⟩, binding, hmem, hname, hindex⟩

theorem records_of_perm {accepted : List Binding} (h : table.bindings.Perm accepted) :
    Records table accepted := by
  refine ⟨?_, ?_, h.length_eq, ?_, ?_, ?_, ?_, ?_, ?_⟩
  · refine (h.map (·.name)).nodup_iff.mp ?_
    rw [List.Nodup, List.pairwise_map]
    exact table.ordered.imp fun hlt => ne_of_lt hlt
  · intro name index
    simp only [indexOf?_eq_some_iff, h.mem_iff]
  · constructor
    · intro hnil
      exact List.nil_perm.mp (hnil ▸ h)
    · intro hnil
      exact List.perm_nil.mp (hnil ▸ h)
  · rw [groups_indices]
    exact nodup_indices table
  · rintro ⟨index, names⟩ hgroup hnil
    obtain ⟨rfl, binding, hmem, hindex⟩ := mem_groups_iff.mp hgroup
    have hname : binding.name ∈ table.namesAt index :=
      SymbolTable.mem_namesAt.mpr ⟨binding, hmem, rfl, hindex⟩
    exact List.ne_nil_of_mem hname hnil
  · rintro ⟨index, names⟩ hgroup
    obtain ⟨rfl, -⟩ := mem_groups_iff.mp hgroup
    exact pairwise_utf8_namesAt table index
  · intro binding hbinding
    rw [groups_names]
    apply List.count_eq_one_of_mem (nodup_flatMap_namesAt table (nodup_indices table))
    have hmem := h.mem_iff.mpr hbinding
    exact List.mem_flatMap.mpr ⟨binding.index, SymbolTable.mem_indices.mpr ⟨binding, hmem, rfl⟩,
      SymbolTable.mem_namesAt.mpr ⟨binding, hmem, rfl, rfl⟩⟩
  · intro index name
    simp only [mem_group_iff, h.mem_iff]

end Groups

/-- Whatever bindings are tried in a fresh table, the table behind them answers by the accepted ones
alone, and they decide what becomes of every further binding. -/
theorem define_history (tried : List Binding) :
    Records (history {} tried).1 (history {} tried).2 ∧
    ∀ binding, DefineEffect (history {} tried).1 (history {} tried).2 binding :=
  have hperm := history_perm tried
  ⟨records_of_perm hperm, defineEffect_of_perm hperm⟩

/-- Two spellings of a name, and a second binding and a register among them. -/
example : (history {} [⟨"b", 1, 1⟩, ⟨"V3", 0, 2⟩, ⟨"b", 5, 3⟩, ⟨"B", 1, 4⟩]).1.groups =
    [(1, ["B", "b"])] := by
  decide +kernel

end Chip8.Proofs
