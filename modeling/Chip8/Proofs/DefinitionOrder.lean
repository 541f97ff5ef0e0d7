import Mathlib
import Chip8.Proofs.Addresses
import Chip8.Proofs.LabelHistory

/-!
# The order of definitions

Labels may be defined in any order, and a map of them may be traversed in any order: tables with the
same bindings give the same answers, and the labels of every instruction come out the same however
they are collected. Main statement: `define_order_independent`.
-/

namespace Chip8.Proofs

/-! ### Collecting names on a traversal -/

/-- The names at an index, in the order in which a traversal meets their bindings. -/
def namesMet (order : List Binding) (index : Nat) : List String :=
  (order.filter (·.index == index)).map (·.name)

/-- The names of each index, each put behind those that the traversal met before it. -/
def gather (order : List Binding) : Std.HashMap Nat (List String) :=
  order.foldl (fun groups binding =>
    groups.insert binding.index (groups.getD binding.index [] ++ [binding.name])) ∅

/-- The names in the order of their bytes. -/
def sortNames (names : List String) : List String :=
  names.mergeSort fun first second => decide (utf8 first ≤ utf8 second)

/-- The labels of each instruction that has any, collected on a traversal and then sorted. -/
def collect (order : List Binding) : Std.HashMap Nat (List String) :=
  (gather order).map fun _ names => sortNames names

/-- The entry of an instruction, with its labels looked up in a map. -/
def entryWith (groups : Std.HashMap Nat (List String)) (base : UInt16) (target : Target)
    (table : SymbolTable) (index : Nat) (instruction : Instruction) : Except Fault Entry :=
  (instruction.word target table).map fun word =>
    { address := base + UInt16.ofNat (2 * index)
      word
      instruction
      labels := groups.getD index [] }

/-- The program of a sequence of instructions, with the labels of each looked up in a map. -/
def linkWith (groups : Std.HashMap Nat (List String)) (base : UInt16) (target : Target)
    (table : SymbolTable) (code : List Instruction) : Except Fault Program :=
  (code.zipIdx.mapM fun (instruction, index) =>
    entryWith groups base target table index instruction).map fun entries => { entries }

section Traversal

variable {table : SymbolTable} {order : List Binding}

lemma namesMet_concat (order : List Binding) (binding : Binding) (index : Nat) :
    namesMet (order ++ [binding]) index =
      namesMet order index ++ if binding.index = index then [binding.name] else [] := by
  unfold namesMet
  rw [List.filter_append, List.map_append]
  by_cases h : binding.index = index
  · simp [h]
  · simp [h]

lemma gather_concat (order : List Binding) (binding : Binding) : gather (order ++ [binding]) =
    (gather order).insert binding.index
      ((gather order).getD binding.index [] ++ [binding.name]) :=
  List.foldl_concat _ _ binding order

/-- The traversal so far has put every name it met into the group of its index. -/
lemma getElem?_gather (order : List Binding) (index : Nat) : (gather order)[index]? =
    if namesMet order index = [] then none else some (namesMet order index) := by
  induction order using List.reverseRecOn with
  | nil => simp [gather, namesMet]
  | append_singleton order binding ih =>
    rw [gather_concat, Std.HashMap.getElem?_insert, namesMet_concat]
    by_cases h : binding.index = index
    · subst h
      have hbefore : (gather order).getD binding.index [] = namesMet order binding.index := by
        rw [Std.HashMap.getD_eq_getD_getElem?, ih]
        split
        · next hempty => rw [hempty, Option.getD_none]
        · rfl
      simp [hbefore]
    · simp [h, ih]

lemma eq_of_utf8_eq {first second : String} (h : utf8 first = utf8 second) : first = second :=
  String.toByteArray_inj.mp (ByteArray.ext (Array.toList_inj.mp h))

lemma pairwise_sortNames (names : List String) :
    (sortNames names).Pairwise fun first second => utf8 first ≤ utf8 second := by
  have htrans : ∀ a b c : String, decide (utf8 a ≤ utf8 b) = true →
      decide (utf8 b ≤ utf8 c) = true → decide (utf8 a ≤ utf8 c) = true := by
    simp only [decide_eq_true_eq]
    exact fun a b c hab hbc => List.le_trans hab hbc
  have htotal : ∀ a b : String, (decide (utf8 a ≤ utf8 b) || decide (utf8 b ≤ utf8 a)) = true := by
    simpa using fun a b : String => List.le_total (utf8 a) (utf8 b)
  simpa only [sortNames, decide_eq_true_eq] using List.pairwise_mergeSort htrans htotal names

/-- Once sorted, the names at an index no longer show the order of the traversal. -/
theorem sortNames_namesMet (h : order.Perm table.bindings) (index : Nat) :
    sortNames (namesMet order index) = table.namesAt index := by
  have hperm : (sortNames (namesMet order index)).Perm (table.namesAt index) :=
    (List.mergeSort_perm _ _).trans ((h.filter _).map _)
  have hordered : (table.namesAt index).Pairwise fun first second => utf8 first ≤ utf8 second :=
    (List.pairwise_map.mp (pairwise_utf8_namesAt table index)).imp List.le_of_lt
  refine hperm.eq_of_pairwise ?_ (pairwise_sortNames _) hordered
  intro first second _ _ hle hge
  exact eq_of_utf8_eq (List.le_antisymm hle hge)

lemma namesMet_eq_nil_iff (h : order.Perm table.bindings) (index : Nat) :
    namesMet order index = [] ↔ table.namesAt index = [] := by
  have hperm : (namesMet order index).Perm (table.namesAt index) := (h.filter _).map _
  constructor
  · intro hnil
    exact List.nil_perm.mp (hnil ▸ hperm)
  · intro hnil
    exact List.perm_nil.mp (hnil ▸ hperm)

lemma getElem?_collect (h : order.Perm table.bindings) (index : Nat) : (collect order)[index]? =
    if table.namesAt index = [] then none else some (table.namesAt index) := by
  unfold collect
  rw [Std.HashMap.getElem?_map, getElem?_gather, if_congr (namesMet_eq_nil_iff h index) rfl rfl]
  split
  · rfl
  · rw [Option.map_some, sortNames_namesMet h]

lemma getD_collect (h : order.Perm table.bindings) (index : Nat) :
    (collect order).getD index [] = table.namesAt index := by
  rw [Std.HashMap.getD_eq_getD_getElem?, getElem?_collect h]
  split
  · next hempty => rw [hempty, Option.getD_none]
  · rfl

/-- What a traversal in this order shows is what the table answers: a name is found at its binding,
each index has its labels, and a program made with these labels is the program of the table. -/
structure Traversed (table : SymbolTable) (order : List Binding) : Prop where
  find : ∀ name, order.find? (·.name == name) = table.find? name
  size : order.length = table.bindings.length
  groups : ∀ index names, (collect order)[index]? = some names ↔ (index, names) ∈ table.groups
  link : ∀ base target code,
    linkWith (collect order) base target table code = Program.link base target table code

/-- At most one binding has a name, so it does not matter which one a search meets first. -/
lemma find?_of_perm (h : order.Perm table.bindings) (name : String) :
    order.find? (·.name == name) = table.find? name := by
  cases hfound : order.find? (·.name == name) with
  | none =>
    rw [eq_comm, SymbolTable.find?_eq_none_iff]
    intro binding hbinding
    simpa using List.find?_eq_none.mp hfound binding (h.mem_iff.mpr hbinding)
  | some binding =>
    rw [eq_comm, SymbolTable.find?_eq_some_iff]
    exact ⟨h.mem_iff.mp (List.mem_of_find?_eq_some hfound), by simpa using List.find?_some hfound⟩

lemma linkWith_collect (h : order.Perm table.bindings) (base : UInt16) (target : Target)
    (code : List Instruction) :
    linkWith (collect order) base target table code = Program.link base target table code := by
  unfold linkWith Program.link entryWith Program.entry
  simp only [getD_collect h]

theorem traversed_of_perm (h : order.Perm table.bindings) : Traversed table order := by
  refine ⟨find?_of_perm h, h.length_eq, ?_, linkWith_collect h⟩
  intro index names
  rw [getElem?_collect h, mem_groups_iff]
  have hnonempty : table.namesAt index ≠ [] ↔
      ∃ binding ∈ table.bindings, binding.index = index := by
    constructor
    · intro hnonempty
      obtain ⟨name, hname⟩ := List.exists_mem_of_ne_nil _ hnonempty
      obtain ⟨binding, hmem, -, hindex⟩ := SymbolTable.mem_namesAt.mp hname
      exact ⟨binding, hmem, hindex⟩
    · rintro ⟨binding, hmem, hindex⟩
      exact List.ne_nil_of_mem (SymbolTable.mem_namesAt.mpr ⟨binding, hmem, rfl, hindex⟩)
  rw [← hnonempty]
  by_cases hempty : table.namesAt index = []
  · simp [hempty]
  · simp [hempty, eq_comm]

end Traversal

/-! ### Defining in another order -/

section Definitions

variable {first second : SymbolTable}

/-- A table keeps its bindings by name, whatever the order they were made in. -/
theorem eq_of_bindings_perm (h : first.bindings.Perm second.bindings) : first = second := by
  apply SymbolTable.ext
  refine h.eq_of_pairwise ?_ first.ordered second.ordered
  intro a b _ _ hlt hgt
  exact absurd (String.lt_trans hlt hgt) (String.lt_irrefl _)

lemma record_of_accepted {state : SymbolTable × List Binding} {binding : Binding}
    (h : (define state.1 binding).2 = .ok ()) :
    (record state binding).2 = state.2 ++ [binding] := by
  unfold record
  generalize define state.1 binding = outcome at h
  obtain ⟨next, result⟩ := outcome
  subst h
  rfl

/-- Which definitions succeed together does not depend on their order. -/
theorem all_accepted_iff (tried : List Binding) : (history {} tried).2 = tried ↔
    (∀ binding ∈ tried, Token.isLabelName binding.name = true) ∧ (tried.map (·.name)).Nodup := by
  constructor
  · intro haccepted
    have hperm := history_perm tried
    rw [haccepted] at hperm
    refine ⟨?_, (records_of_perm hperm).names⟩
    intro binding hbinding
    exact (history {} tried).1.named binding (hperm.mem_iff.mpr hbinding)
  · rintro ⟨hvalid, hnames⟩
    induction tried using List.reverseRecOn with
    | nil => rfl
    | append_singleton tried binding ih =>
      rw [List.map_append, List.nodup_append] at hnames
      obtain ⟨hnames, -, hfresh⟩ := hnames
      have haccepted := ih (fun earlier hmem => hvalid earlier (by simp [hmem])) hnames
      have hdefine : (define (history {} tried).1 binding).2 = .ok () := by
        apply (defineEffect_of_perm (history_perm tried) binding).accepted_iff.mpr
        refine ⟨hvalid binding (by simp), ?_⟩
        intro earlier hmem
        rw [haccepted] at hmem
        exact hfresh _ (List.mem_map_of_mem hmem) _ (by simp)
      rw [history_concat, record_of_accepted hdefine, haccepted]

/-- The tables cannot be told apart, by what they answer, by what they make of a further binding, or
by the programs that are made with them. -/
structure SameAnswers (first second : SymbolTable) : Prop where
  get : ∀ name, indexOf? first name = indexOf? second name
  resolve : ∀ target owner name,
    first.address target owner name = second.address target owner name
  groups : first.groups = second.groups
  size : first.bindings.length = second.bindings.length
  define : ∀ binding, (define first binding).2 = (define second binding).2
  link : ∀ base target code,
    Program.link base target first code = Program.link base target second code

lemma SameAnswers.refl (table : SymbolTable) : SameAnswers table table :=
  ⟨fun _ => rfl, fun _ _ _ => rfl, rfl, rfl, fun _ => rfl, fun _ _ _ => rfl⟩

/-- The entries stand two bytes apart, and each has the names that are bound to its place, in the
order of their bytes. A name bound to a place behind the last entry has none. -/
structure Labelled (base : UInt16) (bindings : List Binding) (program : Program) : Prop where
  address : ∀ (i : Nat) (entry : Entry), program.entries[i]? = some entry →
    entry.address.toNat = (base.toNat + 2 * i) % 2 ^ 16
  labels : ∀ (i : Nat) (entry : Entry), program.entries[i]? = some entry → ∀ name,
    name ∈ entry.labels ↔ ∃ binding ∈ bindings, binding.name = name ∧ binding.index = i
  ordered : ∀ entry ∈ program.entries, (entry.labels.map utf8).Pairwise (· < ·)
  behind : ∀ binding ∈ bindings, program.size ≤ binding.index →
    ∀ entry ∈ program.entries, binding.name ∉ entry.labels

lemma labelled_of_link {base : UInt16} {target : Target} {table : SymbolTable}
    {code : List Instruction} {program : Program} {bindings : List Binding}
    (hperm : table.bindings.Perm bindings)
    (h : Program.link base target table code = .ok program) : Labelled base bindings program := by
  have hlabels : ∀ (i : Nat) (entry : Entry), program.entries[i]? = some entry →
      entry.labels = table.namesAt i := by
    intro i entry hentry
    obtain ⟨_, _, -, -, rfl⟩ := (getElem?_entries_iff h).mp hentry
    rfl
  refine ⟨fun i entry => link_address h, ?_, ?_, ?_⟩
  · intro i entry hentry name
    rw [hlabels i entry hentry, SymbolTable.mem_namesAt]
    simp only [hperm.mem_iff]
  · intro entry hentry
    obtain ⟨i, hi⟩ := List.mem_iff_getElem?.mp hentry
    rw [hlabels i entry hi]
    exact pairwise_utf8_namesAt table i
  · intro binding hbinding hbehind entry hentry hname
    obtain ⟨i, hi⟩ := List.mem_iff_getElem?.mp hentry
    have hplace := (link_labelled_iff h (hperm.mem_iff.mpr hbinding) hi).mp hname
    have hlt : i < program.size := (List.getElem?_eq_some_iff.mp hi).1
    omega

end Definitions

/-- Definitions that all succeed do so in every other order, and nothing tells the tables apart: not
their answers, not a traversal in any order, not the programs that are made with them. -/
theorem define_order_independent {first second : List Binding} (hperm : first.Perm second)
    (haccepted : (history {} first).2 = first) :
    (history {} second).2 = second ∧
    SameAnswers (history {} first).1 (history {} second).1 ∧
    (∀ order : List Binding, order.Perm first → Traversed (history {} second).1 order) ∧
    ∀ base target code program,
      Program.link base target (history {} second).1 code = .ok program →
        Labelled base first program := by
  have hsecond : (history {} second).2 = second := by
    obtain ⟨hvalid, hnames⟩ := (all_accepted_iff first).mp haccepted
    apply (all_accepted_iff second).mpr
    exact ⟨fun binding hmem => hvalid binding (hperm.mem_iff.mpr hmem),
      (hperm.map _).nodup_iff.mp hnames⟩
  have hbindings : (history {} second).1.bindings.Perm first := by
    have htable := history_perm second
    rw [hsecond] at htable
    exact htable.trans hperm.symm
  have htables : (history {} first).1 = (history {} second).1 := by
    have htable := history_perm first
    rw [haccepted] at htable
    exact eq_of_bindings_perm (htable.trans hbindings.symm)
  refine ⟨hsecond, ?_, ?_, ?_⟩
  · rw [htables]
    exact SameAnswers.refl _
  · intro order horder
    exact traversed_of_perm (horder.trans hbindings.symm)
  · intro base target code program hlink
    exact labelled_of_link hbindings hlink

/-- Two labels before one instruction and one behind the end, defined in two orders and traversed in
a third. -/
theorem define_order_independent_shared : ∃ first second : List Binding,
    first = [⟨"twice", 1, 2⟩, ⟨"also", 1, 3⟩, ⟨"end", 7, 4⟩] ∧
    second = [⟨"end", 7, 4⟩, ⟨"twice", 1, 2⟩, ⟨"also", 1, 3⟩] ∧
    first.Perm second ∧ (history {} first).2 = first ∧ (history {} second).2 = second ∧
    SameAnswers (history {} first).1 (history {} second).1 ∧
    Traversed (history {} second).1 [⟨"also", 1, 3⟩, ⟨"end", 7, 4⟩, ⟨"twice", 1, 2⟩] ∧
    ∃ program, Program.link 0xFFFE {} (history {} second).1
        [⟨.cls, [], 1⟩, ⟨.jp, [.label "also"], 5⟩] = .ok program ∧
      Labelled 0xFFFE first program ∧
      program.entries.map (fun entry => (entry.address, entry.labels)) =
        [(0xFFFE, []), (0x0000, ["also", "twice"])] := by
  refine ⟨_, _, rfl, rfl, ?_⟩
  have hperm : List.Perm [⟨"twice", 1, 2⟩, ⟨"also", 1, 3⟩, ⟨"end", 7, 4⟩]
      ([⟨"end", 7, 4⟩, ⟨"twice", 1, 2⟩, ⟨"also", 1, 3⟩] : List Binding) := by
    decide
  have haccepted : (history {} [⟨"twice", 1, 2⟩, ⟨"also", 1, 3⟩, ⟨"end", 7, 4⟩]).2 =
      [⟨"twice", 1, 2⟩, ⟨"also", 1, 3⟩, ⟨"end", 7, 4⟩] := by
    decide +kernel
  obtain ⟨hsecond, hsame, htraversed, hlabelled⟩ := define_order_independent hperm haccepted
  have hprogram : (Program.link 0xFFFE {}
      (history {} [⟨"end", 7, 4⟩, ⟨"twice", 1, 2⟩, ⟨"also", 1, 3⟩]).1
      [⟨.cls, [], 1⟩, ⟨.jp, [.label "also"], 5⟩]).map
        (fun program => program.entries.map fun entry => (entry.address, entry.labels)) =
      .ok [(0xFFFE, []), (0x0000, ["also", "twice"])] := by
    decide +kernel
  obtain ⟨program, hlink, hentries⟩ := map_eq_ok_iff.mp hprogram
  refine ⟨hperm, haccepted, hsecond, hsame, htraversed _ (by decide), program, hlink, ?_, hentries⟩
  exact hlabelled _ _ _ program hlink

end Chip8.Proofs
