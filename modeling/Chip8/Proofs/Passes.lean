import Mathlib
import Chip8.Assembly
import Chip8.Proofs.Directives

/-!
# The two passes

`Step` and `Scan` say what the first pass does, one statement and one line at a time, together with
the code that each line adds. The second pass is described entry by entry. Properties of every
accepted source are proved by induction on `Scan`.
-/

namespace Chip8.Proofs

/-! ### The first pass -/

/-- A statement turns a draft into the next one and adds some code to it. -/
inductive Step (line : Nat) (draft : Draft) : Statement → List Instruction → Draft → Prop
  | blank : Step line draft .blank [] draft
  | label {name : String} {table : SymbolTable}
      (hbind : draft.table.bind ⟨name, draft.code.size, line⟩ = .ok table) :
      Step line draft (.label name) []
        { draft with table, begun := true, lastLabel := some ⟨name, draft.code.size, line⟩ }
  | stack {directive : Directive} {tokens : List String} {cursor : Nat} {code : List Instruction}
      (hcode : draft.stack.code directive tokens line (!draft.begun) = .ok (cursor, code)) :
      Step line draft (.stack directive tokens) code
        { draft with
          stack := { draft.stack with cursor := some cursor }
          code := draft.code ++ code
          begun := true }
  | instruction {instruction : Instruction} :
      Step line draft (.instruction instruction) [instruction]
        { draft with code := draft.code.push instruction, begun := true }

/-- The draft that the first pass makes of the lines of a source. -/
def scan (target : Target) (lines : List String) : Except Fault Draft :=
  (Draft.new target).addLines 1 lines

/-- The first pass accepts the lines: the code that each of them adds, and the draft behind them. -/
inductive Scan (target : Target) : List String → List (List Instruction) → Draft → Prop
  | nil : Scan target [] [] (Draft.new target)
  | concat {lines : List String} {blocks : List (List Instruction)} {draft next : Draft}
      {text : String} {statement : Statement} {block : List Instruction}
      (above : Scan target lines blocks draft)
      (hread : Statement.read (lines.length + 1) text = .ok statement)
      (hstep : Step (lines.length + 1) draft statement block next) :
      Scan target (lines ++ [text]) (blocks ++ [block]) next

section FirstPass

variable {target : Target} {draft next : Draft} {line : Nat} {statement : Statement}

/-- A label is bound to the next instruction, or refused as its binding is. -/
lemma add_label (draft : Draft) (line : Nat) (name : String) :
    draft.add line (.label name) =
      (draft.table.bind ⟨name, draft.code.size, line⟩).map fun table =>
        { draft with
          table
          begun := true
          lastLabel := some ⟨name, draft.code.size, line⟩ } := by
  simp only [Draft.add]
  cases draft.table.bind ⟨name, draft.code.size, line⟩ <;> rfl

/-- A directive moves the cursor and adds its code, or fails as its code does. -/
lemma add_stack (draft : Draft) (line : Nat) (directive : Directive) (tokens : List String) :
    draft.add line (.stack directive tokens) =
      (draft.stack.code directive tokens line (!draft.begun)).map fun (cursor, code) =>
        { draft with
          stack := { draft.stack with cursor := some cursor }
          code := draft.code ++ code
          begun := true } := by
  simp only [Draft.add, Stack.step_eq]
  cases draft.stack.code directive tokens line (!draft.begun) <;> rfl

theorem add_eq_ok_iff : draft.add line statement = .ok next ↔
    ∃ code, Step line draft statement code next := by
  constructor
  · intro h
    cases statement with
    | blank =>
      obtain rfl := Except.ok.inj h
      exact ⟨[], .blank⟩
    | label name =>
      rw [add_label, map_eq_ok_iff] at h
      obtain ⟨table, hbind, rfl⟩ := h
      exact ⟨[], .label hbind⟩
    | stack directive tokens =>
      rw [add_stack, map_eq_ok_iff] at h
      obtain ⟨result, hcode, rfl⟩ := h
      exact ⟨result.2, .stack hcode⟩
    | instruction instruction =>
      obtain rfl := Except.ok.inj h
      exact ⟨[instruction], .instruction⟩
  · rintro ⟨code, hstep⟩
    cases hstep with
    | blank => rfl
    | label hbind =>
      rw [add_label, hbind]
      rfl
    | stack hcode =>
      rw [add_stack, hcode]
      rfl
    | instruction => rfl

lemma addLine_eq_ok_iff {text : String} : draft.addLine line text = .ok next ↔
    ∃ statement code, Statement.read line text = .ok statement ∧
      Step line draft statement code next := by
  unfold Draft.addLine
  rw [atLine_eq_ok_iff, bind_eq_ok_iff]
  simp only [add_eq_ok_iff]
  grind

lemma addLines_append (draft : Draft) (line : Nat) (first second : List String) :
    draft.addLines line (first ++ second) =
      draft.addLines line first >>= fun next => next.addLines (line + first.length) second := by
  induction first generalizing draft line with
  | nil => rfl
  | cons text first ih =>
    simp only [List.cons_append, Draft.addLines, List.length_cons]
    cases draft.addLine line text with
    | error fault => rfl
    | ok next =>
      have hlength : line + (first.length + 1) = line + 1 + first.length := by omega
      simpa only [hlength] using ih next (line + 1)

lemma scan_nil : scan target [] = .ok (Draft.new target) := rfl

lemma scan_append (first second : List String) : scan target (first ++ second) =
    scan target first >>= fun draft => draft.addLines (first.length + 1) second := by
  unfold scan
  rw [addLines_append, Nat.add_comm]

lemma scan_concat (lines : List String) (text : String) : scan target (lines ++ [text]) =
    scan target lines >>= fun draft => draft.addLine (lines.length + 1) text := by
  rw [scan_append]
  congr 1
  funext draft
  simp only [Draft.addLines]
  split <;> simp_all

lemma scan_take_succ {lines : List String} {k : Nat} {text : String}
    (htext : lines[k]? = some text) : scan target (lines.take (k + 1)) =
      scan target (lines.take k) >>= fun draft => draft.addLine (k + 1) text := by
  have hlt : k < lines.length := (List.getElem?_eq_some_iff.mp htext).1
  have hk : (lines.take k).length = k := List.length_take_of_le (by omega)
  rw [List.take_add_one, htext, Option.toList_some, scan_concat, hk]

/-- A property of the empty draft that every accepted line keeps holds at each line. -/
theorem scan_take_induction {lines : List String} {P : Nat → Draft → Prop}
    (hnew : P 0 (Draft.new target))
    (hstep : ∀ k text above statement code next, lines[k]? = some text →
      scan target (lines.take k) = .ok above → Statement.read (k + 1) text = .ok statement →
      Step (k + 1) above statement code next → P k above → P (k + 1) next)
    {k : Nat} (hk : k ≤ lines.length) (h : scan target (lines.take k) = .ok draft) : P k draft := by
  induction k generalizing draft with
  | zero =>
    obtain rfl := Except.ok.inj h
    exact hnew
  | succ k ih =>
    have htext := List.getElem?_eq_getElem (Nat.lt_of_succ_le hk)
    rw [scan_take_succ htext, bind_eq_ok_iff] at h
    obtain ⟨above, habove, hline⟩ := h
    obtain ⟨statement, code, hread, hnext⟩ := addLine_eq_ok_iff.mp hline
    exact hstep k _ above statement code draft htext habove hread hnext (ih (by omega) habove)

theorem scan_eq_ok_iff {lines : List String} :
    scan target lines = .ok draft ↔ ∃ blocks, Scan target lines blocks draft := by
  constructor
  · intro h
    induction lines using List.reverseRecOn generalizing draft with
    | nil =>
      obtain rfl := Except.ok.inj h
      exact ⟨[], .nil⟩
    | append_singleton lines text ih =>
      rw [scan_concat, bind_eq_ok_iff] at h
      obtain ⟨above, habove, h⟩ := h
      obtain ⟨statement, block, hread, hstep⟩ := addLine_eq_ok_iff.mp h
      obtain ⟨blocks, hblocks⟩ := ih habove
      exact ⟨blocks ++ [block], .concat hblocks hread hstep⟩
  · rintro ⟨blocks, h⟩
    induction h with
    | nil => rfl
    | @concat lines blocks draft next text statement block above hread hstep ih =>
      rw [scan_concat, ih]
      exact addLine_eq_ok_iff.mpr ⟨statement, block, hread, hstep⟩

end FirstPass

/-! ### The second pass -/

section SecondPass

variable {base : UInt16} {target : Target} {table : SymbolTable} {code : List Instruction}

lemma entry_eq_ok_iff {index : Nat} {instruction : Instruction} {entry : Entry} :
    Program.entry base target table index instruction = .ok entry ↔
      ∃ word, instruction.word target table = .ok word ∧
        entry = ⟨base + UInt16.ofNat (2 * index), word, instruction, table.namesAt index⟩ := by
  unfold Program.entry
  rw [map_eq_ok_iff]
  simp only [eq_comm]

lemma zipIdx_append_cons {before after : List Instruction} {instruction : Instruction} :
    (before ++ instruction :: after).zipIdx =
      before.zipIdx ++ (instruction, before.length) :: after.zipIdx (before.length + 1) := by
  simp [List.zipIdx_append, List.zipIdx_cons]

theorem link_eq_ok_iff {program : Program} : Program.link base target table code = .ok program ↔
    program.entries.length = code.length ∧
      ∀ (index : Nat) (instruction : Instruction) (entry : Entry), code[index]? = some instruction →
        program.entries[index]? = some entry → ∃ word, instruction.word target table = .ok word ∧
          entry = ⟨base + UInt16.ofNat (2 * index), word, instruction, table.namesAt index⟩ := by
  have hentries : Program.link base target table code = .ok program ↔ List.Forall₂
      (fun located entry => Program.entry base target table located.2 located.1 = .ok entry)
      code.zipIdx program.entries := by
    unfold Program.link
    rw [map_eq_ok_iff]
    constructor
    · rintro ⟨entries, h, rfl⟩
      exact mapM_eq_ok_iff.mp h
    · intro h
      exact ⟨program.entries, mapM_eq_ok_iff.mpr h, rfl⟩
  rw [hentries, List.forall₂_iff_get]
  simp only [List.length_zipIdx, entry_eq_ok_iff, List.get_eq_getElem, List.getElem_zipIdx]
  constructor
  · rintro ⟨hlength, h⟩
    refine ⟨hlength.symm, ?_⟩
    intro index instruction entry hcode hentry
    obtain ⟨hi, rfl⟩ := List.getElem?_eq_some_iff.mp hcode
    obtain ⟨hj, rfl⟩ := List.getElem?_eq_some_iff.mp hentry
    simpa using h index hi hj
  · rintro ⟨hlength, h⟩
    refine ⟨hlength.symm, ?_⟩
    intro index hi hj
    simpa using h index _ _ (List.getElem?_eq_getElem hi) (List.getElem?_eq_getElem hj)

/-- The entry with a place is that of the instruction with the same place. -/
theorem getElem?_entries_iff {program : Program}
    (h : Program.link base target table code = .ok program) {i : Nat} {entry : Entry} :
    program.entries[i]? = some entry ↔ ∃ instruction word, code[i]? = some instruction ∧
      instruction.word target table = .ok word ∧
      entry = ⟨base + UInt16.ofNat (2 * i), word, instruction, table.namesAt i⟩ := by
  obtain ⟨hlength, hentries⟩ := link_eq_ok_iff.mp h
  constructor
  · intro hentry
    have hi : i < code.length := hlength ▸ (List.getElem?_eq_some_iff.mp hentry).1
    have hcode := List.getElem?_eq_getElem hi
    obtain ⟨word, hword, heq⟩ := hentries i _ entry hcode hentry
    exact ⟨code[i], word, hcode, hword, heq⟩
  · rintro ⟨instruction, word, hcode, hword, rfl⟩
    have hi : i < program.entries.length := hlength ▸ (List.getElem?_eq_some_iff.mp hcode).1
    have hentry := List.getElem?_eq_getElem hi
    obtain ⟨other, hother, heq⟩ := hentries i instruction _ hcode hentry
    obtain rfl := Except.ok.inj (hword.symm.trans hother)
    rw [hentry, heq]

theorem link_eq_error_iff {fault : Fault} : Program.link base target table code = .error fault ↔
    ∃ before instruction after, code = before ++ instruction :: after ∧
      (∀ earlier ∈ before, ∃ word, earlier.word target table = .ok word) ∧
      instruction.word target table = .error fault := by
  have hentry : ∀ index instruction,
      (Program.entry base target table index instruction = .error fault ↔
        instruction.word target table = .error fault) ∧
      ((∃ entry, Program.entry base target table index instruction = .ok entry) ↔
        ∃ word, instruction.word target table = .ok word) := by
    intro index instruction
    unfold Program.entry
    cases instruction.word target table <;> simp [Except.map]
  unfold Program.link
  rw [map_eq_error_iff, mapM_eq_error_iff]
  simp only [hentry]
  constructor
  · rintro ⟨before, located, after, hcode, hbefore, hlocated⟩
    refine ⟨before.map Prod.fst, located.1, after.map Prod.fst, ?_, ?_, hlocated⟩
    · have hfst := congrArg (List.map Prod.fst) hcode
      simpa using hfst
    · intro earlier hearlier
      obtain ⟨pair, hpair, rfl⟩ := List.mem_map.mp hearlier
      exact hbefore pair hpair
  · rintro ⟨before, instruction, after, rfl, hbefore, hinstruction⟩
    refine ⟨_, _, _, zipIdx_append_cons, ?_, hinstruction⟩
    intro located hlocated
    exact hbefore located.1 (List.fst_mem_of_mem_zipIdx hlocated)

lemma exists_word_error {fault : Fault} (h : Program.link base target table code = .error fault) :
    ∃ instruction ∈ code, instruction.word target table = .error fault := by
  obtain ⟨before, instruction, after, rfl, -, hword⟩ := link_eq_error_iff.mp h
  exact ⟨instruction, by simp, hword⟩

lemma link_instructions {program : Program}
    (h : Program.link base target table code = .ok program) :
    program.entries.map (·.instruction) = code := by
  obtain ⟨hlength, hentries⟩ := link_eq_ok_iff.mp h
  apply List.ext_getElem (by simpa using hlength)
  intro index hentry hcode
  obtain ⟨word, -, heq⟩ := hentries index _ _ (List.getElem?_eq_getElem hcode)
    (List.getElem?_eq_getElem (by simpa using hentry))
  rw [List.getElem_map, heq]

lemma size_of_link {program : Program} (h : Program.link base target table code = .ok program) :
    program.size = code.length :=
  (link_eq_ok_iff.mp h).1

lemma link_word {program : Program} (h : Program.link base target table code = .ok program) :
    ∀ entry ∈ program.entries, entry.instruction.word target table = .ok entry.word := by
  intro entry hmem
  obtain ⟨i, hentry⟩ := List.mem_iff_getElem?.mp hmem
  obtain ⟨instruction, word, -, hword, rfl⟩ := (getElem?_entries_iff h).mp hentry
  exact hword

lemma mapM_word_of_link {program : Program}
    (h : Program.link base target table code = .ok program) :
    code.mapM (Instruction.word target table) = .ok (program.entries.map (·.word)) := by
  rw [← link_instructions h, mapM_eq_ok_iff, List.forall₂_map_left_iff,
    List.forall₂_map_right_iff, List.forall₂_same]
  exact link_word h

lemma exists_link {words : List UInt16}
    (h : code.mapM (Instruction.word target table) = .ok words) : ∃ program,
      Program.link base target table code = .ok program ∧
      program.entries.map (·.word) = words := by
  cases hlink : Program.link base target table code with
  | error fault =>
    obtain ⟨before, instruction, after, hcode, hbefore, hword⟩ := link_eq_error_iff.mp hlink
    have herror : code.mapM (Instruction.word target table) = .error fault :=
      mapM_eq_error_iff.mpr ⟨before, instruction, after, hcode, hbefore, hword⟩
    rw [h] at herror
    simp at herror
  | ok program => exact ⟨program, rfl, Except.ok.inj ((mapM_word_of_link hlink).symm.trans h)⟩

lemma bytes_eq_flatMap_words (program : Program) :
    program.bytes = (program.entries.map (·.word)).flatMap fun word : UInt16 =>
      [(word >>> 8).toUInt8, word.toUInt8] := by
  rw [List.flatMap_map]
  rfl

/-- Two entries with the same place, of related instructions and with their words. -/
inductive Aligned (R : Instruction → Instruction → Prop) (base origin : UInt16)
    (target place : Target) (table names : SymbolTable) : Entry → Entry → Prop
  | intro (i : Nat) {first second : Instruction} {word other : UInt16} (hrelated : R first second)
      (hfirst : first.word target table = .ok word)
      (hsecond : second.word place names = .ok other) :
      Aligned R base origin target place table names
        ⟨base + UInt16.ofNat (2 * i), word, first, table.namesAt i⟩
        ⟨origin + UInt16.ofNat (2 * i), other, second, names.namesAt i⟩

/-- If the words of related instructions exist together, related code is linked together. -/
theorem exists_aligned_link {R : Instruction → Instruction → Prop} {place : Target}
    {names : SymbolTable} {related : List Instruction} {program : Program}
    (hcode : List.Forall₂ R code related)
    (hwords : ∀ first second word, R first second → first.word target table = .ok word →
      ∃ other, second.word place names = .ok other)
    (h : Program.link base target table code = .ok program) (origin : UInt16) : ∃ linked,
      Program.link origin place names related = .ok linked ∧
      List.Forall₂ (Aligned R base origin target place table names) program.entries
        linked.entries := by
  obtain ⟨hlength, hrelated⟩ := List.forall₂_iff_get.mp hcode
  -- At each place there is an entry of the program and an instruction related to that of the entry.
  have hplaces : ∀ (i : Nat) (second : Instruction), related[i]? = some second →
      ∃ first word, code[i]? = some first ∧ first.word target table = .ok word ∧
        R first second := by
    intro i second hsecond
    obtain ⟨hi, rfl⟩ := List.getElem?_eq_some_iff.mp hsecond
    have hfirst : i < code.length := hlength ▸ hi
    have hentry : i < program.entries.length := (link_eq_ok_iff.mp h).1 ▸ hfirst
    obtain ⟨first, word, hsame, hword, -⟩ :=
      (getElem?_entries_iff h).mp (List.getElem?_eq_getElem hentry)
    obtain ⟨_, rfl⟩ := List.getElem?_eq_some_iff.mp hsame
    exact ⟨_, word, hsame, hword, hrelated i hfirst hi⟩
  cases hlink : Program.link origin place names related with
  | error fault =>
    obtain ⟨second, hmem, hfault⟩ := exists_word_error hlink
    obtain ⟨i, hi⟩ := List.mem_iff_getElem?.mp hmem
    obtain ⟨first, word, -, hword, hfirst⟩ := hplaces i second hi
    obtain ⟨other, hother⟩ := hwords first second word hfirst hword
    simp [hfault] at hother
  | ok linked =>
    have hsize : program.size = linked.size := by
      rw [size_of_link h, size_of_link hlink, hlength]
    refine ⟨linked, rfl, List.forall₂_iff_get.mpr ⟨hsize, ?_⟩⟩
    intro i hfirst hsecond
    obtain ⟨first, word, hi, hword, heq⟩ :=
      (getElem?_entries_iff h).mp (List.getElem?_eq_getElem hfirst)
    obtain ⟨second, other, hj, hother, hsame⟩ :=
      (getElem?_entries_iff hlink).mp (List.getElem?_eq_getElem hsecond)
    obtain ⟨_, _, hfound, -, hpair⟩ := hplaces i second hj
    obtain rfl := Option.some.inj (hi.symm.trans hfound)
    rw [List.get_eq_getElem, List.get_eq_getElem, heq, hsame]
    exact .intro i hpair hword hother

end SecondPass

/-! ### Both passes -/

lemma fault?_eq_none_iff {target : Target} : target.fault? = none ↔
    target.memorySize.toNat ≤ 0x1000 ∧ target.loadBase.toNat < target.memorySize.toNat := by
  simp only [Target.fault?, maxMemorySize, UInt16.lt_iff_toNat_lt, UInt16.le_iff_toNat_le]
  grind

section Assemble

variable {target : Target} {lines : List String}

lemma assemble_of_accepted (h : target.fault? = none) :
    assemble target lines = scan target lines >>= (·.finish target) := by
  unfold assemble scan
  rw [h]
  cases (Draft.new target).addLines 1 lines <;> simp [bind, Except.bind]

lemma finish_eq_ok_iff {draft : Draft} {program : Program} :
    draft.finish target = .ok program ↔ draft.trailing? = none ∧
      Program.link target.loadBase target draft.table draft.code.toList = .ok program := by
  unfold Draft.finish
  cases draft.trailing? <;> simp

theorem assemble_eq_ok_iff {program : Program} : assemble target lines = .ok program ↔
    target.fault? = none ∧ ∃ draft, scan target lines = .ok draft ∧ draft.trailing? = none ∧
      Program.link target.loadBase target draft.table draft.code.toList = .ok program := by
  cases hfault : target.fault? with
  | some fault => simp [assemble, hfault]
  | none =>
    rw [assemble_of_accepted hfault, bind_eq_ok_iff]
    simp [finish_eq_ok_iff]

end Assemble

end Chip8.Proofs
