import Mathlib
import Chip8.Proofs.LabelPlacement

/-!
# Addresses of entries

Entries lie two bytes apart from the load base upwards, in sixteen bits. With byte addressing, a
label in a word is the address of the entry that the label stands before
(`assemble_label_address`). The memory bounds the labels that words refer to, and not the program
itself; `assemble_extent` says which programs lie in memory.
-/

namespace Chip8.Proofs

lemma toNat_address (base : UInt16) (i : Nat) :
    (base + UInt16.ofNat (2 * i)).toNat = (base.toNat + 2 * i) % 2 ^ 16 := by
  simp only [UInt16.toNat_add, UInt16.toNat_ofNat']
  omega

section Link

variable {base : UInt16} {target : Target} {table : SymbolTable} {code : List Instruction}
  {program : Program}

lemma link_address (h : Program.link base target table code = .ok program) {i : Nat}
    {entry : Entry} (hentry : program.entries[i]? = some entry) :
    entry.address.toNat = (base.toNat + 2 * i) % 2 ^ 16 := by
  obtain ⟨instruction, word, -, -, rfl⟩ := (getElem?_entries_iff h).mp hentry
  exact toNat_address base i

lemma link_addresses (h : Program.link base target table code = .ok program) :
    program.entries.map (·.address) =
      (List.range program.size).map fun i => base + UInt16.ofNat (2 * i) := by
  apply List.ext_getElem
  · simp [Program.size]
  · intro i hi _
    rw [List.length_map] at hi
    obtain ⟨_, _, -, -, heq⟩ := (getElem?_entries_iff h).mp (List.getElem?_eq_getElem hi)
    rw [List.getElem_map, heq, List.getElem_map, List.getElem_range]

/-- The entry after `2 ^ 15` others is the first one with the address of an earlier entry. -/
theorem nodup_addresses_iff (h : Program.link base target table code = .ok program) :
    (program.entries.map (·.address)).Nodup ↔ program.size ≤ 2 ^ 15 := by
  rw [link_addresses h, List.nodup_map_iff_inj_on List.nodup_range]
  constructor
  · intro hinj
    by_contra hlarge
    have hsame : base + UInt16.ofNat (2 * 0) = base + UInt16.ofNat (2 * 2 ^ 15) := by
      apply UInt16.toNat_inj.mp
      rw [toNat_address, toNat_address]
      omega
    have hzero := hinj 0 (List.mem_range.mpr (by omega)) (2 ^ 15) (List.mem_range.mpr (by omega))
      hsame
    omega
  · intro hsize i hi j hj hsame
    have hi := List.mem_range.mp hi
    have hj := List.mem_range.mp hj
    have hnumber := congrArg UInt16.toNat hsame
    rw [toNat_address, toNat_address] at hnumber
    omega

/-- A name stands before the entry at its index and before no other. -/
lemma link_labelled_iff (h : Program.link base target table code = .ok program) {binding : Binding}
    (hmem : binding ∈ table.bindings) {i : Nat} {entry : Entry}
    (hentry : program.entries[i]? = some entry) :
    binding.name ∈ entry.labels ↔ i = binding.index := by
  obtain ⟨instruction, word, -, -, rfl⟩ := (getElem?_entries_iff h).mp hentry
  have hindex : indexOf? table binding.name = some binding.index :=
    indexOf?_eq_some_iff.mpr ⟨binding, hmem, rfl, rfl⟩
  rw [mem_namesAt_iff, hindex, Option.some.injEq, eq_comm]

end Link

section Program

variable {target : Target} {lines : List String} {program : Program}

theorem assemble_label_address (hbyte : target.addressing = .byte)
    (h : assemble target lines = .ok program) {entry : Entry} (hentry : entry ∈ program.entries)
    {name : String} (hname : .label name ∈ entry.instruction.operands) :
    ∃ (i : Nat) (labelled : Entry),
      (∀ (j : Nat) (other : Entry), program.entries[j]? = some other ∧ name ∈ other.labels ↔
        j = i ∧ other = labelled) ∧
      entry.word.toNat % 0x1000 = labelled.address.toNat := by
  obtain ⟨-, draft, hscan, htrailing, hlink⟩ := assemble_eq_ok_iff.mp h
  obtain ⟨blocks, hblocks⟩ := scan_eq_ok_iff.mp hscan
  obtain ⟨binding, hmem, rfl, hfield, hlt⟩ :=
    exists_binding_of_label (link_word hlink entry hentry) hname
  have hindex : binding.index < program.entries.length := by
    have hbefore := hblocks.trailing?_eq_none_iff.mp htrailing binding hmem
    have hsize := size_of_link hlink
    rw [Program.size, Array.length_toList] at hsize
    omega
  have hlabelled := List.getElem?_eq_getElem hindex
  refine ⟨binding.index, program.entries[binding.index], ?_, ?_⟩
  · intro j other
    constructor
    · rintro ⟨hother, hlabel⟩
      obtain rfl := (link_labelled_iff hlink hmem hother).mp hlabel
      exact ⟨rfl, Option.some.inj (hother.symm.trans hlabelled)⟩
    · rintro ⟨rfl, rfl⟩
      exact ⟨hlabelled, (link_labelled_iff hlink hmem hlabelled).mpr rfl⟩
  · -- The field is cut at 32 bits and the address at 16, and neither cut is seen in memory.
    have hmemory := target.memorySize.toNat_lt
    have hoffset : target.offset binding.index = 2 * binding.index := by
      rw [Target.offset, hbyte]
    have hcut : UInt32.size = 2 ^ 32 := rfl
    rw [toNat_labelAddress, hoffset, hcut] at hfield
    rw [link_address hlink hlabelled]
    omega

end Program

/-- A jump ahead over the three instructions of a `PUSH`, and a call back to the jump. -/
theorem assemble_label_address_jump : ∃ program entry i labelled,
    assemble { addressing := .byte }
      ["STACK_INIT", "LABEL again", "JP end", "PUSH V1", "LABEL end", "CALL again"] = .ok program ∧
    program.entries[1]? = some entry ∧ .label "end" ∈ entry.instruction.operands ∧
    entry.word = 0x120A ∧
    (∀ (j : Nat) (other : Entry), program.entries[j]? = some other ∧ "end" ∈ other.labels ↔
      j = i ∧ other = labelled) ∧
    entry.word.toNat % 0x1000 = labelled.address.toNat := by
  have hentry : (assemble { addressing := .byte }
      ["STACK_INIT", "LABEL again", "JP end", "PUSH V1", "LABEL end", "CALL again"]).map
        (fun program => program.entries[1]?.map fun entry => (entry.instruction, entry.word)) =
      .ok (some (⟨.jp, [.label "end"], 3⟩, 0x120A)) := by
    decide +kernel
  obtain ⟨program, hprogram, hsecond⟩ := map_eq_ok_iff.mp hentry
  obtain ⟨entry, hentry, heq⟩ := Option.map_eq_some_iff.mp hsecond
  obtain ⟨hinstruction, hword⟩ := Prod.mk.inj heq
  have hname : .label "end" ∈ entry.instruction.operands := by simp [hinstruction]
  obtain ⟨i, labelled, hunique, haddress⟩ :=
    assemble_label_address rfl hprogram (List.mem_of_getElem? hentry) hname
  exact ⟨program, entry, i, labelled, hprogram, hentry, hname, hword, hunique, haddress⟩

/-! ### Programs in memory -/

/-- The bytes of a program lie in memory from the load base upwards, and the addresses of its
entries say where. -/
structure FitsMemory (target : Target) (program : Program) : Prop where
  address : ∀ (i : Nat) (entry : Entry), program.entries[i]? = some entry →
    entry.address.toNat = target.loadBase.toNat + 2 * i
  inside : ∀ i < program.size, target.loadBase.toNat + 2 * i + 1 < target.memorySize.toNat
  distinct : (program.entries.map (·.address)).Nodup
  bytes : program.bytes.length ≤ target.memorySize.toNat - target.loadBase.toNat

/-! ### No limit on the length -/

lemma scan_replicate (target : Target) (n : Nat) : ∃ draft,
    scan target (List.replicate n "CLS") = .ok draft ∧ draft.lastLabel = none ∧
    draft.code.size = n ∧
    ∀ instruction ∈ draft.code.toList, ∃ line, instruction = ⟨.cls, [], line⟩ := by
  induction n with
  | zero => exact ⟨Draft.new target, rfl, rfl, rfl, by simp [Draft.new]⟩
  | succ n ih =>
    obtain ⟨draft, hscan, hlabel, hsize, hcode⟩ := ih
    have hread : Statement.read (n + 1) "CLS" = .ok (.instruction ⟨.cls, [], n + 1⟩) := by rfl
    let next : Draft := { draft with code := draft.code.push ⟨.cls, [], n + 1⟩, begun := true }
    have hline : draft.addLine (n + 1) "CLS" = .ok next :=
      addLine_eq_ok_iff.mpr ⟨_, _, hread, .instruction⟩
    refine ⟨next, ?_, hlabel, ?_, ?_⟩
    · rw [List.replicate_succ', scan_concat, hscan, List.length_replicate]
      exact hline
    · rw [Array.size_push, hsize]
    · intro instruction hmem
      rw [Array.toList_push, List.mem_append, List.mem_singleton] at hmem
      rcases hmem with hmem | rfl
      · exact hcode instruction hmem
      · exact ⟨n + 1, rfl⟩

/-- No program is refused for its length. -/
theorem exists_program_of_size {target : Target} (htarget : target.fault? = none) (n : Nat) :
    ∃ program, assemble target (List.replicate n "CLS") = .ok program ∧ program.size = n := by
  obtain ⟨draft, hscan, hlabel, hsize, hcode⟩ := scan_replicate target n
  have htrailing : draft.trailing? = none := by
    rw [Draft.trailing?, hlabel]
    rfl
  cases hlink : Program.link target.loadBase target draft.table draft.code.toList with
  | error fault =>
    obtain ⟨instruction, hmem, hfault⟩ := exists_word_error hlink
    obtain ⟨line, rfl⟩ := hcode instruction hmem
    have hword : Instruction.word target draft.table ⟨.cls, [], line⟩ = .ok 0x00E0 := rfl
    simp [hword] at hfault
  | ok program =>
    refine ⟨program, assemble_eq_ok_iff.mpr ⟨htarget, draft, hscan, htrailing, hlink⟩, ?_⟩
    rw [size_of_link hlink, Array.length_toList, hsize]

/-- One byte of memory above the load base does not hold a word; and above the default load base,
the last of `0x7F01` words has the address zero. -/
theorem assemble_beyond_memory :
    (∃ program, assemble { memorySize := 0x201 } ["CLS"] = .ok program ∧
      ¬FitsMemory { memorySize := 0x201 } program) ∧
    ∃ program entry, assemble {} (List.replicate 0x7F01 "CLS") = .ok program ∧
      program.entries[0x7F00]? = some entry ∧ entry.address = 0 := by
  constructor
  · have htarget : ({ memorySize := 0x201 } : Target).fault? = none := by decide
    obtain ⟨program, hprogram, hsize⟩ := exists_program_of_size htarget 1
    refine ⟨program, hprogram, fun hfits => ?_⟩
    have hinside := hfits.inside 0 (by omega)
    revert hinside
    decide
  · have htarget : ({} : Target).fault? = none := by decide
    obtain ⟨program, hprogram, hsize⟩ := exists_program_of_size htarget 0x7F01
    obtain ⟨-, draft, -, -, hlink⟩ := assemble_eq_ok_iff.mp hprogram
    have hlt : 0x7F00 < program.entries.length := by
      rw [Program.size] at hsize
      omega
    have hentry := List.getElem?_eq_getElem hlt
    refine ⟨program, _, hprogram, hentry, ?_⟩
    apply UInt16.toNat_inj.mp
    rw [link_address hlink hentry]
    rfl

/-- The place of a program that is accepted. Its addresses are cut at sixteen bits, the memory
bounds the labels that words refer to, and the program lies in memory exactly if it is short
enough. -/
structure Extent (target : Target) (program : Program) : Prop where
  address : ∀ (i : Nat) (entry : Entry), program.entries[i]? = some entry →
    entry.address.toNat = (target.loadBase.toNat + 2 * i) % 2 ^ 16
  distinct : (program.entries.map (·.address)).Nodup ↔ program.size ≤ 2 ^ 15
  label : ∀ entry ∈ program.entries, ∀ name, .label name ∈ entry.instruction.operands →
    entry.word.toNat % 0x1000 < target.memorySize.toNat
  fits : [FitsMemory target program,
    ∀ i < program.size, target.loadBase.toNat + 2 * i + 1 < target.memorySize.toNat,
    program.bytes.length ≤ target.memorySize.toNat - target.loadBase.toNat].TFAE

lemma length_bytes (program : Program) : program.bytes.length = 2 * program.size := by
  rw [Program.bytes, Program.size]
  induction program.entries with
  | nil => rfl
  | cons entry rest ih =>
    simp [Entry.bytes, ih]
    omega

theorem assemble_extent {target : Target} {lines : List String} {program : Program}
    (h : assemble target lines = .ok program) : Extent target program := by
  obtain ⟨htarget, draft, -, -, hlink⟩ := assemble_eq_ok_iff.mp h
  obtain ⟨hmemory, hbase⟩ := fault?_eq_none_iff.mp htarget
  have hbytes := length_bytes program
  refine ⟨fun i entry => link_address hlink, nodup_addresses_iff hlink, ?_, ?_⟩
  · intro entry hentry name hname
    obtain ⟨-, -, -, -, hlt⟩ := exists_binding_of_label (link_word hlink entry hentry) hname
    exact hlt
  tfae_have 1 → 2 := FitsMemory.inside
  tfae_have 2 → 3 := by
    intro hinside
    by_cases hempty : program.size = 0
    · omega
    · have hlast := hinside (program.size - 1) (by omega)
      omega
  tfae_have 3 → 1 := by
    intro hlength
    refine ⟨?_, ?_, (nodup_addresses_iff hlink).mpr (by omega), hlength⟩
    · intro i entry hentry
      have hi : i < program.size := (List.getElem?_eq_some_iff.mp hentry).1
      rw [link_address hlink hentry]
      omega
    · intro i hi
      omega
  tfae_finish

/-- A program that takes the memory to its last byte. -/
theorem assemble_extent_full : ∃ program,
    assemble { memorySize := 0x204 } ["LABEL start", "CLS", "JP start"] = .ok program ∧
    Extent { memorySize := 0x204 } program ∧ FitsMemory { memorySize := 0x204 } program := by
  have hlength : (assemble { memorySize := 0x204 } ["LABEL start", "CLS", "JP start"]).map
      (fun program => program.bytes.length) = .ok 4 := by
    decide +kernel
  obtain ⟨program, hprogram, hlength⟩ := map_eq_ok_iff.mp hlength
  have hextent := assemble_extent hprogram
  refine ⟨program, hprogram, hextent, (hextent.fits.out 0 2).mpr ?_⟩
  rw [hlength]
  decide

end Chip8.Proofs
