import Mathlib
import Chip8.Proofs.Extension

/-!
# Separate assembly

Two sources assemble one behind the other to the bytes of the first and then the bytes of the
second, if the second is assembled for a target whose load base lies behind the first. Main
statement: `assemble_append_bytes`.
-/

namespace Chip8.Proofs

/-! ### What the sources hold -/

/-- The names that lines bind, in order. -/
def boundNames (lines : List String) : List String :=
  lines.filterMap fun text =>
    match Statement.read 1 text with
    | .ok (.label name) => some name
    | _ => none

/-- The line is a `STACK_INIT`. -/
def startsStack (text : String) : Bool :=
  match Statement.read 1 text with
  | .ok (.stack .stackInit _) => true
  | _ => false

lemma read_of_read {line : Nat} {text : String} {statement : Statement}
    (h : Statement.read line text = .ok statement) (other : Nat) :
    Statement.read other text = .ok (renumber other statement) := by
  rw [read_renumber line, h]
  rfl

lemma startsStack_of_read {line : Nat} {text : String} {tokens : List String}
    (h : Statement.read line text = .ok (.stack .stackInit tokens)) : startsStack text = true := by
  unfold startsStack
  rw [read_of_read h]
  rfl

lemma mem_boundNames_of_read {lines : List String} {line : Nat} {text name : String}
    (hmem : text ∈ lines) (h : Statement.read line text = .ok (.label name)) :
    name ∈ boundNames lines := by
  refine List.mem_filterMap.mpr ⟨text, hmem, ?_⟩
  rw [read_of_read h]
  rfl

/-! ### The lines of the second source -/

/-- The joined draft holds the code and the labels of the first draft, and behind them those of the
second, which has no stack. -/
structure Joins (start alone joined : Draft) : Prop where
  code : ∃ added, joined.code.toList = start.code.toList ++ added ∧
    alone.code.toList.map content = added.map content
  index : ∀ name, indexOf? joined.table name =
    ((indexOf? alone.table name).map (start.code.size + ·)).or (indexOf? start.table name)
  cursor : alone.stack.cursor = none

section Joins

variable {start alone joined next : Draft} {target : Target}

lemma Joins.new (start : Draft) (target : Target) : Joins start (Draft.new target) start := by
  refine ⟨⟨[], by simp, rfl⟩, ?_, rfl⟩
  intro name
  have hempty : indexOf? (Draft.new target).table name = none := rfl
  rw [hempty]
  rfl

lemma Joins.size_eq (h : Joins start alone joined) :
    joined.code.size = start.code.size + alone.code.size := by
  obtain ⟨added, hadded, hcontent⟩ := h.code
  have hlength := congrArg List.length hcontent
  simp only [List.length_map, Array.length_toList] at hlength
  rw [← Array.length_toList, hadded, List.length_append, Array.length_toList, hlength]

/-- A statement that the second draft takes can be added to the joined draft as well. -/
lemma Joins.step (h : Joins start alone joined) {line : Nat} {statement : Statement}
    {code : List Instruction} (hstep : Step line alone statement code next)
    (hstart : ∀ tokens, statement ≠ .stack .stackInit tokens)
    (hfresh : ∀ name, statement = .label name → indexOf? start.table name = none) (other : Nat) :
    ∃ added whole, Step other joined (renumber other statement) added whole ∧
      Joins start next whole := by
  cases hstep with
  | blank => exact ⟨[], joined, .blank, h⟩
  | @label name table hbind =>
    obtain ⟨hvalid, hunbound, -⟩ := SymbolTable.bind_eq_ok_iff.mp hbind
    have hjoined : indexOf? joined.table name = none := by
      rw [h.index, indexOf?_eq_none_iff.mpr hunbound, hfresh name rfl]
      rfl
    obtain ⟨table', hbind'⟩ := exists_bind ⟨name, joined.code.size, other⟩ hvalid hjoined
    refine ⟨[], _, .label hbind', h.code, ?_, h.cursor⟩
    intro query
    simp only [indexOf?_bind hbind, indexOf?_bind hbind', h.index, h.size_eq]
    split <;> rfl
  | stack hcode =>
    -- Only `STACK_INIT` needs no cursor.
    cases code_eq_ok_iff.mp hcode with
    | start => exact absurd rfl (hstart [])
    | push hcursor => simp [h.cursor] at hcursor
    | pop hcursor => simp [h.cursor] at hcursor
    | reset hcursor => simp [h.cursor] at hcursor
  | @instruction instruction =>
    obtain ⟨added, hadded, hcontent⟩ := h.code
    refine ⟨_, _, .instruction, ⟨added ++ [{ instruction with line := other }], ?_, ?_⟩,
      h.index, h.cursor⟩
    · simp [hadded]
    · simp [hcontent, content]

lemma Joins.addLine (h : Joins start alone joined) {line : Nat} {text : String}
    (hline : alone.addLine line text = .ok next)
    (hstart : startsStack text = false)
    (hfresh : ∀ name, Statement.read line text = .ok (.label name) →
      indexOf? start.table name = none) (other : Nat) :
    ∃ whole, joined.addLine other text = .ok whole ∧ Joins start next whole := by
  obtain ⟨statement, code, hread, hstep⟩ := addLine_eq_ok_iff.mp hline
  have hdirective : ∀ tokens, statement ≠ .stack .stackInit tokens := by
    rintro tokens rfl
    simp [startsStack_of_read hread] at hstart
  obtain ⟨added, whole, hwhole, hjoins⟩ := h.step hstep hdirective
    (fun name hname => hfresh name (hname ▸ hread)) other
  exact ⟨whole, addLine_eq_ok_iff.mpr ⟨_, added, read_of_read hread other, hwhole⟩, hjoins⟩

theorem Joins.addLines (h : Joins start alone joined) {texts : List String} {line : Nat}
    (hlines : alone.addLines line texts = .ok next)
    (hstart : ∀ text ∈ texts, startsStack text = false)
    (hfresh : ∀ name ∈ boundNames texts, indexOf? start.table name = none) (other : Nat) :
    ∃ whole, joined.addLines other texts = .ok whole ∧ Joins start next whole := by
  induction texts generalizing alone joined line other with
  | nil =>
    obtain rfl := Except.ok.inj hlines
    exact ⟨joined, rfl, h⟩
  | cons text texts ih =>
    unfold Draft.addLines at hlines ⊢
    cases hline : alone.addLine line text with
    | error fault => simp [hline] at hlines
    | ok middle =>
      rw [hline] at hlines
      obtain ⟨whole, hwhole, hjoins⟩ := h.addLine hline (hstart text (by simp))
        (fun name hread => hfresh name (mem_boundNames_of_read (by simp) hread)) other
      have hrest : ∀ name ∈ boundNames texts, indexOf? start.table name = none := by
        intro name hname
        obtain ⟨later, hlater, hbound⟩ := List.mem_filterMap.mp hname
        exact hfresh name (List.mem_filterMap.mpr ⟨later, by simp [hlater], hbound⟩)
      rw [hwhole]
      exact ih hjoins hlines (fun later hlater => hstart later (by simp [hlater])) hrest (other + 1)

end Joins

/-! ### Addresses -/

section Addresses

variable {target : Target} {start alone joined : Draft} {base : UInt16}

lemma offset_add (target : Target) (first second : Nat) :
    target.offset (first + second) = target.offset first + target.offset second := by
  unfold Target.offset
  split
  · rfl
  · exact Nat.mul_add 2 first second

lemma address_eq_of_place {place : Target} {table other : SymbolTable} {owner name : String}
    {first second : Binding} (hfirst : table.find? name = some first)
    (hsecond : other.find? name = some second) (hmemory : target.memorySize = place.memorySize)
    (hsame : target.labelAddress first.index = place.labelAddress second.index) :
    table.address target owner name = other.address place owner name := by
  rw [address_of_bound hfirst, address_of_bound hsecond, hsame, hmemory]

/-- A label of the second draft has the same address above its load base as in the joined draft. -/
lemma Joins.completes_address (h : Joins start alone joined)
    (hbase : base.toNat = target.loadBase.toNat + target.offset start.code.size)
    (hindex : ∀ label ∈ alone.table.bindings, label.index < alone.code.size)
    (hsize : joined.code.size < 2 ^ 30) (owner name : String) :
    Completes (alone.table.address { target with loadBase := base } owner name)
      (joined.table.address target owner name) := by
  cases hfind : alone.table.find? name with
  | none => exact Or.inr ⟨owner, name, address_of_unbound hfind⟩
  | some label =>
    have hlabel := hindex label (SymbolTable.find?_eq_some_iff.mp hfind).1
    have htotal := h.size_eq
    have hjoined : indexOf? joined.table name = some (start.code.size + label.index) := by
      rw [h.index, indexOf?, hfind]
      rfl
    obtain ⟨moved, hmoved, hplace⟩ := Option.map_eq_some_iff.mp hjoined
    refine Or.inl (address_eq_of_place hmoved hfind rfl ?_)
    apply UInt32.toNat_inj.mp
    rw [hplace, toNat_labelAddress_of_lt (by omega), toNat_labelAddress_of_lt (by omega),
      offset_add, ← Nat.add_assoc, ← hbase]
    rfl

end Addresses

/-! ### The joined program -/

section Programs

variable {target : Target} {base : UInt16} {start alone joined : Draft} {first second : Program}

/-- The joined draft has a program, and its words are those of the two programs. -/
lemma Joins.exists_link (h : Joins start alone joined) (hextends : Extends start joined)
    (hbase : base.toNat = target.loadBase.toNat + target.offset start.code.size)
    (hindex : ∀ label ∈ alone.table.bindings, label.index < alone.code.size)
    (hsize : joined.code.size < 2 ^ 30)
    (hfirst : Program.link target.loadBase target start.table start.code.toList = .ok first)
    (hsecond : Program.link base { target with loadBase := base } alone.table alone.code.toList =
      .ok second) :
    ∃ program, Program.link target.loadBase target joined.table joined.code.toList = .ok program ∧
      program.entries.map (·.word) =
        first.entries.map (·.word) ++ second.entries.map (·.word) := by
  obtain ⟨added, hadded, hcontent⟩ := h.code
  have hstart := mapM_word_of_completes (hextends.completes_address target) rfl
    (mapM_word_of_link hfirst)
  have hmoved := mapM_word_of_completes (h.completes_address hbase hindex hsize) hcontent
    (mapM_word_of_link hsecond)
  apply Proofs.exists_link
  rw [mapM_eq_ok_iff] at hstart hmoved ⊢
  rw [hadded]
  exact List.rel_append hstart hmoved

/-- No label stands behind the joined code. -/
lemma Joins.trailing?_eq_none (h : Joins start alone joined) {lines : List String}
    (hscan : scan target lines = .ok joined)
    (hstart : ∀ label ∈ start.table.bindings, label.index < start.code.size)
    (halone : ∀ label ∈ alone.table.bindings, label.index < alone.code.size) :
    joined.trailing? = none := by
  obtain ⟨blocks, hblocks⟩ := scan_eq_ok_iff.mp hscan
  rw [hblocks.trailing?_eq_none_iff]
  intro label hlabel
  have hjoined : indexOf? joined.table label.name = some label.index :=
    indexOf?_eq_some_iff.mpr ⟨label, hlabel, rfl, rfl⟩
  rw [h.index, Option.or_eq_some_iff] at hjoined
  have htotal := h.size_eq
  rcases hjoined with hmoved | ⟨-, hkept⟩
  · obtain ⟨index, hindex, hplace⟩ := Option.map_eq_some_iff.mp hmoved
    obtain ⟨original, hmem, -, rfl⟩ := indexOf?_eq_some_iff.mp hindex
    have hlt := halone original hmem
    omega
  · obtain ⟨original, hmem, -, hplace⟩ := indexOf?_eq_some_iff.mp hkept
    have hlt := hstart original hmem
    omega

lemma Scan.mem_boundNames {lines : List String} {blocks : List (List Instruction)} {draft : Draft}
    (h : Scan target lines blocks draft) {label : Binding}
    (hlabel : label ∈ draft.table.bindings) : label.name ∈ boundNames lines := by
  obtain ⟨k, ⟨text, htext, hread⟩, -, -⟩ := h.mem_bindings_iff.mp hlabel
  exact mem_boundNames_of_read (List.mem_of_getElem? htext) hread

/-- Two sources bind different names, and the second has no `STACK_INIT` and is assembled for the
place behind the first. Then they assemble together, and the bytes of the second follow those of
the first. -/
theorem assemble_append_bytes {target : Target} {base : UInt16} {first second : List String}
    {program rest : Program} (hfirst : assemble target first = .ok program)
    (hbase : base.toNat = target.loadBase.toNat + target.offset program.size)
    (hsecond : assemble { target with loadBase := base } second = .ok rest)
    (hstart : ∀ text ∈ second, startsStack text = false)
    (hnames : ∀ name ∈ boundNames first, name ∉ boundNames second)
    (hsize : program.size + rest.size < 2 ^ 30) :
    ∃ whole, assemble target (first ++ second) = .ok whole ∧
      whole.bytes = program.bytes ++ rest.bytes := by
  obtain ⟨htarget, start, hscan, htrailing, hlink⟩ := assemble_eq_ok_iff.mp hfirst
  obtain ⟨-, alone, hscan', htrailing', hlink'⟩ := assemble_eq_ok_iff.mp hsecond
  obtain ⟨blocks, hblocks⟩ := scan_eq_ok_iff.mp hscan
  obtain ⟨blocks', hblocks'⟩ := scan_eq_ok_iff.mp hscan'
  have hindex := hblocks.trailing?_eq_none_iff.mp htrailing
  have hindex' := hblocks'.trailing?_eq_none_iff.mp htrailing'
  have hcode : program.size = start.code.size := by simpa using size_of_link hlink
  have hcode' : rest.size = alone.code.size := by simpa using size_of_link hlink'
  have hfresh : ∀ name ∈ boundNames second, indexOf? start.table name = none := by
    intro name hname
    rw [indexOf?_eq_none_iff, SymbolTable.find?_eq_none_iff]
    rintro label hlabel rfl
    exact hnames _ (hblocks.mem_boundNames hlabel) hname
  obtain ⟨joined, hjoined, hjoins⟩ :=
    (Joins.new start _).addLines hscan' hstart hfresh (first.length + 1)
  have hwhole : scan target (first ++ second) = .ok joined := by
    rw [scan_append, hscan]
    exact hjoined
  have htotal := hjoins.size_eq
  rw [hcode] at hbase
  obtain ⟨whole, hlinked, hwords⟩ := hjoins.exists_link (addLines_extends hjoined) hbase hindex'
    (by omega) hlink hlink'
  have hnone := hjoins.trailing?_eq_none hwhole hindex hindex'
  refine ⟨whole, assemble_eq_ok_iff.mpr ⟨htarget, joined, hwhole, hnone, hlinked⟩, ?_⟩
  simp only [bytes_eq_flatMap_words, hwords, List.flatMap_append]

/-- A program with a stack, and behind its five instructions one with a jump ahead. -/
theorem assemble_append_bytes_jump : ∃ program rest whole,
    assemble { addressing := .byte } ["STACK_INIT", "LABEL a", "PUSH V1", "JP a"] = .ok program ∧
    (0x20A : UInt16).toNat = 0x200 + Target.offset { addressing := .byte } program.size ∧
    assemble { loadBase := 0x20A, addressing := .byte } ["JP b ; skip", "CLS", "LABEL b", "RET"] =
      .ok rest ∧
    (∀ text ∈ ["JP b ; skip", "CLS", "LABEL b", "RET"], startsStack text = false) ∧
    (∀ name ∈ boundNames ["STACK_INIT", "LABEL a", "PUSH V1", "JP a"],
      name ∉ boundNames ["JP b ; skip", "CLS", "LABEL b", "RET"]) ∧
    program.size + rest.size < 2 ^ 30 ∧
    assemble { addressing := .byte } (["STACK_INIT", "LABEL a", "PUSH V1", "JP a"] ++
      ["JP b ; skip", "CLS", "LABEL b", "RET"]) = .ok whole ∧
    whole.bytes = program.bytes ++ rest.bytes := by
  have hprogram : (assemble { addressing := .byte }
      ["STACK_INIT", "LABEL a", "PUSH V1", "JP a"]).map Program.size = .ok 5 := by
    decide +kernel
  have hrest : (assemble { loadBase := 0x20A, addressing := .byte }
      ["JP b ; skip", "CLS", "LABEL b", "RET"]).map Program.size = .ok 3 := by
    decide +kernel
  have hstart : ∀ text ∈ ["JP b ; skip", "CLS", "LABEL b", "RET"], startsStack text = false := by
    decide +kernel
  have hnames : ∀ name ∈ boundNames ["STACK_INIT", "LABEL a", "PUSH V1", "JP a"],
      name ∉ boundNames ["JP b ; skip", "CLS", "LABEL b", "RET"] := by
    decide +kernel
  obtain ⟨program, hprogram, hsize⟩ := map_eq_ok_iff.mp hprogram
  obtain ⟨rest, hrest, hsize'⟩ := map_eq_ok_iff.mp hrest
  have hbase : (0x20A : UInt16).toNat =
      0x200 + Target.offset { addressing := .byte } program.size := by
    rw [hsize]
    rfl
  have htotal : program.size + rest.size < 2 ^ 30 := by
    rw [hsize, hsize']
    decide
  obtain ⟨whole, hwhole, hbytes⟩ :=
    assemble_append_bytes hprogram hbase hrest hstart hnames htotal
  exact ⟨program, rest, whole, hprogram, hbase, hrest, hstart, hnames, htotal, hwhole, hbytes⟩

end Programs

end Chip8.Proofs
