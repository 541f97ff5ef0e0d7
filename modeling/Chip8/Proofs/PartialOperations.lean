import Mathlib
import Chip8.Proofs.Layout

/-!
# Operations that may have no result

Sums and products of machine numbers may leave their type, a shift may be by too many bits, a list
may have no element at a place, and an assertion may fail. `Checked` is the assembler with a test at
each of these operations. No test ever fails as long as there are fewer than `2 ^ 30` instructions.
Main statement: `checked_eq_some`.
-/

namespace Chip8

/-- An outcome, unless an operation on the way has no result. -/
abbrev Checked (ε α : Type) : Type := ExceptT ε Option α

namespace Checked

/-- An outcome that needs no test. -/
def total {ε α : Type} (outcome : Except ε α) : Checked ε α :=
  ExceptT.mk (some outcome)

/-! ### Tested operations -/

/-- The number, if it is one of the given count that a type has. -/
def within (size value : Nat) : Option Nat :=
  if value < size then some value else none

/-- A number of 64 bits shifted to the right, which has to be by fewer than 64. -/
def shiftRight (value amount : Nat) : Option Nat :=
  if amount < 64 then some (value >>> amount) else none

/-- The byte that two nibbles spell. -/
def byte (high low : Nat) : Option Nat := do
  let shifted ← within UInt8.size (high * 16)
  within UInt8.size (shifted + low)

/-- The word that nibbles spell, of which there have to be four. -/
def word (nibbles : List Nat) : Option UInt16 := do
  guard (nibbles.length = 4)
  let high ← byte (← nibbles[0]?) (← nibbles[1]?)
  let low ← byte (← nibbles[2]?) (← nibbles[3]?)
  pure (UInt16.ofNat (high * 256 + low))

def lowest (value : Nat) : Nat → Option (List Nat)
  | 0 => some []
  | place + 1 => do
    let shifted ← shiftRight value (4 * place)
    let others ← lowest value place
    pure (shifted % 16 :: others)

def fixed (value digits : Nat) : Checked OperandFault (List Nat) := do
  let excess ← shiftRight value (4 * digits)
  if excess = 0 then lowest value digits
  else throw (.tooWide (Numeral.hexPrefixed value) digits)

/-! ### Words -/

section Words

variable (target : Target) (table : SymbolTable) (owner : String)

def offset (index : Nat) : Option Nat :=
  match target.addressing with
  | .index => some index
  | .byte => within UInt64.size (2 * index)

def address (name : String) : Checked Cause Nat :=
  match table.find? name with
  | none => throw (.unresolvedLabel owner name)
  | some binding => do
    let offset ← offset target binding.index
    let address ← within UInt32.size (target.loadBase.toNat + offset % UInt32.size)
    if address < target.memorySize.toNat then pure address
    else throw (.addressOutOfRange owner address .labelBeyondMemory)

def number : Slot → Operand → Checked Cause Nat
  | .address, .label name => address target table owner name
  | slot, operand => total (slot.number target table owner operand)

def fill (slot : Slot) (operand : Operand) : Checked Cause (List Nat) := do
  let number ← number target table owner slot operand
  (fixed number slot.width).adapt (.operand owner)

def fillAll : List Slot → List Operand → Checked Cause (List Nat)
  | slot :: slots, operand :: operands => do
    let first ← fill target table owner slot operand
    let others ← fillAll slots operands
    pure (first ++ others)
  | _, _ => pure []

/-- The word of a mnemonic with any operands. -/
def encode (mnemonic : Mnemonic) (operands : List Operand) : Checked Cause UInt16 := do
  total (requireCount mnemonic.name mnemonic.arity operands.length)
  let fields ← fillAll target table mnemonic.name mnemonic.pattern.slots operands
  word (mnemonic.pattern.lead :: fields ++ mnemonic.pattern.trail)

end Words

/-! ### Lines -/

def pop (stack : Stack) (tokens : List String) (line : Nat) :
    Checked Cause (Nat × List Instruction) := do
  let cursor ← total (stack.ready .pop)
  total (requireCount Directive.pop.name 1 tokens.length)
  let registers ← total (Stack.registers .pop tokens)
  let register ← (registers[0]? : Option Nat)
  if cursor < stack.top then
    let next ← within UInt16.size (cursor + 1)
    pure (next, [Stack.setPointer line next, Stack.load line,
      Stack.copy line register Stack.relay])
  else
    let past ← within UInt32.size (cursor + 1)
    throw (.addressOutOfRange Directive.pop.name past .emptyStack)

def code (stack : Stack) (directive : Directive) (tokens : List String) (line : Nat)
    (first : Bool) : Checked Cause (Nat × List Instruction) :=
  match directive with
  | .pop => pop stack tokens line
  | directive => total (stack.code directive tokens line first)

def ofTokens (line : Nat) : List String → Checked Cause Statement
  | [] => pure .blank
  | head :: tokens =>
    if upper head = Statement.labelKeyword then do
      total (requireCount Statement.labelKeyword 1 tokens.length)
      let name ← (tokens[0]? : Option String)
      pure (.label name)
    else total (Statement.ofTokens line (head :: tokens))

def add (draft : Draft) (line : Nat) : Statement → Checked Cause Draft
  | .stack directive operands => do
    let (cursor, code) ← code draft.stack directive operands line (!draft.begun)
    pure { draft with
      stack := { draft.stack with cursor := some cursor }
      code := draft.code ++ code
      begun := true }
  | statement => total (draft.add line statement)

def addLine (draft : Draft) (line : Nat) (text : String) : Checked Fault Draft :=
  ExceptT.adapt (.source line) do add draft line (← ofTokens line (tokensOf text))

def addLines (draft : Draft) (line : Nat) : List String → Checked Fault Draft
  | [] => pure draft
  | text :: texts => do
    let next ← addLine draft line text
    addLines next (line + 1) texts

/-! ### Programs -/

def entry (base : UInt16) (target : Target) (table : SymbolTable) (index : Nat)
    (instruction : Instruction) : Checked Fault Entry := do
  let word ← (encode target table instruction.mnemonic instruction.operands).adapt
    (.source instruction.line)
  let offset ← within UInt64.size (2 * index)
  pure { address := base + UInt16.ofNat offset, word, instruction, labels := table.namesAt index }

def link (base : UInt16) (target : Target) (table : SymbolTable) (code : List Instruction) :
    Checked Fault Program := do
  let entries ← code.zipIdx.mapM fun (instruction, index) =>
    entry base target table index instruction
  pure { entries }

def finish (target : Target) (draft : Draft) : Checked Fault Program :=
  match draft.trailing? with
  | some label => throw (.source label.line (.trailingLabel label.name))
  | none => link target.loadBase target draft.table draft.code.toList

def assemble (target : Target) (lines : List String) : Checked Fault Program :=
  match target.fault? with
  | some fault => throw (.target fault)
  | none => do finish target (← addLines (.new target) 1 lines)

end Checked

namespace Proofs

open Checked

/-! ### Chains without failing tests -/

section Chains

variable {ε α β : Type}

lemma total_bind {x : Except ε α} {f : α → Checked ε β} {g : α → Except ε β}
    (h : ∀ a, x = .ok a → f a = total (g a)) : total x >>= f = total (x >>= g) := by
  cases x with
  | error e => rfl
  | ok a => exact h a rfl

lemma lift_bind {x : Option α} {a : α} (h : x = some a) (f : α → Checked ε β) :
    (liftM x : Checked ε α) >>= f = f a := by
  subst h
  rfl

lemma adapt_total {ε' : Type} (f : ε → ε') (x : Except ε α) :
    (total x).adapt f = total (x.mapError f) := by
  cases x <;> rfl

lemma adapt_source (line : Nat) (x : Except Cause α) :
    (total x).adapt (.source line) = total (atLine line x) := by
  cases x <;> rfl

lemma mapM_total {f : α → Checked ε β} {g : α → Except ε β} {l : List α}
    (h : ∀ a ∈ l, f a = total (g a)) : l.mapM f = total (l.mapM g) := by
  induction l with
  | nil => rfl
  | cons a l ih =>
    rw [List.mapM_cons, List.mapM_cons, h a (by simp)]
    refine total_bind fun b _ => ?_
    rw [ih fun c hc => h c (by simp [hc])]
    exact total_bind fun c _ => rfl

end Chains

/-! ### Nibbles and words -/

lemma within_of_lt {size value : Nat} (h : value < size) : within size value = some value :=
  if_pos h

lemma shiftRight_of_lt {value amount : Nat} (h : amount < 64) :
    shiftRight value amount = some (value >>> amount) :=
  if_pos h

lemma lowest_eq_some {value digits : Nat} (h : digits ≤ 16) :
    lowest value digits = some (Nibble.lowest value digits) := by
  induction digits with
  | zero => rfl
  | succ place ih =>
    rw [lowest, shiftRight_of_lt (by omega), ih (by omega)]
    rfl

lemma fixed_eq_total {value digits : Nat} (h : digits < 16) :
    fixed value digits = total (Nibble.fixed value digits) := by
  unfold fixed Nibble.fixed
  rw [lift_bind (shiftRight_of_lt (by omega))]
  split
  · rw [lowest_eq_some (by omega)]
    rfl
  · rfl

lemma width_lt (slot : Slot) : slot.width < 16 := by
  cases slot <;> decide

lemma byte_eq_some {high low : Nat} (hhigh : high < 16) (hlow : low < 16) :
    byte high low = some (high * 16 + low) := by
  have hshifted : high * 16 < UInt8.size := by
    change _ < 256
    omega
  have hsum : high * 16 + low < UInt8.size := by
    change _ < 256
    omega
  unfold byte
  rw [within_of_lt hshifted]
  exact within_of_lt hsum

lemma word_eq_some {nibbles : List Nat} (hlength : nibbles.length = 4)
    (hnibbles : ∀ nibble ∈ nibbles, nibble < 16) : word nibbles = some (Nibble.word nibbles) := by
  obtain ⟨a, b, c, d, rfl⟩ := List.length_eq_four.mp hlength
  simp only [List.mem_cons, List.not_mem_nil, or_false, forall_eq_or_imp, forall_eq] at hnibbles
  obtain ⟨ha, hb, hc, hd⟩ := hnibbles
  have hword : word [a, b, c, d] =
      some (UInt16.ofNat ((a * 16 + b) * 256 + (c * 16 + d))) := by
    simp [word, byte_eq_some ha hb, byte_eq_some hc hd, guard]
  have hvalue : (a * 16 + b) * 256 + (c * 16 + d) = Numeral.value 16 [a, b, c, d] := by
    simp only [Numeral.value, List.foldl_cons, List.foldl_nil]
    omega
  rw [hword, hvalue]
  rfl

section Words

variable {target : Target} {table : SymbolTable}

lemma offset_eq_some {index : Nat} (h : index < 2 ^ 30) :
    Checked.offset target index = some (target.offset index) := by
  unfold Checked.offset Target.offset
  cases target.addressing with
  | index => rfl
  | byte =>
    apply within_of_lt
    change _ < 18446744073709551616
    omega

lemma address_eq_total (h : ∀ binding ∈ table.bindings, binding.index < 2 ^ 30)
    (owner name : String) :
    Checked.address target table owner name = total (table.address target owner name) := by
  cases hfind : table.find? name with
  | none =>
    rw [Checked.address, hfind, address_of_unbound hfind]
    rfl
  | some binding =>
    have hindex := h binding (SymbolTable.find?_eq_some_iff.mp hfind).1
    have haddress : (target.labelAddress binding.index).toNat =
        target.loadBase.toNat + target.offset binding.index := toNat_labelAddress_of_lt hindex
    have hsum : target.loadBase.toNat + target.offset binding.index < UInt32.size :=
      haddress ▸ (target.labelAddress binding.index).toNat_lt
    have hoffset : target.offset binding.index % UInt32.size = target.offset binding.index :=
      Nat.mod_eq_of_lt ((Nat.le_add_left _ _).trans_lt hsum)
    rw [Checked.address, hfind]
    dsimp only
    rw [lift_bind (offset_eq_some hindex), hoffset, lift_bind (within_of_lt hsum),
      address_of_bound hfind, haddress]
    split <;> rfl

lemma number_eq_total (h : ∀ binding ∈ table.bindings, binding.index < 2 ^ 30) (owner : String)
    (slot : Slot) (operand : Operand) : Checked.number target table owner slot operand =
      total (slot.number target table owner operand) := by
  unfold Checked.number
  split
  · exact address_eq_total h owner _
  · rfl

lemma fill_eq_total (h : ∀ binding ∈ table.bindings, binding.index < 2 ^ 30) (owner : String)
    (slot : Slot) (operand : Operand) : Checked.fill target table owner slot operand =
      total (slot.fill target table owner operand) := by
  unfold Checked.fill Slot.fill
  rw [number_eq_total h]
  refine total_bind fun number _ => ?_
  rw [fixed_eq_total (width_lt slot), adapt_total]

lemma fillAll_eq_total (h : ∀ binding ∈ table.bindings, binding.index < 2 ^ 30) (owner : String)
    (slots : List Slot) (operands : List Operand) :
    Checked.fillAll target table owner slots operands =
      total (Slot.fillAll target table owner slots operands) := by
  induction slots generalizing operands with
  | nil => rfl
  | cons slot slots ih =>
    cases operands with
    | nil => rfl
    | cons operand operands =>
      unfold Checked.fillAll Slot.fillAll
      rw [fill_eq_total h]
      refine total_bind fun first _ => ?_
      rw [ih]
      exact total_bind fun others _ => rfl

/-- Whatever its operands are, a mnemonic is encoded without a failing test. -/
theorem encode_eq_total (h : ∀ binding ∈ table.bindings, binding.index < 2 ^ 30)
    (mnemonic : Mnemonic) (operands : List Operand) :
    Checked.encode target table mnemonic operands =
      total ((mnemonic.nibbles target table operands).map Nibble.word) := by
  unfold Checked.encode Mnemonic.nibbles
  simp only [map_bind]
  refine total_bind fun _ hcount => ?_
  rw [fillAll_eq_total h]
  refine total_bind fun fields hfields => ?_
  have harity := require_eq_ok_iff.mp hcount
  obtain ⟨numbers, hnumbers, rfl⟩ := (fillAll_eq_ok_iff mnemonic.name harity).mp hfields
  rw [word_eq_some hnumbers.digits.1 hnumbers.digits.2]
  rfl

end Words

/-! ### Lines -/

/-- The addresses of a stack are numbers of 16 bits. -/
structure Bounded (stack : Stack) : Prop where
  top : stack.top < UInt16.size
  cursor : ∀ cursor, stack.cursor = some cursor → cursor ≤ stack.top

section Lines

variable {stack : Stack} {draft next : Draft} {line : Nat} {text : String} {statement : Statement}

lemma pop_eq_total (h : Bounded stack) (tokens : List String) (line : Nat) :
    Checked.pop stack tokens line = total (stack.popCode tokens line) := by
  unfold Checked.pop Stack.popCode
  refine total_bind fun cursor hready => total_bind fun _ hcount =>
    total_bind fun registers hregisters => ?_
  have hlength := (registers_eq_ok_iff.mp hregisters).length_eq
  rw [require_eq_ok_iff.mp hcount] at hlength
  obtain ⟨register, rfl⟩ := List.length_eq_one_iff.mp hlength.symm
  have hfirst : [register][0]? = some register := rfl
  rw [lift_bind hfirst]
  have htop : stack.top < 65536 := h.top
  have hcursor := h.cursor cursor (Stack.ready_eq_ok_iff.mp hready)
  by_cases hnonempty : cursor < stack.top
  · have hnext : cursor + 1 < UInt16.size := by
      change _ < 65536
      omega
    rw [if_pos hnonempty, lift_bind (within_of_lt hnext), require, if_pos hnonempty]
    rfl
  · have hpast : cursor + 1 < UInt32.size := by
      change _ < 4294967296
      omega
    rw [if_neg hnonempty, lift_bind (within_of_lt hpast), require, if_neg hnonempty]
    rfl

lemma code_eq_total (h : Bounded stack) (directive : Directive) (tokens : List String) (line : Nat)
    (first : Bool) : Checked.code stack directive tokens line first =
      total (stack.code directive tokens line first) := by
  cases directive with
  | stackInit => rfl
  | push => rfl
  | pop => exact pop_eq_total h tokens line
  | resetSp => rfl

lemma ofTokens_eq_total (line : Nat) (tokens : List String) :
    Checked.ofTokens line tokens = total (Statement.ofTokens line tokens) := by
  cases tokens with
  | nil => rfl
  | cons head tokens =>
    by_cases hlabel : upper head = Statement.labelKeyword
    · rw [Checked.ofTokens, if_pos hlabel]
      rcases tokens with _ | ⟨name, _ | ⟨other, rest⟩⟩
      · simp only [Statement.ofTokens, if_pos hlabel]
        rfl
      · simp only [Statement.ofTokens, if_pos hlabel]
        rfl
      · simp only [Statement.ofTokens, if_pos hlabel]
        rfl
    · rw [Checked.ofTokens, if_neg hlabel]

lemma add_eq_total (h : Bounded draft.stack) (line : Nat) (statement : Statement) :
    Checked.add draft line statement = total (draft.add line statement) := by
  cases statement with
  | blank => rfl
  | label => rfl
  | instruction => rfl
  | stack directive tokens =>
    rw [Checked.add, code_eq_total h, add_stack]
    cases draft.stack.code directive tokens line (!draft.begun) <;> rfl

lemma addLine_eq_total (h : Bounded draft.stack) (line : Nat) (text : String) :
    Checked.addLine draft line text = total (draft.addLine line text) := by
  unfold Checked.addLine Draft.addLine Statement.read
  rw [ofTokens_eq_total, total_bind fun statement _ => add_eq_total h line statement, adapt_source]

lemma Bounded.step {code : List Instruction} (h : Bounded draft.stack)
    (hstep : Step line draft statement code next) : Bounded next.stack :=
  ⟨hstep.stack_top ▸ h.top, hstep.cursor_le h.cursor⟩

theorem addLines_eq_total (h : Bounded draft.stack) (line : Nat) (texts : List String) :
    Checked.addLines draft line texts = total (draft.addLines line texts) := by
  induction texts generalizing draft line with
  | nil => rfl
  | cons text texts ih =>
    have hchain : draft.addLines line (text :: texts) =
        draft.addLine line text >>= fun next => next.addLines (line + 1) texts := by
      rw [Draft.addLines]
      cases draft.addLine line text <;> rfl
    rw [Checked.addLines, addLine_eq_total h, hchain]
    refine total_bind fun next hline => ?_
    obtain ⟨statement, code, -, hstep⟩ := addLine_eq_ok_iff.mp hline
    exact ih (h.step hstep) (line + 1)

end Lines

/-! ### Programs -/

section Programs

variable {target : Target} {table : SymbolTable} {base : UInt16}

lemma entry_eq_total (h : ∀ binding ∈ table.bindings, binding.index < 2 ^ 30) {index : Nat}
    (hindex : index < 2 ^ 30) (instruction : Instruction) :
    Checked.entry base target table index instruction =
      total (Program.entry base target table index instruction) := by
  have hoffset : 2 * index < UInt64.size := by
    change _ < 18446744073709551616
    omega
  unfold Checked.entry Program.entry Instruction.word
  rw [encode_eq_total h, adapt_source]
  cases atLine instruction.line
      ((instruction.mnemonic.nibbles target table instruction.operands).map Nibble.word) with
  | error fault => rfl
  | ok word => exact lift_bind (within_of_lt hoffset) _

theorem link_eq_total (h : ∀ binding ∈ table.bindings, binding.index < 2 ^ 30)
    {code : List Instruction} (hcode : code.length < 2 ^ 30) :
    Checked.link base target table code = total (Program.link base target table code) := by
  unfold Checked.link Program.link
  rw [mapM_total (g := fun located => Program.entry base target table located.2 located.1)]
  · cases code.zipIdx.mapM fun located => Program.entry base target table located.2 located.1 <;>
      rfl
  · rintro ⟨instruction, index⟩ hmem
    have hlt := List.snd_lt_of_mem_zipIdx hmem
    exact entry_eq_total h (lt_trans hlt (by simpa using hcode)) instruction

lemma finish_eq_total {draft : Draft}
    (h : ∀ binding ∈ draft.table.bindings, binding.index < 2 ^ 30)
    (hcode : draft.code.size < 2 ^ 30) :
    Checked.finish target draft = total (draft.finish target) := by
  unfold Checked.finish Draft.finish
  cases draft.trailing? with
  | some label => rfl
  | none => exact link_eq_total h (by simpa using hcode)

lemma bounded_new (target : Target) : Bounded (Draft.new target).stack := by
  have hmemory := target.memorySize.toNat_lt
  refine ⟨?_, by simp [Draft.new, Stack.ofMemorySize]⟩
  change target.memorySize.toNat - 1 < 65536
  omega

theorem assemble_eq_total {lines : List String}
    (h : ∀ draft, scan target lines = .ok draft → draft.code.size < 2 ^ 30) :
    Checked.assemble target lines = total (assemble target lines) := by
  cases htarget : target.fault? with
  | some fault =>
    unfold Checked.assemble assemble
    rw [htarget]
    rfl
  | none =>
    rw [assemble_of_accepted htarget]
    unfold Checked.assemble
    rw [htarget, addLines_eq_total (bounded_new target)]
    refine total_bind fun draft hscan => ?_
    obtain ⟨blocks, hblocks⟩ := scan_eq_ok_iff.mp hscan
    refine finish_eq_total (fun binding hmem => ?_) (h draft hscan)
    exact (hblocks.index_le hmem).trans_lt (h draft hscan)

/-- Every test passes when a source of fewer than `2 ^ 30` instructions is assembled, and when any
operands are encoded with labels of such a source; the outcomes are those without tests. -/
theorem checked_eq_some (target : Target) :
    (∀ lines, (∀ draft, scan target lines = .ok draft → draft.code.size < 2 ^ 30) →
      (Checked.assemble target lines).run = some (assemble target lines)) ∧
    ∀ table : SymbolTable, (∀ binding ∈ table.bindings, binding.index < 2 ^ 30) →
      ∀ mnemonic operands, (Checked.encode target table mnemonic operands).run =
        some ((mnemonic.nibbles target table operands).map Nibble.word) := by
  refine ⟨?_, ?_⟩
  · intro lines hsize
    rw [assemble_eq_total hsize]
    rfl
  · intro table hindex mnemonic operands
    rw [encode_eq_total hindex]
    rfl

end Programs

/-- The last label that is allowed for lies beyond the end of memory, and its address is still a
number of 32 bits. -/
theorem checked_eq_some_label : ∃ table : SymbolTable,
    table.bindings = [⟨"a", 2 ^ 30 - 1, 1⟩] ∧
    (∀ binding ∈ table.bindings, binding.index < 2 ^ 30) ∧
    (Checked.encode {} table .jp [.label "a"]).run =
      some (.error (.addressOutOfRange "JP" (0x200 + (2 ^ 30 - 1)) .labelBeyondMemory)) ∧
    (∀ draft, scan {} ["STACK_INIT", "LABEL a", "PUSH V1", "POP V2", "JP a"] = .ok draft →
      draft.code.size < 2 ^ 30) ∧
    (Checked.assemble {} ["STACK_INIT", "LABEL a", "PUSH V1", "POP V2", "JP a"]).run =
      some (assemble {} ["STACK_INIT", "LABEL a", "PUSH V1", "POP V2", "JP a"]) := by
  have hvalid : Token.isLabelName "a" = true := by decide
  let table : SymbolTable :=
    { bindings := [⟨"a", 2 ^ 30 - 1, 1⟩], named := by simpa using hvalid }
  have hindex : ∀ binding ∈ table.bindings, binding.index < 2 ^ 30 := by simp [table]
  have hsize : ∀ draft, scan {} ["STACK_INIT", "LABEL a", "PUSH V1", "POP V2", "JP a"] =
      .ok draft → draft.code.size < 2 ^ 30 := by
    intro draft hdraft
    have hcode : (scan {} ["STACK_INIT", "LABEL a", "PUSH V1", "POP V2", "JP a"]).map
        (fun draft => draft.code.size) = .ok 8 := by
      decide +kernel
    rw [hdraft] at hcode
    have hcount : draft.code.size = 8 := Except.ok.inj hcode
    omega
  obtain ⟨hassemble, hencode⟩ := checked_eq_some {}
  refine ⟨table, rfl, hindex, ?_, hsize, hassemble _ hsize⟩
  rw [hencode table hindex]
  rfl

/-- The address of a label with a greater number may leave its type. -/
example : (Checked.address {} { bindings := [⟨"a", 2 ^ 32 - 1, 1⟩], named := by decide } "JP"
    "a").run = none := by
  decide

end Proofs

end Chip8
