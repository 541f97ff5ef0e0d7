import Mathlib
import Chip8.Proofs.LabelHistory
import Chip8.Proofs.PartialOperations

/-!
# Addresses of labels far away

The distance of a label from the load base is cut to 32 bits before the bound of memory is tested,
and its sum with the load base has 32 bits too. Up to `2 ^ 32` nothing is lost and the answer is
exact. A label beyond is found in memory if what is left of its address lies there, although the
label does not. Main statement: `resolve_exact_iff`.
-/

namespace Chip8.Proofs

/-- The address of the label of an instruction, however large it is. -/
def exactAddress (target : Target) (index : Nat) : Nat :=
  target.loadBase.toNat + target.offset index

/-- The address that is left when the distance from the load base is cut to 32 bits. -/
def cutAddress (target : Target) (index : Nat) : Nat :=
  target.loadBase.toNat + target.offset index % UInt32.size

/-- The outcome that is due for the label of an instruction: its address if that lies in memory, and
a fault if it does not. -/
structure Exact (target : Target) (owner : String) (index : Nat)
    (outcome : Option (Except Cause Nat)) : Prop where
  inside : outcome = some (.ok (exactAddress target index)) ↔
    exactAddress target index < target.memorySize.toNat
  outside : (∃ shown, outcome =
      some (.error (.addressOutOfRange owner shown .labelBeyondMemory))) ↔
    target.memorySize.toNat ≤ exactAddress target index

/-- What a table answers for a name. A name without a binding has no address; a bound one has the
outcome that is due exactly if the cut loses nothing or what it leaves lies beyond memory, and the
sum with the load base is a number of 32 bits. A sum that wraps around has the outcome that is due
exactly if what is left of it lies beyond memory. -/
structure Resolves (target : Target) (owner : String) (table : SymbolTable)
    (accepted : List Binding) : Prop where
  exact_iff : ∀ binding ∈ accepted, target.offset binding.index < UInt64.size →
    (Exact target owner binding.index (Checked.address target table owner binding.name).run ↔
      cutAddress target binding.index < UInt32.size ∧
        (target.offset binding.index < UInt32.size ∨
          target.memorySize.toNat ≤ cutAddress target binding.index))
  near : ∀ binding ∈ accepted, exactAddress target binding.index < UInt32.size →
    (Checked.address target table owner binding.name).run =
      some (if exactAddress target binding.index < target.memorySize.toNat then
        .ok (exactAddress target binding.index)
      else .error (.addressOutOfRange owner (exactAddress target binding.index) .labelBeyondMemory))
  unbound : ∀ name, (∀ binding ∈ accepted, binding.name ≠ name) →
    (Checked.address target table owner name).run = some (.error (.unresolvedLabel owner name))
  wrapped_iff : ∀ binding ∈ accepted,
    (Exact target owner binding.index (some (table.address target owner binding.name)) ↔
      exactAddress target binding.index < UInt32.size ∨
        target.memorySize.toNat ≤ (target.labelAddress binding.index).toNat)
  answered : ∀ name outcome, (Checked.address target table owner name).run = some outcome →
    table.address target owner name = outcome

section Exact

variable {target : Target} {owner : String} {index : Nat}

lemma exact_ok_iff {address : Nat} : Exact target owner index (some (.ok address)) ↔
    address = exactAddress target index ∧ address < target.memorySize.toNat := by
  constructor
  · intro h
    have hinside : exactAddress target index < target.memorySize.toNat := by
      by_contra hbeyond
      obtain ⟨shown, hshown⟩ := h.outside.mpr (Nat.le_of_not_lt hbeyond)
      simp at hshown
    have heq : address = exactAddress target index := by simpa using h.inside.mpr hinside
    exact ⟨heq, heq ▸ hinside⟩
  · rintro ⟨rfl, hlt⟩
    exact ⟨by simpa using hlt, by simpa using hlt⟩

lemma exact_error_iff {shown : Nat} :
    Exact target owner index (some (.error (.addressOutOfRange owner shown .labelBeyondMemory))) ↔
      target.memorySize.toNat ≤ exactAddress target index := by
  constructor
  · exact fun h => h.outside.mp ⟨shown, rfl⟩
  · intro hle
    exact ⟨by simpa using hle, by simpa using hle⟩

/-- One of the two outcomes is due. -/
lemma not_exact_none : ¬Exact target owner index none := by
  intro h
  rcases Nat.lt_or_ge (exactAddress target index) target.memorySize.toNat with hlt | hge
  · simpa using h.inside.mpr hlt
  · simpa using h.outside.mpr hge

/-- A shown address that is at most the exact one is not found beyond memory wrongly. -/
lemma exact_outcome_iff {address : Nat} (hle : address ≤ exactAddress target index) :
    Exact target owner index (some (if address < target.memorySize.toNat then .ok address
      else .error (.addressOutOfRange owner address .labelBeyondMemory))) ↔
      address = exactAddress target index ∨ target.memorySize.toNat ≤ address := by
  by_cases hmemory : address < target.memorySize.toNat
  · rw [if_pos hmemory, exact_ok_iff, and_iff_left hmemory, or_iff_left (Nat.not_le.mpr hmemory)]
  · have hbeyond := Nat.le_of_not_lt hmemory
    rw [if_neg hmemory, exact_error_iff]
    exact iff_of_true (hbeyond.trans hle) (Or.inr hbeyond)

/-- The cut loses nothing exactly if the distance is a number of 32 bits. -/
lemma cutAddress_eq_iff :
    cutAddress target index = exactAddress target index ↔ target.offset index < UInt32.size := by
  rw [cutAddress, exactAddress, Nat.add_left_cancel_iff, Nat.mod_eq_iff_lt (by decide)]

lemma toNat_labelAddress_eq_mod : (target.labelAddress index).toNat =
    exactAddress target index % UInt32.size :=
  toNat_labelAddress target index

lemma toNat_labelAddress_of_cut (h : cutAddress target index < UInt32.size) :
    (target.labelAddress index).toNat = cutAddress target index := by
  rw [toNat_labelAddress, ← Nat.add_mod_mod, ← cutAddress, Nat.mod_eq_of_lt h]

lemma cutAddress_le (target : Target) (index : Nat) :
    cutAddress target index ≤ exactAddress target index :=
  Nat.add_le_add_left (Nat.mod_le _ _) _

end Exact

section Address

variable {target : Target} {table : SymbolTable} {owner name : String} {binding : Binding}

lemma checked_offset_eq {index : Nat} (h : target.offset index < UInt64.size) :
    Checked.offset target index = some (target.offset index) := by
  unfold Target.offset at h ⊢
  unfold Checked.offset
  cases hmode : target.addressing with
  | index => rfl
  | byte =>
    rw [hmode] at h
    exact within_of_lt h

lemma checked_address_of_bound (hfind : table.find? name = some binding)
    (hoffset : target.offset binding.index < UInt64.size) :
    (Checked.address target table owner name).run =
      if cutAddress target binding.index < UInt32.size then
        some (if cutAddress target binding.index < target.memorySize.toNat then
          .ok (cutAddress target binding.index)
        else .error (.addressOutOfRange owner (cutAddress target binding.index) .labelBeyondMemory))
      else none := by
  unfold Checked.address
  rw [hfind]
  dsimp only
  rw [lift_bind (checked_offset_eq hoffset), ← cutAddress]
  by_cases hsum : cutAddress target binding.index < UInt32.size
  · rw [lift_bind (within_of_lt hsum), if_pos hsum]
    split <;> rfl
  · rw [if_neg hsum, Checked.within, if_neg hsum]
    rfl

theorem exact_iff_of_bound (hfind : table.find? name = some binding)
    (hoffset : target.offset binding.index < UInt64.size) :
    Exact target owner binding.index (Checked.address target table owner name).run ↔
      cutAddress target binding.index < UInt32.size ∧
        (target.offset binding.index < UInt32.size ∨
          target.memorySize.toNat ≤ cutAddress target binding.index) := by
  rw [checked_address_of_bound hfind hoffset]
  by_cases hsum : cutAddress target binding.index < UInt32.size
  · rw [if_pos hsum, and_iff_right hsum, exact_outcome_iff (cutAddress_le target binding.index),
      cutAddress_eq_iff]
  · rw [if_neg hsum]
    exact iff_of_false not_exact_none fun h => hsum h.1

/-- The wrapped sum is answered as is due if nothing is lost, or if it lies beyond memory still. -/
theorem exact_address_iff (hfind : table.find? name = some binding) :
    Exact target owner binding.index (some (table.address target owner name)) ↔
      exactAddress target binding.index < UInt32.size ∨
        target.memorySize.toNat ≤ (target.labelAddress binding.index).toNat := by
  have hle : (target.labelAddress binding.index).toNat ≤ exactAddress target binding.index := by
    rw [toNat_labelAddress_eq_mod]
    exact Nat.mod_le _ _
  rw [address_of_bound hfind, exact_outcome_iff hle]
  apply or_congr_left
  rw [toNat_labelAddress_eq_mod, Nat.mod_eq_iff_lt (by decide)]

lemma within_eq_some_iff {size value result : Nat} :
    Checked.within size value = some result ↔ value < size ∧ value = result := by
  unfold Checked.within
  split <;> simp [*]

lemma offset_of_checked {index offset : Nat} (h : Checked.offset target index = some offset) :
    offset = target.offset index := by
  unfold Checked.offset at h
  unfold Target.offset
  cases hmode : target.addressing with
  | index =>
    rw [hmode] at h
    exact (Option.some.inj h).symm
  | byte =>
    rw [hmode] at h
    exact (within_eq_some_iff.mp h).2.symm

/-- Where the tests pass, the answer is the one without tests. -/
lemma address_of_checked {outcome : Except Cause Nat}
    (h : (Checked.address target table owner name).run = some outcome) :
    table.address target owner name = outcome := by
  unfold Checked.address at h
  cases hfind : table.find? name with
  | none =>
    rw [hfind] at h
    rw [address_of_unbound hfind]
    exact Option.some.inj h
  | some binding =>
    rw [hfind] at h
    dsimp only at h
    cases hoffset : Checked.offset target binding.index with
    | none =>
      rw [hoffset] at h
      cases h
    | some offset =>
      rw [lift_bind hoffset, offset_of_checked hoffset, ← cutAddress] at h
      by_cases hsum : cutAddress target binding.index < UInt32.size
      · rw [lift_bind (within_of_lt hsum)] at h
        rw [address_of_bound hfind, toNat_labelAddress_of_cut hsum]
        by_cases hmemory : cutAddress target binding.index < target.memorySize.toNat
        · rw [if_pos hmemory] at h ⊢
          exact Option.some.inj h
        · rw [if_neg hmemory] at h ⊢
          exact Option.some.inj h
      · rw [Checked.within, if_neg hsum] at h
        cases h

end Address

/-- Whatever bindings are tried in a fresh table, and on every target, the accepted ones resolve
exactly up to the cut, and beyond it exactly if what is left of their distance is out of memory. -/
theorem resolve_exact_iff (target : Target) (owner : String) (tried : List Binding) :
    Resolves target owner (history {} tried).1 (history {} tried).2 := by
  have hperm := history_perm tried
  have hfind : ∀ binding ∈ (history {} tried).2,
      (history {} tried).1.find? binding.name = some binding := by
    intro binding hbinding
    exact SymbolTable.find?_eq_some_iff.mpr ⟨hperm.mem_iff.mpr hbinding, rfl⟩
  refine ⟨?_, ?_, ?_, ?_, fun name outcome => address_of_checked⟩
  · intro binding hbinding hoffset
    exact exact_iff_of_bound (hfind binding hbinding) hoffset
  · intro binding hbinding hnear
    have hoffset : target.offset binding.index < UInt32.size :=
      (Nat.le_add_left _ _).trans_lt hnear
    rw [checked_address_of_bound (hfind binding hbinding) (hoffset.trans (by decide)),
      cutAddress_eq_iff.mpr hoffset, if_pos hnear]
  · intro name hname
    have hnone : (history {} tried).1.find? name = none := by
      rw [SymbolTable.find?_eq_none_iff]
      exact fun binding hbinding => hname binding (hperm.mem_iff.mp hbinding)
    unfold Checked.address
    rw [hnone]
    rfl
  · exact fun binding hbinding => exact_address_iff (hfind binding hbinding)

/-- The last label in memory, the first one beyond it, and one whose distance is cut to nothing. -/
theorem resolve_exact_iff_edge : ∃ (target : Target) (tried : List Binding),
    target = { addressing := .byte } ∧
    tried = [⟨"edge", 0x6FF, 1⟩, ⟨"beyond", 0x700, 2⟩, ⟨"far", 2 ^ 31, 3⟩] ∧
    (history {} tried).2 = tried ∧
    (Checked.address target (history {} tried).1 "JP" "edge").run = some (.ok 0xFFE) ∧
    (Checked.address target (history {} tried).1 "JP" "beyond").run =
      some (.error (.addressOutOfRange "JP" 0x1000 .labelBeyondMemory)) ∧
    ¬Exact target "JP" (2 ^ 31) (Checked.address target (history {} tried).1 "JP" "far").run ∧
    (Checked.address target (history {} tried).1 "JP" "nowhere").run =
      some (.error (.unresolvedLabel "JP" "nowhere")) := by
  refine ⟨_, _, rfl, rfl, ?_⟩
  have haccepted : (history {} [⟨"edge", 0x6FF, 1⟩, ⟨"beyond", 0x700, 2⟩, ⟨"far", 2 ^ 31, 3⟩]).2 =
      [⟨"edge", 0x6FF, 1⟩, ⟨"beyond", 0x700, 2⟩, ⟨"far", 2 ^ 31, 3⟩] := by
    decide +kernel
  have hresolves := resolve_exact_iff { addressing := .byte } "JP"
    [⟨"edge", 0x6FF, 1⟩, ⟨"beyond", 0x700, 2⟩, ⟨"far", 2 ^ 31, 3⟩]
  rw [haccepted] at hresolves
  refine ⟨haccepted, ?_, ?_, ?_, ?_⟩
  · exact (hresolves.near ⟨"edge", 0x6FF, 1⟩ (by simp) (by decide)).trans (by decide +kernel)
  · exact (hresolves.near ⟨"beyond", 0x700, 2⟩ (by simp) (by decide)).trans (by decide +kernel)
  · rw [hresolves.exact_iff ⟨"far", 2 ^ 31, 3⟩ (by simp) (by decide)]
    decide
  · exact hresolves.unbound "nowhere" (by simp)

/-- A label `2 ^ 32` instructions above the load base is given the load base itself as its
address. -/
theorem far_label_resolves :
    (history {} [⟨"a", 2 ^ 32, 1⟩]).2 = [⟨"a", 2 ^ 32, 1⟩] ∧
    ({} : Target).offset (2 ^ 32) < UInt64.size ∧
    ({} : Target).memorySize.toNat ≤ exactAddress {} (2 ^ 32) ∧
    (history {} [⟨"a", 2 ^ 32, 1⟩]).1.address {} "JP" "a" = .ok 0x200 ∧
    (Checked.address {} (history {} [⟨"a", 2 ^ 32, 1⟩]).1 "JP" "a").run = some (.ok 0x200) ∧
    ¬Exact {} "JP" (2 ^ 32)
      (Checked.address {} (history {} [⟨"a", 2 ^ 32, 1⟩]).1 "JP" "a").run := by
  have haddress : (Checked.address {} (history {} [⟨"a", 2 ^ 32, 1⟩]).1 "JP" "a").run =
      some (.ok 0x200) := by
    decide +kernel
  refine ⟨by decide +kernel, by decide, by decide, address_of_checked haddress, haddress, ?_⟩
  rw [haddress, exact_ok_iff]
  decide

end Chip8.Proofs
