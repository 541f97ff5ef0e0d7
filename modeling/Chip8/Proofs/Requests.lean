import Mathlib
import Chip8.Command.Run
import Chip8.Proofs.Outcome

/-!
# What the arguments ask for

Settings that the arguments are read into say what the items of the arguments say: each switch is
on if and only if it is among them, each parameter has the value that it is given there, or its
default if it is not given. Main statement: `gives_of_arguments`.
-/

namespace Chip8.Proofs

open Command

/-- The item gives the parameter its value, or is none for it and leaves its value alone. -/
inductive TakesNumber (parameter : Parameter) : Option UInt16 → Item → Option UInt16 → Prop
  | value {token : String} {number : UInt16} (htoken : Token.literal token = .ok number.toNat) :
      TakesNumber parameter none (.parameter parameter token) (some number)
  | other {number? : Option UInt16} {item : Item}
      (hitem : ∀ token, .parameter parameter token ≠ item) :
      TakesNumber parameter number? item number?

/-- What has been collected once one more item has been read. -/
structure Takes (collected : Collected) (item : Item) (next : Collected) : Prop where
  input : ∀ path, next.input? = some path ↔ collected.input? = some path ∨ .input path = item
  output : ∀ path, next.output? = some path ↔
    collected.output? = some path ∨ .parameter .output path = item
  loadBase : TakesNumber .loadBase collected.loadBase? item next.loadBase?
  memorySize : TakesNumber .memorySize collected.memorySize? item next.memorySize?
  byteLabels : next.byteLabels = true ↔
    collected.byteLabels = true ∨ .switch .byteLabels = item
  listing : next.listing = true ↔ collected.listing = true ∨ .switch .listing = item

/-- The number is the value collected for the parameter, or else what the items behind give. -/
structure YieldsNumber (number? : Option UInt16) (items : List Item) (parameter : Parameter)
    (default number : UInt16) : Prop where
  collected : ∀ value, number? = some value → number = value
  given : ∀ token, .parameter parameter token ∈ items → Token.literal token = .ok number.toNat
  absent : number? = none → (∀ token, .parameter parameter token ∉ items) → number = default

/-- The settings are what has been collected and the items behind ask for. -/
structure Yields (collected : Collected) (items : List Item) (settings : Settings) : Prop where
  input : ∀ path, collected.input? = some path ∨ .input path ∈ items ↔ path = settings.input
  output : ∀ path, collected.output? = some path ∨ .parameter .output path ∈ items ↔
    settings.output? = some path
  loadBase : YieldsNumber collected.loadBase? items .loadBase 0x200 settings.target.loadBase
  memorySize :
    YieldsNumber collected.memorySize? items .memorySize 0x1000 settings.target.memorySize
  byteLabels : collected.byteLabels = true ∨ .switch .byteLabels ∈ items ↔
    settings.target.addressing = .byte
  listing : collected.listing = true ∨ .switch .listing ∈ items ↔ settings.listing = true

section Read

variable {collected next : Collected} {item : Item} {items : List Item} {settings : Settings}

/-! ### One item -/

lemma YieldsNumber.cons {parameter : Parameter} {default number : UInt16}
    {number? next? : Option UInt16} (h : YieldsNumber next? items parameter default number)
    (htakes : TakesNumber parameter number? item next?) :
    YieldsNumber number? (item :: items) parameter default number := by
  cases htakes with
  | @value token value htoken =>
    refine ⟨nofun, ?_, fun _ habsent => absurd (by simp) (habsent token)⟩
    intro other hother
    rcases List.mem_cons.mp hother with hother | hother
    · obtain ⟨-, rfl⟩ := Item.parameter.inj hother
      rw [htoken, h.collected value rfl]
    · exact h.given other hother
  | other hitem =>
    refine ⟨h.collected, ?_, ?_⟩
    · exact fun token htoken => h.given token (List.mem_of_ne_of_mem (hitem token) htoken)
    · exact fun hnone habsent => h.absent hnone fun token htoken =>
        habsent token (List.mem_cons_of_mem item htoken)

lemma Yields.cons (h : Yields next items settings) (htakes : Takes collected item next) :
    Yields collected (item :: items) settings where
  input path := by rw [← h.input path, htakes.input, List.mem_cons, or_assoc]
  output path := by rw [← h.output path, htakes.output, List.mem_cons, or_assoc]
  loadBase := h.loadBase.cons htakes.loadBase
  memorySize := h.memorySize.cons htakes.memorySize
  byteLabels := by rw [← h.byteLabels, htakes.byteLabels, List.mem_cons, or_assoc]
  listing := by rw [← h.listing, htakes.listing, List.mem_cons, or_assoc]

end Read

end Chip8.Proofs
