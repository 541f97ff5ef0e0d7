import Mathlib
import Chip8.Proofs.Passes

/-!
# Two runs of the assembler

Two sources are read in step: as long as their lines are accepted or refused together, so are the
sources. `addLines_alike` carries a relation on drafts through the first pass, `link_alike` one on
instructions through the second.
-/

namespace Chip8

/-- What kind of fault it is, whatever words and numbers it names. -/
inductive FaultKind where
  | badTarget | badRegister | badLiteral | tooWide | arity | unknownMnemonic | unresolvedLabel
  | addressOutOfRange | duplicateLabel | badLabelName | trailingLabel | notFirst | stackNotReady
  | tooManyRegisters
deriving DecidableEq

def Cause.kind : Cause → FaultKind
  | .operand _ (.badRegister _) => .badRegister
  | .operand _ (.badLiteral _) => .badLiteral
  | .operand _ (.tooWide _ _) => .tooWide
  | .arity _ _ _ => .arity
  | .unknownMnemonic _ => .unknownMnemonic
  | .unresolvedLabel _ _ => .unresolvedLabel
  | .addressOutOfRange _ _ _ => .addressOutOfRange
  | .duplicateLabel _ _ => .duplicateLabel
  | .badLabelName _ => .badLabelName
  | .trailingLabel _ => .trailingLabel
  | .notFirst _ => .notFirst
  | .stackNotReady _ => .stackNotReady
  | .tooManyRegisters _ _ => .tooManyRegisters

def Fault.kind : Fault → FaultKind
  | .target _ => .badTarget
  | .source _ cause => cause.kind

end Chip8

namespace Chip8.Proofs

/-- The causes are of one kind. -/
def SameKind (first second : Cause) : Prop :=
  first.kind = second.kind

/-- The faults are of one kind and on one line. -/
structure SameFault (first second : Fault) : Prop where
  kind : first.kind = second.kind
  line : first.line? = second.line?

lemma SameFault.refl (fault : Fault) : SameFault fault fault :=
  ⟨rfl, rfl⟩

lemma SameKind.refl (cause : Cause) : SameKind cause cause :=
  rfl

lemma SameKind.alike_self {α : Type} (x : Except Cause α) : Alike SameKind Eq x x :=
  Alike.refl SameKind.refl (fun _ => rfl) x

lemma SameKind.sameFault {first second : Cause} (h : SameKind first second) (line : Nat) :
    SameFault (.source line first) (.source line second) :=
  ⟨h, rfl⟩

lemma Alike.atLine {α β : Type} {C : Cause → Cause → Prop} {E : Fault → Fault → Prop}
    {R : α → β → Prop} {x : Except Cause α} {y : Except Cause β} {line place : Nat}
    (h : Alike C R x y)
    (hcause : ∀ first second, C first second → E (.source line first) (.source place second)) :
    Alike E R (Chip8.atLine line x) (Chip8.atLine place y) := by
  cases h with
  | ok h => exact .ok h
  | error h => exact .error (hcause _ _ h)

section Runs

variable {E : Fault → Fault → Prop} {D : Draft → Draft → Prop} {target : Target}
  {draft copy : Draft}

/-! ### The first pass -/

/-- Sources whose lines keep the drafts related are read alike. The numbers of the second lines may
be greater by a constant. -/
theorem addLines_alike {P : String → String → Prop} {texts others : List String} {line gap : Nat}
    (hlines : List.Forall₂ P texts others)
    (hline : ∀ number text other draft copy, line ≤ number → number < line + texts.length →
      P text other → D draft copy →
      Alike E D (draft.addLine number text) (copy.addLine (number + gap) other))
    (h : D draft copy) :
    Alike E D (draft.addLines line texts) (copy.addLines (line + gap) others) := by
  induction hlines generalizing line draft copy with
  | nil => exact .ok h
  | @cons text other texts others hpair _ ih =>
    have hfirst := hline line text other draft copy le_rfl (by simp) hpair h
    unfold Draft.addLines
    revert hfirst
    generalize draft.addLine line text = result, copy.addLine (line + gap) other = result'
    intro hfirst
    cases hfirst with
    | error hfault => exact .error hfault
    | ok hnext =>
      rw [Nat.add_right_comm]
      refine ih ?_ hnext
      intro number text other draft copy hlow hhigh
      exact hline number text other draft copy (by omega) (by rw [List.length_cons]; omega)

theorem scan_alike {P : String → String → Prop} {lines others : List String}
    (hlines : List.Forall₂ P lines others)
    (hline : ∀ number text other draft copy, P text other → D draft copy →
      Alike E D (draft.addLine number text) (copy.addLine number other))
    (h : D (Draft.new target) (Draft.new target)) :
    Alike E D (scan target lines) (scan target others) := by
  have hstep : ∀ number text other draft copy, 1 ≤ number → number < 1 + lines.length →
      P text other → D draft copy →
      Alike E D (draft.addLine number text) (copy.addLine (number + 0) other) :=
    fun number text other draft copy _ _ => hline number text other draft copy
  exact addLines_alike hlines hstep h

/-! ### The second pass -/

lemma trailing?_map {g : Binding → Binding} (hindex : ∀ label, (g label).index = label.index)
    (hlast : copy.lastLabel = draft.lastLabel.map g) (hsize : copy.code.size = draft.code.size) :
    copy.trailing? = draft.trailing?.map g := by
  unfold Draft.trailing?
  rw [hlast, hsize]
  cases draft.lastLabel with
  | none => rfl
  | some label =>
    rw [Option.map_some, Option.filter_some, Option.filter_some, hindex]
    split <;> rfl

theorem link_alike {P : Instruction → Instruction → Prop} {R : Entry → Entry → Prop}
    {base : UInt16} {table names : SymbolTable} {code again : List Instruction}
    (hcode : List.Forall₂ P code again)
    (hentry : ∀ index first second, P first second →
      Alike E R (Program.entry base target table index first)
        (Program.entry base target names index second)) :
    Alike E (fun program other => List.Forall₂ R program.entries other.entries)
      (Program.link base target table code) (Program.link base target names again) := by
  have hlocated : ∀ start, List.Forall₂ (fun located other => Alike E R
      (Program.entry base target table located.2 located.1)
      (Program.entry base target names other.2 other.1))
      (code.zipIdx start) (again.zipIdx start) := by
    induction hcode with
    | nil => exact fun _ => .nil
    | cons hpair _ ih =>
      intro start
      rw [List.zipIdx_cons, List.zipIdx_cons]
      exact .cons (hentry start _ _ hpair) (ih (start + 1))
  exact (mapM_alike (hlocated 0)).map fun _ _ hentries => hentries

lemma finish_alike {R : Program → Program → Prop} {g : Binding → Binding}
    (htrailing : copy.trailing? = draft.trailing?.map g)
    (hfault : ∀ label : Binding, E (.source label.line (.trailingLabel label.name))
      (.source (g label).line (.trailingLabel (g label).name)))
    (hlink : Alike E R (Program.link target.loadBase target draft.table draft.code.toList)
      (Program.link target.loadBase target copy.table copy.code.toList)) :
    Alike E R (draft.finish target) (copy.finish target) := by
  unfold Draft.finish
  rw [htrailing]
  cases draft.trailing? with
  | none => exact hlink
  | some label => exact .error (hfault label)

/-! ### Both passes -/

theorem assemble_alike {R : Program → Program → Prop} {lines others : List String}
    (htarget : ∀ fault, E (.target fault) (.target fault))
    (hscan : Alike E D (scan target lines) (scan target others))
    (hfinish : ∀ draft copy, D draft copy → Alike E R (draft.finish target) (copy.finish target)) :
    Alike E R (assemble target lines) (assemble target others) := by
  cases hfault : target.fault? with
  | some fault =>
    unfold assemble
    rw [hfault]
    exact .error (htarget fault)
  | none =>
    rw [assemble_of_accepted hfault, assemble_of_accepted hfault]
    exact hscan.bind hfinish

end Runs

end Chip8.Proofs
