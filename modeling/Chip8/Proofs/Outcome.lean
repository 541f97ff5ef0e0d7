import Mathlib
import Chip8.Fault

/-!
# Computations that can fail

When a chain of steps, each of which can fail, succeeds or fails: every step has to succeed, and the
first one that does not decides. Two chains whose steps are alike are alike.
-/

namespace Chip8.Proofs

variable {ε α β : Type}

lemma bind_eq_ok_iff {x : Except ε α} {f : α → Except ε β} {b : β} :
    (x >>= f) = .ok b ↔ ∃ a, x = .ok a ∧ f a = .ok b := by
  cases x with
  | error e => simp [bind, Except.bind]
  | ok a => simp [bind, Except.bind]

lemma bind_eq_error_iff {x : Except ε α} {f : α → Except ε β} {e : ε} :
    (x >>= f) = .error e ↔ x = .error e ∨ ∃ a, x = .ok a ∧ f a = .error e := by
  cases x with
  | error e' => simp [bind, Except.bind]
  | ok a => simp [bind, Except.bind]

lemma map_eq_ok_iff {x : Except ε α} {f : α → β} {b : β} :
    x.map f = .ok b ↔ ∃ a, x = .ok a ∧ f a = b := by
  cases x with
  | error e => simp [Except.map]
  | ok a => simp [Except.map]

lemma map_eq_error_iff {x : Except ε α} {f : α → β} {e : ε} :
    x.map f = .error e ↔ x = .error e := by
  cases x with
  | error e' => simp [Except.map]
  | ok a => simp [Except.map]

lemma map_bind {γ : Type} {x : Except ε α} {f : α → Except ε β} {g : β → γ} :
    (x >>= f).map g = x >>= fun a => (f a).map g := by
  cases x <;> rfl

lemma mapError_eq_ok_iff {ε' : Type} {x : Except ε α} {f : ε → ε'} {a : α} :
    x.mapError f = .ok a ↔ x = .ok a := by
  cases x with
  | error e => simp [Except.mapError]
  | ok a' => simp [Except.mapError]

lemma mapError_eq_error_iff {ε' : Type} {x : Except ε α} {f : ε → ε'} {e : ε'} :
    x.mapError f = .error e ↔ ∃ e', x = .error e' ∧ f e' = e := by
  cases x with
  | error e' => simp [Except.mapError]
  | ok a => simp [Except.mapError]

theorem mapM_eq_ok_iff {f : α → Except ε β} {l : List α} {r : List β} :
    l.mapM f = .ok r ↔ List.Forall₂ (fun a b => f a = .ok b) l r := by
  induction l generalizing r with
  | nil => simp [List.mapM_nil, pure, Except.pure, eq_comm]
  | cons a l ih =>
    rw [List.mapM_cons, bind_eq_ok_iff, List.forall₂_cons_left_iff]
    simp only [bind_eq_ok_iff, pure, Except.pure, Except.ok.injEq, ih]
    constructor
    · rintro ⟨b, hb, r', hr, rfl⟩
      exact ⟨b, r', hb, hr, rfl⟩
    · rintro ⟨b, r', hb, hr, rfl⟩
      exact ⟨b, hb, r', hr, rfl⟩

theorem mapM_eq_error_iff {f : α → Except ε β} {l : List α} {e : ε} :
    l.mapM f = .error e ↔ ∃ before a after, l = before ++ a :: after ∧
      (∀ b ∈ before, ∃ c, f b = .ok c) ∧ f a = .error e := by
  induction l with
  | nil => simp [List.mapM_nil, pure, Except.pure]
  | cons a l ih =>
    simp only [List.mapM_cons, bind_eq_error_iff, pure, Except.pure, reduceCtorEq, and_false,
      exists_false, or_false, ih]
    constructor
    · rintro (ha | ⟨b, hb, before, a', after, rfl, hbefore, ha'⟩)
      · exact ⟨[], a, l, rfl, by simp, ha⟩
      · refine ⟨a :: before, a', after, rfl, ?_, ha'⟩
        intro x hx
        rcases List.mem_cons.mp hx with rfl | hx
        · exact ⟨b, hb⟩
        · exact hbefore x hx
    · rintro ⟨before, a', after, hl, hbefore, ha'⟩
      cases before with
      | nil =>
        obtain ⟨rfl, rfl⟩ := List.cons.inj hl
        exact Or.inl ha'
      | cons b before =>
        obtain ⟨rfl, rfl⟩ := List.cons.inj hl
        obtain ⟨c, hc⟩ := hbefore a (by simp)
        exact Or.inr ⟨c, hc, before, a', after, rfl, fun x hx => hbefore x (by simp [hx]), ha'⟩

/-! ### Computations with a state -/

section State

variable {σ : Type}

lemma run_get_bind (f : σ → ExceptT ε (StateM σ) α) (state : σ) :
    (get >>= f).run.run state = (f state).run.run state := rfl

lemma run_ok_bind (a : α) (f : α → ExceptT ε (StateM σ) β) (state : σ) :
    (liftM (.ok a : Except ε α) >>= f).run.run state = (f a).run.run state := rfl

lemma run_error_bind (e : ε) (f : α → ExceptT ε (StateM σ) β) (state : σ) :
    (liftM (.error e : Except ε α) >>= f).run.run state = (.error e, state) := rfl

end State

/-! ### Checks and line numbers -/

section Checks

variable {condition : Prop} [Decidable condition] {cause : Cause}

lemma require_eq_ok_iff : require condition cause = .ok () ↔ condition := by
  simp [require]

lemma require_eq_error_iff {other : Cause} :
    require condition cause = .error other ↔ ¬condition ∧ other = cause := by
  by_cases h : condition <;> simp [require, h, eq_comm]

end Checks

lemma atLine_eq_ok_iff {line : Nat} {result : Except Cause α} {value : α} :
    atLine line result = .ok value ↔ result = .ok value := by
  cases result <;> simp [atLine]

lemma atLine_eq_error_iff {line : Nat} {result : Except Cause α} {fault : Fault} :
    atLine line result = .error fault ↔
      ∃ cause, result = .error cause ∧ fault = .source line cause := by
  cases result <;> simp [atLine, eq_comm]

/-! ### Two computations side by side -/


/-- Both computations succeed with related results, or both fail with related errors. -/
inductive Alike {ε ε' α β : Type} (E : ε → ε' → Prop) (R : α → β → Prop) :
    Except ε α → Except ε' β → Prop
  | ok {a : α} {b : β} (h : R a b) : Alike E R (.ok a) (.ok b)
  | error {e : ε} {e' : ε'} (h : E e e') : Alike E R (.error e) (.error e')

section Alike

variable {ε' γ δ : Type} {E : ε → ε' → Prop} {R : α → β → Prop} {S : γ → δ → Prop}
  {x : Except ε α} {y : Except ε' β}

lemma Alike.refl {E : ε → ε → Prop} {R : α → α → Prop} (herror : ∀ e, E e e) (hok : ∀ a, R a a)
    (x : Except ε α) : Alike E R x x := by
  cases x with
  | ok a => exact .ok (hok a)
  | error e => exact .error (herror e)

lemma Alike.imp {F : ε → ε' → Prop} {T : α → β → Prop} (h : Alike E R x y)
    (herror : ∀ e e', E e e' → F e e') (hok : ∀ a b, R a b → T a b) : Alike F T x y := by
  cases h with
  | ok h => exact .ok (hok _ _ h)
  | error h => exact .error (herror _ _ h)

lemma Alike.bind {f : α → Except ε γ} {g : β → Except ε' δ} (h : Alike E R x y)
    (hrest : ∀ a b, R a b → Alike E S (f a) (g b)) : Alike E S (x >>= f) (y >>= g) := by
  cases h with
  | ok h => exact hrest _ _ h
  | error h => exact .error h

lemma Alike.map {f : α → γ} {g : β → δ} (h : Alike E R x y)
    (hmap : ∀ a b, R a b → S (f a) (g b)) : Alike E S (x.map f) (y.map g) := by
  cases h with
  | ok h => exact .ok (hmap _ _ h)
  | error h => exact .error h

lemma Alike.exists_of_ok {a : α} (h : Alike E R (.ok a) y) : ∃ b, y = .ok b ∧ R a b := by
  generalize hx : Except.ok a = x at h
  cases h with
  | ok h => exact ⟨_, rfl, Except.ok.inj hx ▸ h⟩
  | error h => simp at hx

lemma Alike.exists_of_error {e : ε} (h : Alike E R (.error e) y) :
    ∃ e', y = .error e' ∧ E e e' := by
  generalize hx : Except.error e = x at h
  cases h with
  | ok h => simp at hx
  | error h => exact ⟨_, rfl, Except.error.inj hx ▸ h⟩

theorem mapM_alike {f : α → Except ε γ} {g : β → Except ε' δ} {l : List α} {r : List β}
    (h : List.Forall₂ (fun a b => Alike E S (f a) (g b)) l r) :
    Alike E (List.Forall₂ S) (l.mapM f) (r.mapM g) := by
  induction h with
  | nil => exact .ok .nil
  | cons hhead _ ih =>
    rw [List.mapM_cons, List.mapM_cons]
    exact hhead.bind fun c d hcd => ih.bind fun cs ds hrest => .ok (.cons hcd hrest)

end Alike

end Chip8.Proofs
