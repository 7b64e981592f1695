import Mathlib

/-!
# Metrology.Proofs.Result -- taking apart a computation that can fail

Reading, building and operating all give an `Except`, and are put together by binding and mapping.
A composite that succeeds is opened with the lemmas here, which name the intermediate results; a
test that refuses in one of its cases was passed in the other.

Two computations are compared by what is seen of their results through a function on the errors and
one on the values (`through`). Sequences look the same when their parts do (`through_bind`).
-/

namespace Metrology

namespace Result

variable {ε α β : Type}

/-- A sequence of two computations succeeds when both do. -/
theorem bind_eq_ok {x : Except ε α} {f : α → Except ε β} {b : β} (h : x >>= f = .ok b) :
    ∃ a, x = .ok a ∧ f a = .ok b := by
  cases x with
  | error e => cases h
  | ok a => exact ⟨a, rfl, h⟩

theorem map_eq_ok {x : Except ε α} {f : α → β} {b : β} (h : x.map f = .ok b) :
    ∃ a, x = .ok a ∧ f a = b := by
  cases x with
  | error e => cases h
  | ok a => cases h; exact ⟨a, rfl, rfl⟩

/-- What stands behind a refusal succeeds when the refusal does not apply. -/
theorem refusal_eq_ok_iff {c : Prop} [Decidable c] {e : ε} {x : Except ε α} {a : α} :
    (if c then .error e else x) = .ok a ↔ ¬ c ∧ x = .ok a := by
  by_cases h : c <;> simp [h]

theorem choice_eq_ok_iff {c : Prop} [Decidable c] {e : ε} {a b : α} :
    (if c then .ok b else .error e) = Except.ok a ↔ c ∧ b = a := by
  by_cases h : c <;> simp [h]

/-! ## Seeing a part of a result -/

section Through

variable {δ γ : Type} {f : ε → δ} {g : α → γ}

/-- What is seen of a result: its error through one function, its value through another. -/
def through (f : ε → δ) (g : α → γ) : Except ε α → Except δ γ
  | .error e => .error (f e)
  | .ok a => .ok (g a)

@[simp] theorem through_error (e : ε) : through f g (.error e) = .error (f e) := rfl

@[simp] theorem through_ok (a : α) : through f g (.ok a) = .ok (g a) := rfl

/-- Results look the same with their errors in full when both are one error, or values that look the
same. -/
theorem through_id_eq_iff {x y : Except ε α} :
    through id g x = through id g y ↔
      (∃ e, x = .error e ∧ y = .error e) ∨ ∃ a b, x = .ok a ∧ y = .ok b ∧ g a = g b := by
  cases x <;> cases y <;> simp [eq_comm]

/-- Sequences look the same when their first parts do, and their second parts do after values that
look the same. -/
theorem through_bind {x y : Except ε α} {k l : α → Except ε β} {γ' : Type} {h : β → γ'}
    (hxy : through f g x = through f g y)
    (hkl : ∀ a b, g a = g b → through f h (k a) = through f h (l b)) :
    through f h (x >>= k) = through f h (y >>= l) := by
  cases x with
  | error e =>
    cases y with
    | error e' =>
      rw [through_error, through_error, Except.error.injEq] at hxy
      exact congrArg Except.error hxy
    | ok b => cases hxy
  | ok a =>
    cases y with
    | error e' => cases hxy
    | ok b =>
      rw [through_ok, through_ok, Except.ok.injEq] at hxy
      exact hkl a b hxy

theorem through_map {x y : Except ε α} {k l : α → β} {γ' : Type} {h : β → γ'}
    (hxy : through f g x = through f g y) (hkl : ∀ a b, g a = g b → h (k a) = h (l b)) :
    through f h (x.map k) = through f h (y.map l) :=
  through_bind hxy fun a b hab => congrArg Except.ok (hkl a b hab)

end Through

end Result

end Metrology
