import Mathlib
import Metrology.Family.Basic
import Metrology.Proofs.Result

/-!
# Metrology.Proofs.Family -- conversion within a family

Whether a conversion fails is a matter of the two names: it succeeds where they are the same text,
known or not, and where both have a multiplier (`exists_convert_iff`). The value has no part in it,
and none in which of the two names is at fault (`through_convert`).

Where product and quotient are those of a field, a conversion between known names is by the ratio of
their multipliers, as long as the one that is divided by is not zero (`convert_eq`). The names may
be the same text, where the value is left alone and nothing is looked up. So a conversion by way of
a third unit comes to the direct one (`convert_convert`).
-/

namespace Metrology

open Result (through)

namespace Chart

section

variable {α : Type} {chart : Chart α} {name source target : String}

theorem has_iff : chart.has name = true ↔ ∃ m, chart.multiplier? name = some m :=
  Option.isSome_iff_exists

variable [Mul α] [Div α]

theorem convert_self (value : α) (unit : String) : chart.convert value unit unit = .ok value :=
  if_pos rfl

theorem convert_of_ne (h : source ≠ target) {m n : α} (hm : chart.multiplier? source = some m)
    (hn : chart.multiplier? target = some n) (value : α) :
    chart.convert value source target = .ok (value * (n / m)) := by
  simp only [convert, if_neg h, multiplier, hm, hn]
  rfl

theorem exists_convert_iff (value : α) :
    (∃ x, chart.convert value source target = .ok x) ↔
      source = target ∨ (chart.has source = true ∧ chart.has target = true) := by
  by_cases h : source = target
  · subst h
    exact iff_of_true ⟨value, convert_self value source⟩ (.inl rfl)
  · simp only [convert, multiplier, has, h, false_or]
    cases chart.multiplier? source <;> cases chart.multiplier? target <;> simp [Except.map]

/-- Values converted between the same units fail alike. -/
theorem through_convert (value value' : α) :
    through id (fun _ => ()) (chart.convert value source target) =
      through id (fun _ => ()) (chart.convert value' source target) := by
  by_cases h : source = target
  · simp only [convert, if_pos h, Result.through_ok]
  · simp only [convert, if_neg h]
    cases chart.multiplier source with
    | error e => rfl
    | ok m => cases chart.multiplier target <;> rfl

end

/-! ## Exact conversion -/

section Field

variable {K : Type} [Field K] {chart : Chart K} {first second third : String}

/-- Whether a name has a multiplier that can be divided by. -/
def Scales (chart : Chart K) (name : String) : Prop :=
  ∃ m, chart.multiplier? name = some m ∧ m ≠ 0

theorem Scales.has (h : chart.Scales first) : chart.has first = true := by
  obtain ⟨m, hm, -⟩ := h
  exact has_iff.mpr ⟨m, hm⟩

/-- Between known names the value is multiplied by the ratio of the multipliers. That holds for a
name and itself too, where nothing is looked up: the ratio is one. -/
theorem convert_eq {m n : K} (hm : chart.multiplier? first = some m) (hm0 : m ≠ 0)
    (hn : chart.multiplier? second = some n) (value : K) :
    chart.convert value first second = .ok (value * (n / m)) := by
  by_cases h : first = second
  · subst h
    rw [hm] at hn
    cases hn
    rw [convert_self, div_self hm0, mul_one]
  · exact convert_of_ne h hm hn value

/-- A conversion in two steps is the conversion in one. -/
theorem convert_convert (h₁ : chart.Scales first) (h₂ : chart.Scales second)
    (h₃ : chart.has third = true) (value : K) :
    ∃ x y, chart.convert value first second = .ok x ∧ chart.convert x second third = .ok y ∧
      chart.convert value first third = .ok y := by
  obtain ⟨l, hl, hl0⟩ := h₁
  obtain ⟨m, hm, hm0⟩ := h₂
  obtain ⟨n, hn⟩ := has_iff.mp h₃
  refine ⟨value * (m / l), value * (n / l), convert_eq hl hl0 hm value, ?_,
    convert_eq hl hl0 hn value⟩
  rw [convert_eq hm hm0 hn]
  congr 1
  field_simp

end Field

end Chart

end Metrology
