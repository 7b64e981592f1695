import Mathlib
import Metrology.Proofs.Family

/-!
# Metrology.Proofs.Family.Conversion -- conversion goes by multipliers, not by names

What is converted depends on the names only through their multipliers. That is so although a name is
never looked up against itself: the value that is then left alone is the value times the ratio of
the multiplier to itself (`Chart.convert_eq`). So a name can be put in the place of any other one
with the same multiplier, on either side, and a chain of conversions comes to the direct one
whichever of its names are the same text.
-/

namespace Metrology

namespace Chart

section

variable {α : Type} [Mul α] [Div α] {chart : Chart α} {source target : String}

/-- A conversion fails when it has to look up a name that is unknown. -/
theorem exists_convert_eq_error_iff (value : α) :
    (∃ e, chart.convert value source target = .error e) ↔
      source ≠ target ∧ (chart.has source = false ∨ chart.has target = false) := by
  have hfails : (∃ e, chart.convert value source target = .error e) ↔
      ¬ ∃ x, chart.convert value source target = .ok x := by
    cases chart.convert value source target <;> simp
  rw [hfails, exists_convert_iff, not_or, not_and_or, Bool.not_eq_true, Bool.not_eq_true]

end

section Field

variable {K : Type} [Field K] {chart : Chart K} {first second : String}

/-- What is converted there and back is what it was. -/
theorem convert_back (h₁ : chart.Scales first) (h₂ : chart.Scales second) (value : K) :
    ∃ x, chart.convert value first second = .ok x ∧ chart.convert x second first = .ok value := by
  obtain ⟨x, y, hx, hy, hdirect⟩ := convert_convert h₁ h₂ h₁.has value
  rw [convert_self] at hdirect
  cases hdirect
  exact ⟨x, hx, hy⟩

/-- Names with the same multipliers are converted alike. -/
theorem convert_congr (h₁ : chart.Scales first) (h₂ : chart.has second = true)
    {first' second' : String} (hfirst : chart.multiplier? first' = chart.multiplier? first)
    (hsecond : chart.multiplier? second' = chart.multiplier? second) (value : K) :
    chart.convert value first' second' = chart.convert value first second := by
  obtain ⟨m, hm, hm0⟩ := h₁
  obtain ⟨n, hn⟩ := has_iff.mp h₂
  rw [convert_eq (hfirst.trans hm) hm0 (hsecond.trans hn), convert_eq hm hm0 hn]

end Field

/-- **Conversion does not depend on the path, and can be undone.** Whatever the numbers, a
conversion fails exactly when its names are different texts and one of them is unknown. Where
product and quotient are those of a field and the names have multipliers other than zero, converting
to a second unit and from there to a third is converting to the third; converting there and back
changes nothing; and what comes out is the value times the ratio of the two multipliers. So any
names with these multipliers give the same, also where an alias makes the two names one text or
takes them apart. -/
theorem convert_path_independent :
    (∀ {α : Type} [Mul α] [Div α] (chart : Chart α) (value : α) (source target : String),
      (∃ e, chart.convert value source target = .error e) ↔
        source ≠ target ∧ (chart.has source = false ∨ chart.has target = false)) ∧
    ∀ {K : Type} [Field K] (chart : Chart K) (first second third : String),
      chart.Scales first → chart.Scales second → chart.Scales third → ∀ value : K,
        (∃ x y, chart.convert value first second = .ok x ∧
          chart.convert x second third = .ok y ∧ chart.convert value first third = .ok y) ∧
        (∃ x, chart.convert value first second = .ok x ∧
          chart.convert x second first = .ok value) ∧
        (∀ m n, chart.multiplier? first = some m → chart.multiplier? second = some n →
          chart.convert value first second = .ok (value * (n / m))) ∧
        ∀ first' second', chart.multiplier? first' = chart.multiplier? first →
          chart.multiplier? second' = chart.multiplier? second →
          chart.convert value first' second' = chart.convert value first second := by
  refine ⟨fun chart value source target => exists_convert_eq_error_iff value, ?_⟩
  intro K _ chart first second third h₁ h₂ h₃ value
  refine ⟨convert_convert h₁ h₂ h₃.has value, convert_back h₁ h₂ value, ?_, ?_⟩
  · intro m n hm hn
    obtain ⟨m', hm', hm0⟩ := h₁
    rw [hm] at hm'
    cases hm'
    exact convert_eq hm hm0 hn value
  · intro first' second' hfirst hsecond
    exact convert_congr h₁ h₂.has hfirst hsecond value

/-- From an alias to its own unit, where the names are two texts with one multiplier. -/
theorem convert_path_independent_pound :
    let units : Table ℚ := .ofList [("g", 1), ("lb", 454)]
    let aliases : Table String := .ofList [("pound", "lb")]
    let family : Family ℚ := .make "mass" "g" "" units aliases []
    let chart : Chart ℚ := ⟨family, units, aliases⟩
    family.chart = .ok chart ∧ chart.Scales "pound" ∧ chart.Scales "lb" ∧ chart.Scales "g" ∧
      chart.convert 3 "pound" "lb" = .ok 3 ∧ chart.convert 3 "lb" "lb" = .ok 3 ∧
      ∃ x, chart.convert 3 "pound" "g" = .ok x ∧ chart.convert 3 "lb" "g" = .ok x ∧
        chart.convert x "g" "pound" = .ok 3 := by
  intro units aliases family chart
  have hpound : chart.multiplier? "pound" = some 454 := by decide +kernel
  have hlb : chart.multiplier? "lb" = some 454 := by decide +kernel
  have hg : chart.multiplier? "g" = some 1 := by decide +kernel
  have hpound' : chart.Scales "pound" := ⟨454, hpound, by norm_num⟩
  have hlb' : chart.Scales "lb" := ⟨454, hlb, by norm_num⟩
  have hg' : chart.Scales "g" := ⟨1, hg, one_ne_zero⟩
  obtain ⟨-, -, hratio, hcongr⟩ :=
    convert_path_independent.2 chart "pound" "lb" "g" hpound' hlb' hg' 3
  obtain ⟨-, ⟨x, hx, hback⟩, -, hunit⟩ :=
    convert_path_independent.2 chart "pound" "g" "lb" hpound' hg' hlb' 3
  have hself : chart.convert 3 "pound" "lb" = .ok 3 := by
    rw [hratio 454 454 hpound hlb]
    norm_num
  refine ⟨by decide +kernel, hpound', hlb', hg', hself, ?_, x, hx, ?_, hback⟩
  · rw [hcongr "lb" "lb" (hlb.trans hpound.symm) rfl, hself]
  · rw [hunit "lb" "g" (hlb.trans hpound.symm) rfl, hx]

end Chart

end Metrology
