import Mathlib
import Metrology.Proofs.Expression.Grammar
import Metrology.Proofs.Family
import Metrology.Proofs.Quantity.Normal
import Metrology.Proofs.Units.Bounded

/-!
# Metrology.Proofs.Quantity.Family -- quantities of a family

A quantity is built in a unit of a family along two ways that do not meet: its value goes to the
standard unit through the multipliers, and its units come from the standard expression. Reading a
value off compares the units with the same expression and goes from the standard unit through the
multipliers again. So for a family whose standard expression is read, whatever is built in it can be
read off in it (`exists_ofFamily_valueIn`), and the two conversions on the way are the direct one
(`Chart.convert_convert`).

A quantity that was come by otherwise is refused for its units exactly when the comparison says so
(`exists_valueIn_eq_mismatch_iff`), which for whole exponents is a comparison of vectors
(`sameDimensions_standard_iff`). It is refused for a name exactly when the units agree and one of
the two names has to be looked up and is not there (`exists_valueIn_eq_conversion_iff`).
-/

namespace Metrology

/-- What a family measures: its standard expression is read as the given units, and no sum of
exponents in it leaves the range where whole numbers are exact. The sums are those on the way, since
one that leaves the range and comes back has been rounded. -/
structure Family.Measures {α : Type} (family : Family α) (standard : Units) : Prop where
  parse : Units.parse family.standardExpression = .ok standard
  sums : ∀ d, d ≠ .reciprocal → standard.SumsWithin d

/-- No sum leaves the range in an expression of up to four million factors. -/
theorem Family.measures_of_parse {α : Type} {family : Family α} {standard : Units}
    (h : Units.parse family.standardExpression = .ok standard)
    (hlength : standard.length ≤ 2 ^ 22) : family.Measures standard where
  parse := h
  sums := by
    intro d _
    have hsize : ∀ t ∈ standard, t.exponent.toInt.natAbs ≤ 2 ^ 31 := by
      intro t ht
      obtain ⟨z, hz, hholds⟩ := Expression.exists_holds_of_parse h ht
      rw [hholds.toInt_eq]
      exact hz
    have hload := Units.load_le_mul_length hsize d
    exact Units.sumsWithin_of_load (by omega)

namespace Quantity

section

variable {α : Type} {chart : Chart α} {standard : Units} {q : Quantity α} {unit : String}

/-! ## Units of the standard -/

theorem carries_standard (h : chart.family.Measures standard) {d : Dimension}
    (hd : d ≠ .reciprocal) : standard.normalize.Carries d (standard.order d) := by
  refine Units.carries_normalize hd ?_ (h.sums d hd)
  intro t ht _
  obtain ⟨z, -, hholds⟩ := Expression.exists_holds_of_parse h.parse ht
  exact hholds.isWhole

/-- On normal units with whole exponents, the comparison that `valueIn` makes is of vectors. -/
theorem sameDimensions_standard_iff (h : chart.family.Measures standard) (hq : q.units.Normal)
    (hwhole : ∀ t ∈ q.units, t.isReciprocal = false → t.exponent.IsWhole) :
    q.units.sameDimensions standard.normalize = true ↔
      ∀ d, d ≠ .reciprocal → q.units.order d = standard.order d := by
  refine Units.sameDimensions_iff_of_normal hq (Units.normal_normalize standard)
    (fun d hd => Units.carries_order hq.distinct ?_) (fun d hd => carries_standard h hd)
  rintro t ht rfl
  exact hwhole t ht ((Term.isReciprocal_eq_false_iff t).mpr hd)

/-! ## Families whose standard expression is read -/

variable (h : Units.parse chart.family.standardExpression = .ok standard)
include h

theorem sameDimensions_standard_self :
    standard.normalize.sameDimensions standard.normalize = true := by
  have hbounded : ∀ t ∈ standard, t.exponent.Within 31 := by
    intro t ht
    obtain ⟨z, hz, hholds⟩ := Expression.exists_holds_of_parse h ht
    exact hholds.within hz
  exact Units.sameDimensions_self fun t ht => (Units.within_normalize hbounded t ht).isFinite

variable [Mul α] [Div α]

/-- What is built has the normal form of the standard, and the value in the standard unit. -/
theorem ofFamily_eq_ok {value x : α} (hx : chart.toStandard value unit = .ok x)
    (options : Options) :
    ofFamily chart value unit options = .ok (ofUnits x standard options) := by
  have htext : ofText Symbols.builtin x chart.family.standardExpression options =
      .ok (ofUnits x standard options) := by
    show (Units.parse _).map _ = _
    rw [h]
    rfl
  rw [ofFamily, hx]
  dsimp only
  rw [htext]

/-- Building fails for a name only: the units of the standard are there. -/
theorem exists_ofFamily_iff {value : α} (options : Options) :
    (∃ built, ofFamily chart value unit options = .ok built) ↔
      ∃ x, chart.toStandard value unit = .ok x := by
  constructor
  · rintro ⟨built, hbuilt⟩
    rw [ofFamily] at hbuilt
    cases hx : chart.toStandard value unit with
    | ok x => exact ⟨x, rfl⟩
    | error e => simp [hx] at hbuilt
  · rintro ⟨x, hx⟩
    exact ⟨_, ofFamily_eq_ok h hx options⟩

theorem valueIn_eq_mismatch (hunits : q.units.sameDimensions standard.normalize = false) :
    q.valueIn chart unit = .error
      (.mismatch (.family q.units chart.family.name chart.family.standardExpression)) := by
  rw [valueIn, h]
  dsimp only
  rw [hunits, if_neg Bool.false_ne_true]

/-- Where the units agree, what is read off is the value converted from the standard unit. -/
theorem valueIn_of_sameDimensions (hunits : q.units.sameDimensions standard.normalize = true) :
    q.valueIn chart unit = (chart.ofStandard q.value unit).mapError .conversion := by
  rw [valueIn, h]
  dsimp only
  rw [if_pos hunits]
  cases chart.ofStandard q.value unit <;> rfl

theorem valueIn_eq_ok (hunits : q.units.sameDimensions standard.normalize = true) {x : α}
    (hx : chart.ofStandard q.value unit = .ok x) : q.valueIn chart unit = .ok x := by
  rw [valueIn_of_sameDimensions h hunits, hx]
  rfl

theorem exists_valueIn_eq_mismatch_iff :
    (∃ cause, q.valueIn chart unit = .error (.mismatch cause)) ↔
      q.units.sameDimensions standard.normalize = false := by
  constructor
  · rintro ⟨cause, hcause⟩
    by_contra hunits
    rw [Bool.not_eq_false] at hunits
    rw [valueIn_of_sameDimensions h hunits] at hcause
    cases hx : chart.ofStandard q.value unit with
    | ok x => rw [hx] at hcause; cases hcause
    | error e => rw [hx] at hcause; cases hcause
  · intro hunits
    exact ⟨_, valueIn_eq_mismatch h hunits⟩

/-- Where the units agree, reading off fails for a name that has to be looked up and is not there:
nothing is looked up for the standard unit itself. -/
theorem exists_valueIn_eq_conversion_iff
    (hunits : q.units.sameDimensions standard.normalize = true) :
    (∃ cause, q.valueIn chart unit = .error (.conversion cause)) ↔
      unit ≠ chart.family.standardUnit ∧
        (chart.has unit = false ∨ chart.has chart.family.standardUnit = false) := by
  have hconvert : (∃ x, chart.ofStandard q.value unit = .ok x) ↔ _ := Chart.exists_convert_iff q.value
  have hfails : (∃ cause, q.valueIn chart unit = .error (.conversion cause)) ↔
      ¬ ∃ x, chart.ofStandard q.value unit = .ok x := by
    rw [valueIn_of_sameDimensions h hunits]
    cases chart.ofStandard q.value unit with
    | ok x => simp [Except.mapError]
    | error e => simp [Except.mapError]
  rw [hfails, hconvert, not_or, not_and_or, Bool.not_eq_true, Bool.not_eq_true, or_comm]
  exact and_congr_left' ⟨fun hne => Ne.symm hne, fun hne => Ne.symm hne⟩

/-- What is built in a family can be read off in it, wherever both conversions can be made. -/
theorem exists_ofFamily_valueIn {value x y : α} {source target : String}
    (hx : chart.toStandard value source = .ok x) (hy : chart.ofStandard x target = .ok y)
    (options : Options) :
    ∃ q, ofFamily chart value source options = .ok q ∧ q.valueIn chart target = .ok y :=
  ⟨_, ofFamily_eq_ok h hx options, valueIn_eq_ok h (sameDimensions_standard_self h) hy⟩

/-- In the standard unit the value stays as it is on both ways, known or not. -/
theorem exists_ofFamily_standardUnit (value : α) (options : Options) :
    ∃ q, ofFamily chart value chart.family.standardUnit options = .ok q ∧ q.value = value ∧
      q.units = standard.normalize ∧ q.valueIn chart chart.family.standardUnit = .ok value :=
  ⟨_, ofFamily_eq_ok h (Chart.convert_self value _) options, rfl, rfl,
    valueIn_eq_ok h (sameDimensions_standard_self h) (Chart.convert_self value _)⟩

end

/-- **A family reads off what it builds, and what measures the same.** In any family whose standard
expression is read, and for any names that it knows, a value in one unit becomes a quantity whose
value in the other can be read off; where product and quotient are those of a field, it is the value
converted directly, and the same value again for one and the same name. Any other quantity with
whole exponents is refused for its units exactly when some base dimension has another order in it
than in the standard expression, and otherwise for a name exactly when the name is not the standard
unit's own and it or the standard unit is unknown. -/
theorem family_read_out :
    (∀ {K : Type} [Field K] {chart : Chart K} {standard : Units},
      Units.parse chart.family.standardExpression = .ok standard →
      ∀ {source target : String}, chart.Scales source → chart.Scales target →
        chart.Scales chart.family.standardUnit → ∀ (value : K) (options : Options),
          ∃ q x, ofFamily chart value source options = .ok q ∧
            q.valueIn chart target = .ok x ∧ chart.convert value source target = .ok x ∧
            (target = source → x = value)) ∧
    (∀ {α : Type} [Mul α] [Div α] {chart : Chart α} {standard : Units},
      Units.parse chart.family.standardExpression = .ok standard →
      ∀ {source target : String}, chart.has source = true → chart.has target = true →
        chart.has chart.family.standardUnit = true → ∀ (value : α) (options : Options),
          ∃ q x, ofFamily chart value source options = .ok q ∧
            q.valueIn chart target = .ok x) ∧
    ∀ {α : Type} [Mul α] [Div α] {chart : Chart α} {standard : Units},
      chart.family.Measures standard →
      ∀ q : Quantity α, q.units.Normal →
        (∀ t ∈ q.units, t.isReciprocal = false → t.exponent.IsWhole) → ∀ target : String,
          ((∃ cause, q.valueIn chart target = .error (.mismatch cause)) ↔
            ∃ d, d ≠ .reciprocal ∧ q.units.order d ≠ standard.order d) ∧
          ((∀ d, d ≠ .reciprocal → q.units.order d = standard.order d) →
            ((∃ cause, q.valueIn chart target = .error (.conversion cause)) ↔
              target ≠ chart.family.standardUnit ∧
                (chart.has target = false ∨ chart.has chart.family.standardUnit = false))) := by
  refine ⟨?_, ?_, ?_⟩
  · intro K _ chart standard h source target hsource htarget hstandard value options
    obtain ⟨x, y, hx, hy, hdirect⟩ :=
      Chart.convert_convert hsource hstandard htarget.has value
    obtain ⟨q, hq, hread⟩ := exists_ofFamily_valueIn h hx hy options
    refine ⟨q, y, hq, hread, hdirect, ?_⟩
    rintro rfl
    rw [Chart.convert_self] at hdirect
    cases hdirect
    rfl
  · intro α _ _ chart standard h source target hsource htarget hstandard value options
    obtain ⟨x, hx⟩ := (Chart.exists_convert_iff value).mpr (.inr ⟨hsource, hstandard⟩)
    obtain ⟨y, hy⟩ := (Chart.exists_convert_iff x).mpr (.inr ⟨hstandard, htarget⟩)
    obtain ⟨q, hq, hread⟩ := exists_ofFamily_valueIn h hx hy options
    exact ⟨q, y, hq, hread⟩
  · intro α _ _ chart standard h q hq hwhole target
    have hunits := sameDimensions_standard_iff h hq hwhole
    refine ⟨?_, fun horders => exists_valueIn_eq_conversion_iff h.parse (hunits.mpr horders)⟩
    rw [exists_valueIn_eq_mismatch_iff h.parse, ← Bool.not_eq_true, hunits]
    push Not
    rfl

/-- A family of speeds: a value comes back through an alias, kilometres and their prefixes make no
difference to what measures a speed, a length is refused, and so is a name that is not there. -/
theorem family_read_out_speed :
    let units : Table ℚ := .ofList [("m/s", 1), ("km/h", 18 / 5)]
    let aliases : Table String := .ofList [("kph", "km/h")]
    let chart : Chart ℚ := ⟨.make "speed" "m/s" "" units aliases [], units, aliases⟩
    let speed : Quantity ℚ :=
      ofUnits 3 [⟨.length, 2, some .kilo⟩, ⟨.time, -1, none⟩, ⟨.length, -1, none⟩] {}
    let length : Quantity ℚ := ofUnits 3 [⟨.length, 1, none⟩] {}
    chart.family.Measures [⟨.length, 1, none⟩, ⟨.time, -1, none⟩] ∧
      (∃ q, ofFamily chart 36 "kph" {} = .ok q ∧ q.valueIn chart "m/s" = .ok 10) ∧
      (∃ q x, ofFamily chart 36 "km/h" {} = .ok q ∧ q.valueIn chart "kph" = .ok x) ∧
      (∃ cause, speed.valueIn chart "mach" = .error (.conversion cause)) ∧
      ∃ cause, length.valueIn chart "kph" = .error (.mismatch cause) := by
  intro units aliases chart speed length
  have hmeasures : chart.family.Measures [⟨.length, 1, none⟩, ⟨.time, -1, none⟩] :=
    Family.measures_of_parse (by decide +kernel) (by decide)
  have hone : chart.multiplier? "m/s" = some 1 := by decide +kernel
  have hkmh : chart.multiplier? "kph" = some (18 / 5) := by decide +kernel
  have hstandard : chart.Scales "m/s" := ⟨1, hone, by norm_num⟩
  have hkph : chart.Scales "kph" := ⟨18 / 5, hkmh, by norm_num⟩
  refine ⟨hmeasures, ?_, ?_, ?_, ?_⟩
  · obtain ⟨q, x, hq, hread, hdirect, -⟩ :=
      family_read_out.1 hmeasures.parse hkph hstandard hstandard 36 {}
    rw [Chart.convert_of_ne (by decide) hkmh hone, Except.ok.injEq] at hdirect
    refine ⟨q, hq, ?_⟩
    rw [hread, ← hdirect]
    norm_num
  · exact family_read_out.2.1 hmeasures.parse (by decide +kernel) hkph.has hstandard.has 36 {}
  · have horders : ∀ d, d ≠ .reciprocal →
        speed.units.order d = Units.order [⟨.length, 1, none⟩, ⟨.time, -1, none⟩] d := by
      intro d _
      cases d <;> decide +kernel
    exact ((family_read_out.2.2 hmeasures speed (normal_ofUnits _ _ _) (by decide +kernel)
      "mach").2 horders).mpr ⟨by decide, .inl (by decide +kernel)⟩
  · exact (family_read_out.2.2 hmeasures length (normal_ofUnits _ _ _) (by decide +kernel)
      "kph").1.mpr ⟨.time, by decide, by decide +kernel⟩

end Quantity

end Metrology
