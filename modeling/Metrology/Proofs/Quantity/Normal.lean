import Mathlib
import Metrology.Proofs.Result
import Metrology.Proofs.Units.Normal
import Metrology.Quantity.Arithmetic

/-!
# Metrology.Proofs.Quantity.Normal -- every quantity that is built has normal units

Whatever an operation does to the units of its operands, its result is built by `ofUnits`, which
normalizes. So the lemmas here say of each operation, whenever it succeeds, what `ofUnits` is given:
some value, some units and the options of one operand. That the units of the result are normal needs
nothing about the operands; only the sign `+` and the change of options hand their operand on.

An operation that is to change the value alone builds the units anew as well. It changes nothing else
because its operand has normal units, which normalizing keeps (`withValue_of_normal`).
-/

namespace Metrology

namespace Quantity

theorem normal_ofUnits {α : Type} (value : α) (units : Units) (options : Options) :
    (ofUnits value units options).units.Normal :=
  Units.normal_normalize units

/-! ## Operations -/

theorem additive_quantity (f : Binary64 → Binary64 → Binary64) (q r : Quantity) :
    q.additive f (.quantity r) =
      if q.hasSameUnits r then .ok (q.withValue (f q.value r.value))
      else .error (.mismatch (.summands q.units r.units)) := rfl

theorem multiplicative_scalar (f : Binary64 → Binary64 → Binary64) (sign : Int) (q : Quantity)
    (x : Binary64) :
    q.multiplicative f sign (.scalar x) =
      if q.options.implicitDimensionless then .ok (q.withValue (f q.value x))
      else .error (.dimensionless .factor) := rfl

theorem additive_eq_ofUnits {f : Binary64 → Binary64 → Binary64} {q p : Quantity}
    {operand : Operand} (h : q.additive f operand = .ok p) :
    ∃ value units, p = ofUnits value units q.options := by
  cases operand with
  | unsupported description => cases h
  | scalar x => cases h
  | quantity r =>
    rw [additive_quantity] at h
    split at h
    · cases h
      exact ⟨_, _, rfl⟩
    · cases h

theorem multiplicative_eq_ofUnits {f : Binary64 → Binary64 → Binary64} {sign : Int}
    {q p : Quantity} {operand : Operand} (h : q.multiplicative f sign operand = .ok p) :
    ∃ value units, p = ofUnits value units q.options := by
  cases operand with
  | unsupported description => cases h
  | scalar x =>
    rw [multiplicative_scalar] at h
    split at h
    · cases h
      exact ⟨_, _, rfl⟩
    · cases h
  | quantity r =>
    cases h
    exact ⟨_, _, rfl⟩

theorem power_eq_ofUnits {q p : Quantity} {operand : Operand} (h : q.power operand = .ok p) :
    ∃ value units, p = ofUnits value units q.options := by
  cases operand with
  | unsupported description => cases h
  | scalar x =>
    cases h
    exact ⟨_, _, rfl⟩
  | quantity r => cases h

theorem operate_of_sum {op : Operation} (h : op ∈ [.add, .sub]) :
    ∃ f, ∀ (q : Quantity) operand, q.operate op operand = q.additive f operand := by
  simp only [List.mem_cons, List.not_mem_nil, or_false] at h
  rcases h with rfl | rfl
  · exact ⟨(· + ·), fun _ _ => rfl⟩
  · exact ⟨(· - ·), fun _ _ => rfl⟩

theorem operate_of_product {op : Operation} (h : op ∈ [.mul, .div, .floorDiv]) :
    ∃ f sign, ∀ (q : Quantity) operand,
      q.operate op operand = q.multiplicative f sign operand := by
  simp only [List.mem_cons, List.not_mem_nil, or_false] at h
  rcases h with rfl | rfl | rfl
  · exact ⟨(· * ·), 1, fun _ _ => rfl⟩
  · exact ⟨(· / ·), -1, fun _ _ => rfl⟩
  · exact ⟨fun a b => (a / b).floor, -1, fun _ _ => rfl⟩

/-- An operation that succeeds builds its result anew, with the options of the left operand. -/
theorem operate_eq_ofUnits {q p : Quantity} {op : Operation} {operand : Operand}
    (h : q.operate op operand = .ok p) : ∃ value units, p = ofUnits value units q.options := by
  cases op with
  | add => exact additive_eq_ofUnits (show q.additive (· + ·) operand = .ok p from h)
  | sub => exact additive_eq_ofUnits (show q.additive (· - ·) operand = .ok p from h)
  | mul => exact multiplicative_eq_ofUnits (show q.multiplicative (· * ·) 1 operand = .ok p from h)
  | div =>
    exact multiplicative_eq_ofUnits (show q.multiplicative (· / ·) (-1) operand = .ok p from h)
  | floorDiv =>
    exact multiplicative_eq_ofUnits
      (show q.multiplicative (fun a b => (a / b).floor) (-1) operand = .ok p from h)
  | pow => exact power_eq_ofUnits (show q.power operand = .ok p from h)
  | mod => cases h
  | divmod => cases h

theorem scalarDiv_eq_ofUnits {x : Binary64} {q p : Quantity} (h : scalarDiv x q = .ok p) :
    ∃ value units, p = ofUnits value units q.options := by
  unfold scalarDiv at h
  split at h
  · cases h
    exact ⟨_, _, rfl⟩
  · cases h

/-- The same with a bare number on the left, where the options are those of the right operand. -/
theorem scalarOperate_eq_ofUnits {q p : Quantity} {x : Binary64} {op : ScalarOperation}
    (h : q.scalarOperate x op = .ok p) : ∃ value units, p = ofUnits value units q.options := by
  cases op with
  -- A sum with a bare number fails, on whichever side the number stands.
  | add => cases h
  | sub => cases h
  | mul => exact operate_eq_ofUnits (show q.operate .mul (.scalar x) = .ok p from h)
  | div => exact scalarDiv_eq_ofUnits h

theorem normal_operate {q p : Quantity} {op : Operation} {operand : Operand}
    (h : q.operate op operand = .ok p) : p.units.Normal := by
  obtain ⟨value, units, rfl⟩ := operate_eq_ofUnits h
  exact normal_ofUnits value units q.options

theorem normal_scalarOperate {q p : Quantity} {x : Binary64} {op : ScalarOperation}
    (h : q.scalarOperate x op = .ok p) : p.units.Normal := by
  obtain ⟨value, units, rfl⟩ := scalarOperate_eq_ofUnits h
  exact normal_ofUnits value units q.options

/-- The sign `+` gives the quantity itself; every other function builds its result anew. -/
theorem normal_unary {q : Quantity} (h : q.units.Normal) (f : UnaryFunction) :
    (q.unary f).units.Normal := by
  cases f with
  | pos => exact h
  | neg => exact normal_ofUnits _ _ _
  | abs => exact normal_ofUnits _ _ _
  | trunc => exact normal_ofUnits _ _ _
  | floor => exact normal_ofUnits _ _ _
  | ceil => exact normal_ofUnits _ _ _
  | round places => exact normal_ofUnits _ _ _

/-! ## Another value and nothing else -/

section

variable {q p : Quantity}

/-- Building normal units anew keeps them, so only the value is another one. -/
theorem withValue_of_normal (h : q.units.Normal) (value : Binary64) :
    q.withValue value = { q with value := value } := by
  rw [withValue, ofUnits, Units.normalize_of_normal h]

theorem unary_of_normal (h : q.units.Normal) (f : UnaryFunction) :
    q.unary f = { q with value := f.onValue q.value } := by
  cases f with
  | pos => rfl
  | neg => exact withValue_of_normal h _
  | abs => exact withValue_of_normal h _
  | trunc => exact withValue_of_normal h _
  | floor => exact withValue_of_normal h _
  | ceil => exact withValue_of_normal h _
  | round places => exact withValue_of_normal h _

/-- A sum succeeds exactly with a quantity that has the same units. -/
theorem additive_eq_ok_iff (h : q.units.Normal) {f : Binary64 → Binary64 → Binary64}
    {operand : Operand} :
    q.additive f operand = .ok p ↔
      ∃ r, operand = .quantity r ∧ q.hasSameUnits r = true ∧
        p = { q with value := f q.value r.value } := by
  cases operand with
  | unsupported description => simp [additive]
  | scalar x => simp [additive]
  | quantity r =>
    rw [additive_quantity, Result.choice_eq_ok_iff, withValue_of_normal h, eq_comm (b := p)]
    simp

/-- A product with a bare number succeeds exactly where the options allow it. -/
theorem multiplicative_scalar_eq_ok_iff (h : q.units.Normal)
    {f : Binary64 → Binary64 → Binary64} {sign : Int} {x : Binary64} :
    q.multiplicative f sign (.scalar x) = .ok p ↔
      q.options.implicitDimensionless = true ∧ p = { q with value := f q.value x } := by
  rw [multiplicative_scalar, Result.choice_eq_ok_iff, withValue_of_normal h, eq_comm (b := p)]

end

/-! ## Families -/

theorem normal_ofText {α : Type} {symbols : Symbols} {value : α} {text : String}
    {options : Options} {q : Quantity α} (h : ofText symbols value text options = .ok q) :
    q.units.Normal := by
  obtain ⟨units, _, rfl⟩ := Result.map_eq_ok h
  exact normal_ofUnits value units options

theorem normal_ofFamily {α : Type} [Mul α] [Div α] {chart : Chart α} {value : α} {unit : String}
    {options : Options} {q : Quantity α} (h : ofFamily chart value unit options = .ok q) :
    q.units.Normal := by
  unfold ofFamily at h
  split at h
  · cases h
  · split at h
    · cases h
    · next hq =>
      cases h
      exact normal_ofText hq

end Quantity

end Metrology
