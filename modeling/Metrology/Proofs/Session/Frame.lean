import Mathlib
import Metrology.Proofs.Session.Normal

/-!
# Metrology.Proofs.Session.Frame -- what operations on the value leave alone

Signs, rounding, sums, differences, and products and quotients with a bare number are about the value
of a quantity. Their results are built anew all the same, with the units normalized again, and it is
only because the units of every quantity in a run are normal that they come out as they were, term
for term (`SameFrame`). Exponents are any numbers: where they are no whole numbers, or no numbers at
all, nothing is recomputed that could round them.

Every other operation gives new units, and passes on the options of its left operand.
-/

namespace Metrology

namespace Quantity

/-- The same units, term for term, and the same options. -/
def SameFrame (p q : Quantity) : Prop := p.units = q.units ∧ p.options = q.options

section

variable {q p : Quantity}

theorem sameFrame_unary (h : q.units.Normal) (f : UnaryFunction) : (q.unary f).SameFrame q := by
  rw [unary_of_normal h]
  exact ⟨rfl, rfl⟩

theorem sameFrame_of_sum (h : q.units.Normal) {op : Operation} (hop : op ∈ [.add, .sub])
    {operand : Operand} (hp : q.operate op operand = .ok p) : p.SameFrame q := by
  obtain ⟨f, hf⟩ := operate_of_sum hop
  rw [hf, additive_eq_ok_iff h] at hp
  obtain ⟨r, -, -, rfl⟩ := hp
  exact ⟨rfl, rfl⟩

theorem sameFrame_of_factor (h : q.units.Normal) {op : Operation}
    (hop : op ∈ [.mul, .div, .floorDiv]) {x : Binary64}
    (hp : q.operate op (.scalar x) = .ok p) : p.SameFrame q := by
  obtain ⟨f, sign, hf⟩ := operate_of_product hop
  rw [hf, multiplicative_scalar_eq_ok_iff h] at hp
  obtain ⟨-, rfl⟩ := hp
  exact ⟨rfl, rfl⟩

theorem options_of_operate {op : Operation} {operand : Operand}
    (hp : q.operate op operand = .ok p) : p.options = q.options := by
  obtain ⟨value, units, rfl⟩ := operate_eq_ofUnits hp
  rfl

theorem options_of_scalarOperate {x : Binary64} {op : ScalarOperation}
    (hp : q.scalarOperate x op = .ok p) : p.options = q.options := by
  obtain ⟨value, units, rfl⟩ := scalarOperate_eq_ofUnits hp
  rfl

end

end Quantity

namespace Session

/-- **Operations on the value leave units and options alone.** Take any quantity of a run, read from
the session afterwards or answered on the way. The functions of one quantity keep its units, term for
term, and its options; so do sums and differences, and products and quotients with a bare number on
either side of a product, whenever they succeed. All operations that succeed keep the options of
their left operand, and those with a bare number on the left keep the options of the right one. -/
theorem sameFrame_of_run (symbols : Symbols) (registry : Registry) (settings : Settings)
    (commands : List Command) :
    let result := Session.run ⟨symbols, registry, settings, Table.empty⟩ commands
    ∀ q : Quantity,
      (∃ source, result.1.quantity source = .ok q) ∨ .ok (.quantity q) ∈ result.2 →
        (∀ f, (q.unary f).SameFrame q) ∧
        (∀ op ∈ [Operation.add, .sub], ∀ operand p,
          q.operate op operand = .ok p → p.SameFrame q) ∧
        (∀ op ∈ [Operation.mul, .div, .floorDiv], ∀ x p,
          q.operate op (.scalar x) = .ok p → p.SameFrame q) ∧
        (∀ x p, q.scalarOperate x .mul = .ok p → p.SameFrame q) ∧
        (∀ op operand p, q.operate op operand = .ok p → p.options = q.options) ∧
        ∀ op x p, q.scalarOperate x op = .ok p → p.options = q.options := by
  intro result q hq
  have hstart : Settled ⟨symbols, registry, settings, Table.empty⟩ := by
    intro name q hget
    cases hget
  obtain ⟨hsettled, hanswers⟩ := settled_run commands _ hstart
  have hnormal : q.units.Normal := by
    rcases hq with ⟨source, hq⟩ | hq
    · exact normal_quantity hsettled hq
    · exact hanswers _ hq q rfl
  refine ⟨Quantity.sameFrame_unary hnormal, ?_, ?_, ?_, ?_, ?_⟩
  · exact fun op hop operand p hp => Quantity.sameFrame_of_sum hnormal hop hp
  · exact fun op hop x p hp => Quantity.sameFrame_of_factor hnormal hop hp
  · intro x p hp
    exact Quantity.sameFrame_of_factor hnormal (by decide)
      (show q.operate .mul (.scalar x) = .ok p from hp)
  · exact fun op operand p hp => Quantity.options_of_operate hp
  · exact fun op x p hp => Quantity.options_of_scalarOperate hp

/-- The square of a quantity with a half, an infinite exponent and one that is no number. -/
theorem sameFrame_of_run_square :
    let options : Quantity.Options := ⟨.exponential, true⟩
    let root : Units :=
      [⟨.time, .nan false, none⟩, ⟨.length, 0.5, some .kilo⟩, ⟨.mass, .infinite true, none⟩]
    let commands : List Command :=
      [.build (some "root") ⟨3, .terms root, .given options⟩,
        .operate (some "square") .mul (.register "root") (.quantity (.register "root"))]
    let s := (Session.run ⟨Symbols.builtin, Table.empty, Settings.empty, Table.empty⟩ commands).1
    ∃ q, s.quantity (.register "square") = .ok q ∧
      q.units = [⟨.time, .nan false, none⟩, ⟨.length, 1, some .kilo⟩, ⟨.mass, .infinite true, none⟩] ∧
      (q.unary .neg).SameFrame q ∧
      (∃ p, q.operate .floorDiv (.scalar 2) = .ok p ∧ p.value = 4 ∧ p.SameFrame q) ∧
      ∃ p, q.scalarOperate 1 .div = .ok p ∧ p.options = options := by
  intro options root commands s
  let q : Quantity :=
    ⟨9, [⟨.time, .nan false, none⟩, ⟨.length, 1, some .kilo⟩, ⟨.mass, .infinite true, none⟩],
      options⟩
  have hq : s.quantity (.register "square") = .ok q := by decide +kernel
  obtain ⟨hunary, -, hfactor, -, -, hoptions⟩ :=
    sameFrame_of_run Symbols.builtin Table.empty Settings.empty commands q (.inl ⟨_, hq⟩)
  refine ⟨q, hq, rfl, hunary .neg, ⟨_, rfl, ?_, hfactor .floorDiv (by decide) 2 _ rfl⟩, ?_⟩
  · decide +kernel
  · exact ⟨_, rfl, hoptions .div 1 _ rfl⟩

end Session

end Metrology
