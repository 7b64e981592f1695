import Mathlib
import Metrology.Proofs.Quantity.Vector
import Metrology.Proofs.Session.Normal
import Metrology.Proofs.Units.Multiple

/-!
# Metrology.Proofs.Session.Power -- powers as repeated products

A quantity can be raised to a whole power at once, or multiplied by itself again and again: as a
computation on quantities (`product`), or in a session, where a register takes up one factor after
the other, by updates or by products put back into it (`IsFactor`). The last two are the same
computation (`run_factors`).

For whole exponents that stay exact, power and product come to the same units, term for term, the
place of the marker included: both are the multiple of the units of the quantity (`units_product`,
`units_power`). The values are another matter, as they are rounded at each product.
-/

namespace Metrology

namespace Quantity

/-- The quantity multiplied by itself, from the left and `n` times: a product of `n + 1` factors. -/
def product (q : Quantity) : Nat → Except Error Quantity
  | 0 => .ok q
  | n + 1 => do
    let p ← q.product n
    p.operate .mul (.quantity q)

section

variable {q : Quantity} {n : Nat}

/-- Each factor takes the units from one multiple to the next. -/
theorem units_product (h : q.units.MultipliesExactly (n + 1)) :
    ∃ p, q.product n = .ok p ∧ p.units = q.units.multiple (n + 1) := by
  induction n with
  | zero => exact ⟨q, rfl, h.multiple_one.symm⟩
  | succ n ih =>
    obtain ⟨p, hp, hunits⟩ := ih (h.mono (Nat.le_succ _))
    refine ⟨ofUnits (p.value * q.value) (p.units.combine q.units 1).tidy p.options, ?_, ?_⟩
    · rw [product, hp]
      rfl
    · rw [units_ofUnits_tidy _ (Units.nodup_combine _ _ _), hunits, h.tidy_combine n.succ_pos]

theorem units_power (h : q.units.MultipliesExactly n) (hn : 0 < n) :
    ∃ p, q.operate .pow (.scalar (Binary64.ofInt n)) = .ok p ∧ p.units = q.units.multiple n := by
  have hnodup : ((q.units.scale (Binary64.ofInt n)).map Term.dimension).Nodup := by
    rw [Units.map_dimension_scale]
    exact h.normal.distinct
  refine ⟨_, rfl, ?_⟩
  rw [units_ofUnits_tidy _ hnodup, h.tidy_scale hn]

end

end Quantity

/-! ## Products in a session -/

namespace Session

/-- The ways to multiply what a register holds by a quantity and leave the product there: an update,
or a product that is kept in the register. -/
def IsFactor (register : String) (base : QuantitySource) (command : Command) : Prop :=
  command = .update register .mul (.quantity base) ∨
    command = .operate (some register) .mul (.register register) (.quantity base)

section

variable {s : Session} {register : String} {base : QuantitySource} {q p : Quantity}

theorem quantity_keep_self (s : Session) (register : String) (q : Quantity) :
    (s.keep (some register) q).quantity (.register register) = .ok q := by
  rw [keep, quantity, Table.get?_insert_self]

/-- Keeping a quantity does not change what is read from elsewhere. -/
theorem quantity_keep_of_ne (h : base ≠ .register register) :
    (s.keep (some register) q).quantity base = s.quantity base := by
  cases base with
  | draft d => rfl
  | register other =>
    have hne : other ≠ register := fun e => h (e ▸ rfl)
    rw [keep, quantity, Table.get?_insert_of_ne _ hne]
    rfl

/-- One factor more, in either way. -/
theorem step_factor {command : Command} (hcommand : IsFactor register base command)
    (hp : s.quantity (.register register) = .ok p) (hq : s.quantity base = .ok q) :
    ∃ r, p.operate .mul (.quantity q) = .ok r ∧
      (s.step command).1 = s.keep (some register) r := by
  have hstep : s.step command =
      s.deliver (some register) (s.operate .mul (.register register) (.quantity base)) := by
    rcases hcommand with rfl | rfl <;> rfl
  refine ⟨_, rfl, ?_⟩
  rw [hstep, operate, hp, operand, hq]
  rfl

/-- Factor after factor, a register comes to hold the product of one factor more than there were
commands. The induction is on the commands, from any product on that the register holds so far. -/
theorem run_factors (hbase : base ≠ .register register) (commands : List Command) :
    ∀ (s : Session) (n : Nat) (p : Quantity), (∀ c ∈ commands, IsFactor register base c) →
      s.quantity (.register register) = .ok p → s.quantity base = .ok q → q.product n = .ok p →
        ∃ r, (s.run commands).1.quantity (.register register) = .ok r ∧
          q.product (n + commands.length) = .ok r := by
  induction commands with
  | nil => exact fun s n p _ hp _ hproduct => ⟨p, hp, hproduct⟩
  | cons c cs ih =>
    intro s n p hcommands hp hq hproduct
    rw [List.forall_mem_cons] at hcommands
    obtain ⟨r, hr, hstep⟩ := step_factor hcommands.1 hp hq
    have hnext : q.product (n + 1) = .ok r := by
      rw [Quantity.product, hproduct]
      exact hr
    rw [run_cons, hstep, List.length_cons, Nat.add_comm cs.length, ← Nat.add_assoc]
    refine ih _ (n + 1) r hcommands.2 (quantity_keep_self s register r) ?_ hnext
    rw [quantity_keep_of_ne hbase, hq]

end

end Session

namespace Quantity

/-- **A whole power has the units of the repeated product.** Take a quantity that arises in a run,
with whole base exponents which, taken `n + 1` times, stay within `2⁵³`. The product of `n + 1`
factors and the power by `n + 1` both exist, and have the same list of terms: the same dimensions in
the same order, with the same exponents and prefixes. So they are written the same way in both
notations. In a session, a register that holds the quantity and takes up `n` more factors, by
updates and by products in any mixture, comes to hold that product. -/
theorem units_product_eq_power {q : Quantity} (hq : q.Arises) (n : Nat)
    (hwhole : ∀ t ∈ q.units, t.dimension ≠ .reciprocal → t.exponent.IsWhole)
    (hsmall : ∀ t ∈ q.units, t.dimension ≠ .reciprocal →
      ((n + 1 : Nat) * t.exponent.toInt).natAbs ≤ 2 ^ 53) :
    ∃ product power, q.product n = .ok product ∧
      q.operate .pow (.scalar (Binary64.ofInt (n + 1 : Nat))) = .ok power ∧
      product.units = power.units ∧ product.units.fractional = power.units.fractional ∧
      product.units.exponential = power.units.exponential ∧
      ∀ (s : Session) (register : String) (base : QuantitySource) (commands : List Command),
        s.quantity (.register register) = .ok q → s.quantity base = .ok q →
        base ≠ .register register → (∀ c ∈ commands, Session.IsFactor register base c) →
        commands.length = n →
          (s.run commands).1.quantity (.register register) = .ok product := by
  have h : q.units.MultipliesExactly (n + 1) := ⟨hq.normal, hwhole, hsmall⟩
  obtain ⟨product, hproduct, hleft⟩ := units_product h
  obtain ⟨power, hpower, hright⟩ := units_power h n.succ_pos
  have hunits : product.units = power.units := hleft.trans hright.symm
  refine ⟨product, power, hproduct, hpower, hunits, by rw [hunits], by rw [hunits], ?_⟩
  intro s register base commands hregister hbase hne hcommands hlength
  obtain ⟨r, hr, hr'⟩ := Session.run_factors hne commands s 0 q hcommands hregister hbase rfl
  rw [Nat.zero_add, hlength, hproduct] at hr'
  cases hr'
  exact hr

/-- The cube of a quantity that has no numerator and whose marker stands first, by one update and
one product that is put back. -/
theorem units_product_eq_power_cube :
    let q : Quantity := ofUnits 2 [.marker, ⟨.time, -1, some .milli⟩, ⟨.length, -2, none⟩] {}
    let s : Session :=
      ⟨Symbols.builtin, Table.empty, Settings.empty, .ofList [("cube", q), ("side", q)]⟩
    let side : QuantitySource := .register "side"
    q.Arises ∧
      (∀ t ∈ q.units, t.dimension ≠ .reciprocal →
        t.exponent.IsWhole ∧ ((2 + 1 : Nat) * t.exponent.toInt).natAbs ≤ 2 ^ 53) ∧
      ∃ product, product.units.fractional = "1/ms^3*m^6" ∧
        product.units.exponential = "1*ms^-3*m^-6" ∧
        (s.run [.update "cube" .mul (.quantity side),
          .operate (some "cube") .mul (.register "cube") (.quantity side)]).1.quantity
            (.register "cube") = .ok product := by
  intro q s side
  have hq : q.Arises := arises_iff.mpr (normal_ofUnits _ _ _)
  have hexponents : ∀ t ∈ q.units, t.dimension ≠ .reciprocal →
      t.exponent.IsWhole ∧ ((2 + 1 : Nat) * t.exponent.toInt).natAbs ≤ 2 ^ 53 := by
    decide +kernel
  obtain ⟨product, power, -, hpower, -, hfractional, hexponential, hsession⟩ :=
    units_product_eq_power hq 2 (fun t ht hd => (hexponents t ht hd).1)
      fun t ht hd => (hexponents t ht hd).2
  have hunits : (power.units.fractional, power.units.exponential) =
      ("1/ms^3*m^6", "1*ms^-3*m^-6") := by
    cases hpower
    decide +kernel
  rw [Prod.mk.injEq] at hunits
  refine ⟨hq, hexponents, product, hfractional.trans hunits.1, hexponential.trans hunits.2, ?_⟩
  apply hsession s "cube" side _ (by decide +kernel) (by decide +kernel)
  · exact fun h => absurd (QuantitySource.register.inj h) (by decide)
  · intro c hc
    simp only [List.mem_cons, List.not_mem_nil, or_false] at hc
    rcases hc with rfl | rfl
    · exact .inl rfl
    · exact .inr rfl
  · rfl

end Quantity

end Metrology
