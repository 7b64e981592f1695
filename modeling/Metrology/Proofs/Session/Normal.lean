import Mathlib
import Metrology.Proofs.Quantity.Normal
import Metrology.Proofs.Session.Basic

/-!
# Metrology.Proofs.Session.Normal -- normal units in every run of a session

A session is *settled* when the quantities in its registers have normal units. Reading a quantity
from a settled session, out of a register or built on the spot, gives one with normal units
(`normal_quantity`). One command keeps a session settled and answers only such quantities
(`settled_step`), and so does a list of commands, by induction (`settled_run`).

A session whose registers are empty is settled whatever its symbols, families and settings are, so
the statement on runs (`units_normal_of_run`) has no hypothesis. The quantities that arise in some
run are exactly those with normal units (`Quantity.arises_iff`).
-/

namespace Metrology

namespace Session

open Result

/-- Every quantity that is kept has normal units. -/
def Settled (s : Session) : Prop :=
  ∀ name q, s.registers.get? name = some q → q.units.Normal

/-- Every quantity that is answered has normal units. -/
def NormalAnswer (result : Except SessionError Answer) : Prop :=
  ∀ q, result = .ok (.quantity q) → q.units.Normal

/-! ## Reading -/

theorem normal_build {s : Session} {draft : Draft} {q : Quantity} (h : s.build draft = .ok q) :
    q.units.Normal := by
  obtain ⟨options, _, h⟩ := bind_eq_ok h
  obtain ⟨units, _, h⟩ := bind_eq_ok h
  cases h
  exact Quantity.normal_ofUnits draft.value units options

theorem normal_quantity {s : Session} (hs : s.Settled) {source : QuantitySource} {q : Quantity}
    (h : s.quantity source = .ok q) : q.units.Normal := by
  cases source with
  | register name => exact hs name q (get?_of_quantity h)
  | draft d => exact normal_build (lift_eq_ok (show lift (s.build d) = .ok q from h))

theorem normal_measure {s : Session} {registry : RegistrySource} {family : String}
    {value : Binary64} {unit : String} {source : OptionSource} {q : Quantity}
    (h : s.measure registry family value unit source = .ok q) : q.units.Normal := by
  obtain ⟨chart, _, h⟩ := bind_eq_ok h
  obtain ⟨options, _, h⟩ := bind_eq_ok h
  exact Quantity.normal_ofFamily h

theorem normal_sourceOperate {s : Session} {op : Operation} {left : QuantitySource}
    {right : OperandSource} {q : Quantity} (h : s.operate op left right = .ok q) :
    q.units.Normal := by
  obtain ⟨l, _, h⟩ := bind_eq_ok h
  obtain ⟨operand, _, h⟩ := bind_eq_ok h
  exact Quantity.normal_operate (lift_eq_ok h)

/-! ## Keeping -/

theorem settled_keep {s : Session} (hs : s.Settled) {q : Quantity} (hq : q.units.Normal)
    (into : Option String) : (s.keep into q).Settled := by
  cases into with
  | none => exact hs
  | some register =>
    intro name r hget
    by_cases hname : name = register
    · subst hname
      have hr : (s.registers.insert name q).get? name = some r := hget
      rw [Table.get?_insert_self] at hr
      cases hr
      exact hq
    · have hr : (s.registers.insert register q).get? name = some r := hget
      rw [Table.get?_insert_of_ne _ hname] at hr
      exact hs name r hr

/-- A result with normal units is kept and answered; an error changes nothing. -/
theorem settled_deliver {s : Session} (hs : s.Settled) (into : Option String)
    {result : Except SessionError Quantity} (h : ∀ q, result = .ok q → q.units.Normal) :
    (s.deliver into result).1.Settled ∧ NormalAnswer (s.deliver into result).2 := by
  cases result with
  | error e => exact ⟨hs, fun q hq => by cases hq⟩
  | ok q =>
    refine ⟨settled_keep hs (h q rfl) into, ?_⟩
    intro r hr
    cases hr
    exact h _ rfl

/-! ## One command -/

theorem settled_registerFamilies {s : Session} (hs : s.Settled) :
    s.registerFamilies.1.Settled ∧ NormalAnswer s.registerFamilies.2 := by
  unfold registerFamilies
  split
  · exact ⟨hs, fun q hq => by cases hq⟩
  · exact ⟨hs, fun q hq => absurd hq (verdict_ne_quantity (by simp) _ q)⟩

/-- A command keeps a session settled, and answers only quantities with normal units. -/
theorem settled_step {s : Session} (hs : s.Settled) (command : Command) :
    (s.step command).1.Settled ∧ NormalAnswer (s.step command).2 := by
  cases command with
  | addSymbol word dimension prefixable =>
    exact ⟨hs, fun q hq => absurd hq (verdict_ne_quantity (by simp) _ q)⟩
  | addFamily family => exact ⟨hs, fun q hq => absurd hq (verdict_ne_quantity (by simp) _ q)⟩
  | loadSettings text => exact ⟨hs, fun q hq => by cases hq⟩
  | registerFamilies => exact settled_registerFamilies hs
  | build into draft => exact settled_deliver hs into fun q hq => normal_build (lift_eq_ok hq)
  | measure into registry family value unit options =>
    exact settled_deliver hs into fun q hq => normal_measure (lift_eq_ok hq)
  | operate into op left right =>
    exact settled_deliver hs into fun q hq => normal_sourceOperate hq
  | scalarOperate into op left right =>
    apply settled_deliver hs into
    intro p hp
    obtain ⟨q, _, hp⟩ := bind_eq_ok hp
    exact Quantity.normal_scalarOperate (lift_eq_ok hp)
  | unary into f source =>
    apply settled_deliver hs into
    intro p hp
    obtain ⟨q, hq, hp⟩ := bind_eq_ok hp
    cases hp
    exact Quantity.normal_unary (normal_quantity hs hq) f
  | update register op right =>
    exact settled_deliver hs (some register) fun q hq => normal_sourceOperate hq
  | setOptions register mode implicit =>
    -- The one update that hands its units on as they are.
    apply settled_deliver hs (some register)
    intro p hp
    obtain ⟨q, hq, hp⟩ := bind_eq_ok hp
    cases hp
    show q.units.Normal
    exact normal_quantity hs hq
  | «recall» source =>
    refine ⟨hs, fun p hp => ?_⟩
    obtain ⟨q, hq, hp⟩ := map_eq_ok hp
    cases hp
    exact normal_quantity hs hq
  | compare left right =>
    refine ⟨hs, fun p hp => ?_⟩
    obtain ⟨q, _, hp⟩ := bind_eq_ok hp
    obtain ⟨operand, _, hp⟩ := bind_eq_ok hp
    cases hp
  | scalarCompare right =>
    refine ⟨hs, fun p hp => ?_⟩
    obtain ⟨q, _, hp⟩ := map_eq_ok hp
    cases hp
  | sameUnits left right =>
    refine ⟨hs, fun p hp => ?_⟩
    obtain ⟨q, _, hp⟩ := bind_eq_ok hp
    obtain ⟨r, _, hp⟩ := bind_eq_ok hp
    cases hp
  | valueIn source family unit =>
    refine ⟨hs, fun p hp => ?_⟩
    obtain ⟨q, _, hp⟩ := bind_eq_ok hp
    obtain ⟨chart, _, hp⟩ := bind_eq_ok hp
    obtain ⟨value, _, hp⟩ := bind_eq_ok hp
    cases hp

/-! ## A list of commands -/

/-- Commands one after the other keep a session settled, and answer only quantities with normal
units. The induction is on the commands, and the session is whatever the ones before have left. -/
theorem settled_run (commands : List Command) :
    ∀ s : Session, s.Settled →
      (s.run commands).1.Settled ∧ ∀ result ∈ (s.run commands).2, NormalAnswer result := by
  induction commands with
  | nil => intro s hs; exact ⟨hs, by simp [run]⟩
  | cons command commands ih =>
    intro s hs
    obtain ⟨hnext, hanswer⟩ := settled_step hs command
    obtain ⟨hlast, hanswers⟩ := ih _ hnext
    refine ⟨hlast, ?_⟩
    intro result hmem
    rcases List.mem_cons.mp hmem with rfl | hmem
    · exact hanswer
    · exact hanswers result hmem

/-- In every run from a session that keeps no quantity yet, the units of every quantity that can be
read afterwards, and of every quantity that was answered on the way, are in normal form. -/
theorem units_normal_of_run (symbols : Symbols) (registry : Registry) (settings : Settings)
    (commands : List Command) :
    let result := Session.run ⟨symbols, registry, settings, Table.empty⟩ commands
    (∀ source q, result.1.quantity source = .ok q → q.units.Normal) ∧
      ∀ q, Except.ok (Answer.quantity q) ∈ result.2 → q.units.Normal := by
  intro result
  have hstart : Settled ⟨symbols, registry, settings, Table.empty⟩ := by
    intro name q hget
    cases hget
  obtain ⟨hsettled, hanswers⟩ := settled_run commands _ hstart
  exact ⟨fun source q hq => normal_quantity hsettled hq, fun q hq => hanswers _ hq q rfl⟩

end Session

/-! ## The quantities there are -/

namespace Quantity

/-- Whether some run leads to the quantity: the run starts from a session that keeps no quantity
yet, and the quantity can be read afterwards or was answered on the way. -/
def Arises (q : Quantity) : Prop :=
  ∃ symbols registry settings commands,
    let result := Session.run ⟨symbols, registry, settings, Table.empty⟩ commands
    (∃ source, result.1.quantity source = .ok q) ∨ .ok (.quantity q) ∈ result.2

theorem Arises.normal {q : Quantity} (h : q.Arises) : q.units.Normal := by
  obtain ⟨symbols, registry, settings, commands, hq⟩ := h
  have hstart : Session.Settled ⟨symbols, registry, settings, Table.empty⟩ := by
    intro name r hget
    cases hget
  obtain ⟨hsettled, hanswers⟩ := Session.settled_run commands _ hstart
  rcases hq with ⟨source, hq⟩ | hq
  · exact Session.normal_quantity hsettled hq
  · exact hanswers _ hq q rfl

/-- A quantity with normal units can be built as it is. -/
theorem arises_iff {q : Quantity} : q.Arises ↔ q.units.Normal := by
  refine ⟨Arises.normal, fun h => ?_⟩
  refine ⟨Symbols.builtin, Registry.builtin, Settings.empty, [], .inl ?_⟩
  refine ⟨.draft ⟨q.value, .terms q.units, .given q.options⟩, ?_⟩
  show Except.ok (ofUnits q.value q.units q.options) = .ok q
  rw [ofUnits, Units.normalize_of_normal h]

end Quantity

end Metrology
