import Mathlib
import Metrology.Proofs.Quantity.Unprefixed
import Metrology.Proofs.Session.Alike

/-!
# Metrology.Proofs.Session.Unprefixed -- prefixes have no part in what a session computes

Two runs that differ only in prefixes, in the quantities they start from and in the terms that their
commands give, are compared through `unprefixed`, which drops the prefixes from quantities, from
commands and from answers. A command and the same without prefixes look the same in sessions that
look the same (`unprefixed_step`). Hence so do all commands that differ only in prefixes, at every
point of a run (`unprefixed_run`).

A text with units keeps the prefixes in it: it is the same text in both runs, and is read to the
same terms.
-/

namespace Metrology

open Result (through)

/-! ## Dropping prefixes -/

def UnitSource.unprefixed : UnitSource → UnitSource
  | .terms units => .terms units.unprefixed
  | source => source

def Draft.unprefixed (d : Draft) : Draft := { d with units := d.units.unprefixed }

def QuantitySource.unprefixed : QuantitySource → QuantitySource
  | .draft d => .draft d.unprefixed
  | source => source

def OperandSource.unprefixed : OperandSource → OperandSource
  | .quantity source => .quantity source.unprefixed
  | source => source

/-- The command with the prefixes dropped from all terms that it gives. -/
def Command.unprefixed : Command → Command
  | .build into draft => .build into draft.unprefixed
  | .operate into op left right => .operate into op left.unprefixed right.unprefixed
  | .scalarOperate into op left right => .scalarOperate into op left right.unprefixed
  | .unary into f source => .unary into f source.unprefixed
  | .update register op right => .update register op right.unprefixed
  | .recall source => .recall source.unprefixed
  | .compare left right => .compare left.unprefixed right.unprefixed
  | .scalarCompare right => .scalarCompare right.unprefixed
  | .sameUnits left right => .sameUnits left.unprefixed right.unprefixed
  | .valueIn source family unit => .valueIn source.unprefixed family unit
  | command => command

/-- The answer with the prefixes dropped from a quantity; no other answer has any. -/
def Answer.unprefixed : Answer → Answer
  | .quantity q => .quantity q.unprefixed
  | answer => answer

def SessionError.unprefixed : SessionError → SessionError
  | .error e => .error e.unprefixed
  | e => e

namespace Session

/-- What a command comes to, without prefixes. -/
def unprefixedResult : Except SessionError Answer → Except SessionError Answer :=
  through SessionError.unprefixed Answer.unprefixed

/-! ## Reading a session -/

/-- Results of the library that look the same do so as results of a session. -/
theorem through_lift {α γ : Type} {g : α → γ} {x y : Except Error α}
    (hxy : through Error.unprefixed g x = through Error.unprefixed g y) :
    through SessionError.unprefixed g (lift x) = through SessionError.unprefixed g (lift y) :=
  alike_lift (fun _ _ he => congrArg SessionError.error he) hxy

section

variable {s t : Session} (h : Alike Quantity.unprefixed s t)

include h

theorem unprefixed_units (source : UnitSource) :
    through Error.unprefixed Units.unprefixed (s.units source) =
      through Error.unprefixed Units.unprefixed (t.units source.unprefixed) := by
  cases source with
  | builtin text => rfl
  | own text =>
    show _ = through _ _ ((t.symbols.parse text).mapError _)
    rw [← h.symbols]
    rfl
  | terms units =>
    show Except.ok units.unprefixed = Except.ok units.unprefixed.unprefixed
    rw [Units.unprefixed_unprefixed]

theorem unprefixed_build (draft : Draft) :
    through Error.unprefixed Quantity.unprefixed (s.build draft) =
      through Error.unprefixed Quantity.unprefixed (t.build draft.unprefixed) := by
  refine Result.through_bind (g := id) ?_ ?_
  · rw [h.options]
    rfl
  · rintro options _ rfl
    refine Result.through_bind (unprefixed_units h draft.units) ?_
    intro a b hab
    show Except.ok _ = Except.ok _
    rw [Quantity.unprefixed_ofUnits, Quantity.unprefixed_ofUnits, hab]
    rfl

theorem unprefixed_quantity (source : QuantitySource) :
    through SessionError.unprefixed Quantity.unprefixed (s.quantity source) =
      through SessionError.unprefixed Quantity.unprefixed (t.quantity source.unprefixed) := by
  cases source with
  | register name => exact h.register SessionError.unprefixed name
  | draft d => exact through_lift (unprefixed_build h d)

theorem unprefixed_operand (source : OperandSource) :
    through SessionError.unprefixed Operand.unprefixed (s.operand source) =
      through SessionError.unprefixed Operand.unprefixed (t.operand source.unprefixed) := by
  cases source with
  | quantity source =>
    exact Result.through_map (unprefixed_quantity h source)
      fun _ _ hqr => congrArg Operand.quantity hqr
  | scalar x => rfl
  | unsupported description => rfl

theorem unprefixed_operate (op : Operation) (left : QuantitySource) (right : OperandSource) :
    through SessionError.unprefixed Quantity.unprefixed (s.operate op left right) =
      through SessionError.unprefixed Quantity.unprefixed
        (t.operate op left.unprefixed right.unprefixed) := by
  refine Result.through_bind (unprefixed_quantity h left) ?_
  intro q r hqr
  refine Result.through_bind (unprefixed_operand h right) ?_
  intro a b hab
  apply through_lift
  rw [Quantity.through_operate, Quantity.through_operate, hqr, hab]

end

/-! ## One command -/

theorem unprefixed_deliver {s t : Session} (h : Alike Quantity.unprefixed s t)
    (into : Option String) {x y : Except SessionError Quantity}
    (hxy : through SessionError.unprefixed Quantity.unprefixed x =
      through SessionError.unprefixed Quantity.unprefixed y) :
    Alike Quantity.unprefixed (s.deliver into x).1 (t.deliver into y).1 ∧
      unprefixedResult (s.deliver into x).2 = unprefixedResult (t.deliver into y).2 :=
  alike_deliver h into (fun _ _ hqr => congrArg Answer.quantity hqr) hxy

/-- A command does and answers the same as without its prefixes, up to prefixes. -/
theorem unprefixed_step {s t : Session} (h : Alike Quantity.unprefixed s t) (command : Command) :
    Alike Quantity.unprefixed (s.step command).1 (t.step command.unprefixed).1 ∧
      unprefixedResult (s.step command).2 = unprefixedResult (t.step command.unprefixed).2 := by
  cases command with
  | addSymbol word dimension prefixable =>
    exact (alike_addSymbol h word dimension prefixable).imp id (congrArg _)
  | addFamily family => exact (alike_addFamily h family).imp id (congrArg _)
  | loadSettings text => exact (alike_loadSettings h text).imp id (congrArg _)
  | registerFamilies => exact (alike_registerFamilies h).imp id (congrArg _)
  | build into draft => exact unprefixed_deliver h into (through_lift (unprefixed_build h draft))
  | measure into registry family value unit options =>
    apply unprefixed_deliver h into
    rw [h.measure]
  | operate into op left right =>
    exact unprefixed_deliver h into (unprefixed_operate h op left right)
  | scalarOperate into op left right =>
    apply unprefixed_deliver h into
    refine Result.through_bind (unprefixed_quantity h right) ?_
    intro q r hqr
    apply through_lift
    rw [Quantity.through_scalarOperate, Quantity.through_scalarOperate, hqr]
  | unary into f source =>
    apply unprefixed_deliver h into
    refine Result.through_bind (unprefixed_quantity h source) ?_
    intro q r hqr
    show Except.ok _ = Except.ok _
    rw [Quantity.unprefixed_unary, Quantity.unprefixed_unary, hqr]
  | update register op right =>
    exact unprefixed_deliver h (some register) (unprefixed_operate h op (.register register) right)
  | setOptions register mode implicit =>
    apply unprefixed_deliver h (some register)
    refine Result.through_bind (h.register SessionError.unprefixed register) ?_
    intro q r hqr
    show Except.ok _ = Except.ok _
    rw [Quantity.unprefixed_withOptions, Quantity.unprefixed_withOptions, hqr]
  | «recall» source =>
    refine ⟨h, ?_⟩
    exact Result.through_map (unprefixed_quantity h source)
      fun _ _ hqr => congrArg Answer.quantity hqr
  | compare left right =>
    refine ⟨h, ?_⟩
    refine Result.through_bind (unprefixed_quantity h left) ?_
    intro q r hqr
    refine Result.through_bind (unprefixed_operand h right) ?_
    intro a b hab
    show Except.ok (Answer.comparison _) = Except.ok (Answer.comparison _)
    rw [← Quantity.compare_unprefixed q, ← Quantity.compare_unprefixed r, hqr, hab]
  | scalarCompare right =>
    exact ⟨h, Result.through_map (unprefixed_quantity h right) fun _ _ _ => rfl⟩
  | sameUnits left right =>
    refine ⟨h, ?_⟩
    refine Result.through_bind (unprefixed_quantity h left) ?_
    intro q r hqr
    refine Result.through_bind (unprefixed_quantity h right) ?_
    intro q' r' hqr'
    show Except.ok (Answer.flag _) = Except.ok (Answer.flag _)
    rw [← Quantity.hasSameUnits_unprefixed q, ← Quantity.hasSameUnits_unprefixed r, hqr, hqr']
  | valueIn source family unit =>
    refine ⟨h, ?_⟩
    refine Result.through_bind (unprefixed_quantity h source) ?_
    intro q r hqr
    refine Result.through_bind (g := id) ?_ ?_
    · rw [h.chart]
    · rintro chart _ rfl
      refine Result.through_bind (g := id) ?_ ?_
      · apply through_lift
        show through Error.unprefixed id (q.valueIn chart unit) =
          through Error.unprefixed id (r.valueIn chart unit)
        rw [Quantity.through_valueIn, Quantity.through_valueIn, hqr]
      · rintro value _ rfl
        rfl

/-! ## A list of commands -/

/-- Commands that differ only in prefixes come to the same without prefixes. -/
theorem unprefixed_commands_congr {s t : Session} {commands commands' : List Command}
    (hs : Alike Quantity.unprefixed s t)
    (hcommands : commands.map Command.unprefixed = commands'.map Command.unprefixed) :
    Alike Quantity.unprefixed (s.run commands).1 (t.run commands').1 ∧
      (s.run commands).2.map unprefixedResult = (t.run commands').2.map unprefixedResult :=
  alike_commands_congr unprefixed_step hs hcommands

/-- **Prefixes have no part in what is computed.** Let two sessions be the same but for the prefixes
of the quantities that they keep, and two lists of commands be the same but for the prefixes of the
terms in them. Then the answers are the same, one by one, but for the prefixes of the quantities in
them: both commands succeed, or both fail with the same error, and all comparisons and all numbers
that are read off are equal. After any number of commands the sessions are still the same but for
prefixes, so a register holds quantities with the same value, the same options, and the same
dimensions with the same exponents. -/
theorem unprefixed_run {s t : Session} {commands commands' : List Command}
    (hs : Alike Quantity.unprefixed s t)
    (hcommands : commands.map Command.unprefixed = commands'.map Command.unprefixed) :
    (s.run commands).2.map unprefixedResult = (t.run commands').2.map unprefixedResult ∧
      ∀ n, let s' := (s.run (commands.take n)).1
        let t' := (t.run (commands'.take n)).1
        Alike Quantity.unprefixed s' t' ∧
          ∀ name q r, s'.registers.get? name = some q → t'.registers.get? name = some r →
            q.value = r.value ∧ q.options = r.options ∧
              q.units.map (fun u => (u.dimension, u.exponent)) =
                r.units.map fun u => (u.dimension, u.exponent) := by
  refine ⟨(unprefixed_commands_congr hs hcommands).2, fun n => ?_⟩
  have htake : (commands.take n).map Command.unprefixed =
      (commands'.take n).map Command.unprefixed := by
    rw [List.map_take, List.map_take, hcommands]
  have halike := (unprefixed_commands_congr hs htake).1
  refine ⟨halike, fun name q r hq hr => ?_⟩
  have hqr := halike.registers name
  rw [hq, hr] at hqr
  exact Quantity.unprefixed_eq_iff.mp (Option.some.inj hqr)

/-- A speed in kilometres or in metres, times a duration in milliseconds or in seconds. The answers
are not the same, since a product has the prefixes of its operands; without prefixes they are. -/
theorem unprefixed_run_distance :
    let speed (p : Option Prefix) : Quantity := ⟨5, [⟨.length, 1, p⟩, ⟨.time, -1, none⟩], {}⟩
    let duration (p : Option Prefix) : QuantitySource :=
      .draft ⟨2, .terms [⟨.time, 1, p⟩, ⟨.time, 0, some .yotta⟩], .given {}⟩
    let commands (p : Option Prefix) : List Command :=
      [.operate (some "distance") .mul (.register "speed") (.quantity (duration p)),
        .update "speed" .add (.quantity (.register "distance")),
        .compare (.register "distance") (.quantity (.register "distance")),
        .update "speed" .add (.quantity (.register "speed"))]
    let s := fresh.keep (some "speed") (speed (some .kilo))
    let t := fresh.keep (some "speed") (speed none)
    (s.run (commands (some .milli))).2 ≠ (t.run (commands none)).2 ∧
      (s.run (commands (some .milli))).2.map unprefixedResult =
        (t.run (commands none)).2.map unprefixedResult := by
  intro speed duration commands s t
  have hs : Alike Quantity.unprefixed s t :=
    (Alike.refl fresh).keep (some "speed") rfl
  have hcommands : (commands (some .milli)).map Command.unprefixed =
      (commands none).map Command.unprefixed :=
    rfl
  exact ⟨by decide +kernel, (unprefixed_run hs hcommands).1⟩

end Session

end Metrology
