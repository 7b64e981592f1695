import Mathlib
import Metrology.Proofs.Quantity.Unvalued
import Metrology.Proofs.Session.Alike

/-!
# Metrology.Proofs.Session.Unvalued -- values have no part in what units a session checks

Two runs that differ only in values, in the quantities they start from and in the numbers that their
commands give, are compared through `unvalued`, which leaves the values out of quantities, commands
and answers. What stays in a command is a number that is the exponent of a power. A command and the
same without values look the same in sessions that look the same (`unvalued_step`): they fail with
one error, or they give quantities with the same units and the same options.

Other answers that come from values, comparisons and numbers that are read off, are left out whole.
That two quantities have the same units is no such answer, and stays.
-/

namespace Metrology

open Result (through)

/-! ## Leaving values out -/

def Draft.unvalued (d : Draft) : Draft := { d with value := 0 }

def QuantitySource.unvalued : QuantitySource → QuantitySource
  | .draft d => .draft d.unvalued
  | source => source

def OperandSource.unvalued (isExponent : Bool) : OperandSource → OperandSource
  | .quantity source => .quantity source.unvalued
  | .scalar x => .scalar (if isExponent then x else 0)
  | .unsupported description => .unsupported description

/-- The command with all values left out that it gives. -/
def Command.unvalued : Command → Command
  | .build into draft => .build into draft.unvalued
  | .measure into registry family _ unit options => .measure into registry family 0 unit options
  | .operate into op left right => .operate into op left.unvalued (right.unvalued (op = .pow))
  | .scalarOperate into op _ right => .scalarOperate into op 0 right.unvalued
  | .unary into f source => .unary into f source.unvalued
  | .update register op right => .update register op (right.unvalued (op = .pow))
  | .recall source => .recall source.unvalued
  | .compare left right => .compare left.unvalued (right.unvalued false)
  | .scalarCompare right => .scalarCompare right.unvalued
  | .sameUnits left right => .sameUnits left.unvalued right.unvalued
  | .valueIn source family unit => .valueIn source.unvalued family unit
  | command => command

/-- The answer with the value of a quantity left out, and what else comes from values. -/
def Answer.unvalued : Answer → Answer
  | .quantity q => .quantity q.unvalued
  | .comparison _ => .comparison Quantity.scalarCompare
  | .number _ => .number 0
  | answer => answer

namespace Session

/-- What a command comes to, without values. -/
def unvaluedResult : Except SessionError Answer → Except SessionError Answer :=
  through id Answer.unvalued

/-! ## Reading a session -/

theorem through_id_lift {α γ : Type} {g : α → γ} {x y : Except Error α}
    (hxy : through id g x = through id g y) : through id g (lift x) = through id g (lift y) :=
  alike_lift (fun _ _ he => congrArg SessionError.error he) hxy

section

variable {s t : Session} (h : Alike Quantity.unvalued s t)

include h

theorem unvalued_build (draft : Draft) :
    through id Quantity.unvalued (s.build draft) =
      through id Quantity.unvalued (t.build draft.unvalued) := by
  have hunits : s.units draft.units = t.units draft.units := by
    unfold units
    rw [h.symbols]
  refine Result.through_bind (g := id) (congrArg _ (h.options draft.options)) ?_
  rintro options _ rfl
  refine Result.through_bind (g := id) (congrArg _ hunits) ?_
  rintro units _ rfl
  rfl

theorem unvalued_quantity (source : QuantitySource) :
    through id Quantity.unvalued (s.quantity source) =
      through id Quantity.unvalued (t.quantity source.unvalued) := by
  cases source with
  | register name => exact h.register id name
  | draft d => exact through_id_lift (unvalued_build h d)

theorem unvalued_operand (isExponent : Bool) (source : OperandSource) :
    through id (Operand.unvalued isExponent) (s.operand source) =
      through id (Operand.unvalued isExponent) (t.operand (source.unvalued isExponent)) := by
  cases source with
  | quantity source =>
    exact Result.through_map (unvalued_quantity h source)
      fun _ _ hqr => congrArg Operand.quantity hqr
  | scalar x => cases isExponent <;> rfl
  | unsupported description => rfl

theorem unvalued_operate (op : Operation) (left : QuantitySource) (right : OperandSource) :
    through id Quantity.unvalued (s.operate op left right) =
      through id Quantity.unvalued
        (t.operate op left.unvalued (right.unvalued (op = .pow))) := by
  refine Result.through_bind (unvalued_quantity h left) ?_
  intro q r hqr
  refine Result.through_bind (unvalued_operand h (op = .pow) right) ?_
  intro a b hab
  apply through_id_lift
  rw [Quantity.through_operate_unvalued q, Quantity.through_operate_unvalued r, hqr, hab]

theorem unvalued_measure (registry : RegistrySource) (family : String) (value value' : Binary64)
    (unit : String) (source : OptionSource) :
    through id Quantity.unvalued (s.measure registry family value unit source) =
      through id Quantity.unvalued (t.measure registry family value' unit source) := by
  refine Result.through_bind (g := id) (congrArg _ (h.chart registry family)) ?_
  rintro chart _ rfl
  refine Result.through_bind (g := id) (congrArg _ (h.options source)) ?_
  rintro options _ rfl
  exact Quantity.through_ofFamily_unvalued chart value value' unit options

end

/-! ## One command -/

theorem unvalued_deliver {s t : Session} (h : Alike Quantity.unvalued s t) (into : Option String)
    {x y : Except SessionError Quantity}
    (hxy : through id Quantity.unvalued x = through id Quantity.unvalued y) :
    Alike Quantity.unvalued (s.deliver into x).1 (t.deliver into y).1 ∧
      unvaluedResult (s.deliver into x).2 = unvaluedResult (t.deliver into y).2 :=
  alike_deliver h into (fun _ _ hqr => congrArg Answer.quantity hqr) hxy

/-- A command does and answers the same as without its values, up to values. -/
theorem unvalued_step {s t : Session} (h : Alike Quantity.unvalued s t) (command : Command) :
    Alike Quantity.unvalued (s.step command).1 (t.step command.unvalued).1 ∧
      unvaluedResult (s.step command).2 = unvaluedResult (t.step command.unvalued).2 := by
  cases command with
  | addSymbol word dimension prefixable =>
    exact (alike_addSymbol h word dimension prefixable).imp id (congrArg _)
  | addFamily family => exact (alike_addFamily h family).imp id (congrArg _)
  | loadSettings text => exact (alike_loadSettings h text).imp id (congrArg _)
  | registerFamilies => exact (alike_registerFamilies h).imp id (congrArg _)
  | build into draft => exact unvalued_deliver h into (through_id_lift (unvalued_build h draft))
  | measure into registry family value unit options =>
    exact unvalued_deliver h into
      (through_id_lift (unvalued_measure h registry family value 0 unit options))
  | operate into op left right => exact unvalued_deliver h into (unvalued_operate h op left right)
  | scalarOperate into op left right =>
    apply unvalued_deliver h into
    refine Result.through_bind (unvalued_quantity h right) ?_
    intro q r hqr
    apply through_id_lift
    rw [Quantity.through_scalarOperate_unvalued q, Quantity.through_scalarOperate_unvalued r, hqr]
  | unary into f source =>
    apply unvalued_deliver h into
    refine Result.through_bind (unvalued_quantity h source) ?_
    intro q r hqr
    show Except.ok _ = Except.ok _
    rw [Quantity.unvalued_unary q, Quantity.unvalued_unary r, hqr]
  | update register op right =>
    exact unvalued_deliver h (some register) (unvalued_operate h op (.register register) right)
  | setOptions register mode implicit =>
    apply unvalued_deliver h (some register)
    refine Result.through_bind (h.register id register) ?_
    intro q r hqr
    obtain ⟨hunits, hoptions⟩ := Quantity.unvalued_eq_iff.mp hqr
    refine congrArg Except.ok (Quantity.unvalued_eq_iff.mpr ⟨hunits, ?_⟩)
    rw [Quantity.withOptions, Quantity.withOptions, hoptions]
  | «recall» source =>
    refine ⟨h, ?_⟩
    exact Result.through_map (unvalued_quantity h source)
      fun _ _ hqr => congrArg Answer.quantity hqr
  | compare left right =>
    refine ⟨h, ?_⟩
    refine Result.through_bind (unvalued_quantity h left) fun _ _ _ => ?_
    exact Result.through_bind (unvalued_operand h false right) fun _ _ _ => rfl
  | scalarCompare right =>
    exact ⟨h, Result.through_map (unvalued_quantity h right) fun _ _ _ => rfl⟩
  | sameUnits left right =>
    refine ⟨h, ?_⟩
    refine Result.through_bind (unvalued_quantity h left) ?_
    intro q r hqr
    refine Result.through_bind (unvalued_quantity h right) ?_
    intro q' r' hqr'
    show Except.ok (Answer.flag _) = Except.ok (Answer.flag _)
    rw [Quantity.hasSameUnits, Quantity.hasSameUnits, (Quantity.unvalued_eq_iff.mp hqr).1,
      (Quantity.unvalued_eq_iff.mp hqr').1]
  | valueIn source family unit =>
    refine ⟨h, ?_⟩
    refine Result.through_bind (unvalued_quantity h source) ?_
    intro q r hqr
    refine Result.through_bind (g := id) (congrArg (fun c => through id id (lift c))
      (h.chart .own family)) ?_
    intro chart chart' hchart
    obtain rfl : chart = chart' := hchart
    refine Result.through_bind (g := fun _ => ()) ?_ fun _ _ _ => rfl
    apply through_id_lift
    rw [Quantity.through_valueIn_unvalued q, Quantity.through_valueIn_unvalued r, hqr]

/-! ## A list of commands -/

/-- What a command comes to in two runs that differ at most in values: one error in both, or answers
of the same kind, which are quantities with the same units and options, comparisons of values,
numbers that are read off, or else the same answer. -/
inductive SameButValues : Except SessionError Answer → Except SessionError Answer → Prop
  | error (e : SessionError) : SameButValues (.error e) (.error e)
  | quantity {q r : Quantity} : q.units = r.units → q.options = r.options →
      SameButValues (.ok (.quantity q)) (.ok (.quantity r))
  | comparison (c c' : Comparison) : SameButValues (.ok (.comparison c)) (.ok (.comparison c'))
  | number (x x' : Binary64) : SameButValues (.ok (.number x)) (.ok (.number x'))
  | same (a : Answer) : SameButValues (.ok a) (.ok a)

theorem sameButValues_of_unvaluedResult {x y : Except SessionError Answer}
    (h : unvaluedResult x = unvaluedResult y) : SameButValues x y := by
  obtain ⟨e, rfl, rfl⟩ | ⟨a, b, rfl, rfl, hab⟩ := Result.through_id_eq_iff.mp h
  · exact .error e
  · cases a with
    | quantity q =>
      cases b with
      | quantity r =>
        obtain ⟨hunits, hoptions⟩ := Quantity.unvalued_eq_iff.mp (Answer.quantity.inj hab)
        exact .quantity hunits hoptions
      | _ => cases hab
    | comparison c =>
      cases b with
      | comparison c' => exact .comparison c c'
      | _ => cases hab
    | number x =>
      cases b with
      | number x' => exact .number x x'
      | _ => cases hab
    | _ =>
      cases b <;> cases hab
      exact .same _

/-- **Values have no part in the checking of units.** Let two sessions be the same but for the values
of the quantities that they keep, and two lists of commands be the same but for the values in them,
exponents of powers apart. Then, one by one, commands of the two runs fail with the same error, and
so with the same message, or both succeed; and the quantities that they give have the same units and
the same options. After any number of commands the sessions are still the same but for values. -/
theorem unvalued_run {s t : Session} {commands commands' : List Command}
    (hs : Alike Quantity.unvalued s t)
    (hcommands : commands.map Command.unvalued = commands'.map Command.unvalued) :
    List.Forall₂ SameButValues (s.run commands).2 (t.run commands').2 ∧
      ∀ n, let s' := (s.run (commands.take n)).1
        let t' := (t.run (commands'.take n)).1
        Alike Quantity.unvalued s' t' ∧
          ∀ name q r, s'.registers.get? name = some q → t'.registers.get? name = some r →
            q.units = r.units ∧ q.options = r.options := by
  obtain ⟨-, hresults⟩ := alike_commands_congr unvalued_step hs hcommands
  refine ⟨?_, fun n => ?_⟩
  · rw [← List.forall₂_eq_eq_eq, List.forall₂_map_left_iff, List.forall₂_map_right_iff] at hresults
    exact hresults.imp fun _ _ => sameButValues_of_unvaluedResult
  · have htake : (commands.take n).map Command.unvalued =
        (commands'.take n).map Command.unvalued := by
      rw [List.map_take, List.map_take, hcommands]
    have halike := (alike_commands_congr unvalued_step hs htake).1
    refine ⟨halike, fun name q r hq hr => ?_⟩
    have hqr := halike.registers name
    rw [hq, hr] at hqr
    exact Quantity.unvalued_eq_iff.mp (Option.some.inj hqr)

/-- A mass that is no number, and one of zero, which is multiplied, divided by, raised to a power,
added to something else and read off in another unit. -/
theorem unvalued_run_mass :
    let mass (x : Binary64) : Quantity := ⟨x, [⟨.mass, 1, some .kilo⟩], {}⟩
    let speed (x : Binary64) : QuantitySource :=
      .draft ⟨x, .builtin "m/s", .given { implicitDimensionless := true }⟩
    let commands (x y : Binary64) : List Command :=
      [.operate (some "momentum") .mul (.register "mass") (.quantity (speed x)),
        .operate (some "speed") .div (.register "momentum") (.quantity (.register "mass")),
        .update "mass" .add (.quantity (.register "momentum")),
        .update "mass" .pow (.scalar 2),
        .update "mass" .mul (.scalar y),
        .scalarOperate (some "pace") .div y (speed x),
        .valueIn (.register "mass") "mass" "lb"]
    let s := fresh.keep (some "mass") (mass (.nan false))
    let t := fresh.keep (some "mass") (mass 0)
    (s.run (commands 3 (.infinite true))).2 ≠ (t.run (commands (-3) 1)).2 ∧
      List.Forall₂ SameButValues (s.run (commands 3 (.infinite true))).2
        (t.run (commands (-3) 1)).2 := by
  intro mass speed commands s t
  have hs : Alike Quantity.unvalued s t := (Alike.refl fresh).keep (some "mass") rfl
  have hcommands : (commands 3 (.infinite true)).map Command.unvalued =
      (commands (-3) 1).map Command.unvalued :=
    rfl
  exact ⟨by decide +kernel, (unvalued_run hs hcommands).1⟩

end Session

end Metrology
