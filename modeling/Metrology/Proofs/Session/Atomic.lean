import Mathlib
import Metrology.Proofs.Session.Basic
import Metrology.Proofs.Settings.Families
import Metrology.Proofs.Symbols.Addition

/-!
# Metrology.Proofs.Session.Atomic -- an error leaves a session as it was

A command that fails changes nothing (`step_of_error`). Whatever puts a quantity into a register
does so after everything that can fail. An addition gives back the symbols or the registry with its
error, and they are what they were: a word is looked at before anything is assigned to it
(`addSymbol_of_error`), and a family is charted before the entry of its name is given up
(`addFamily_of_error`). Registering the families of the settings adds one family after the other;
there it holds because the settings only give families that can be added
(`registerFamilies_of_error`). So the commands that fail can be left out of a run
(`run_successful`).

A command that updates a register reads its operands, the register itself among them, before it
writes, and it writes only that register (`step_update`).
-/

namespace Metrology

namespace Session

/-! ## Errors -/

/-- A symbol that is refused leaves the symbols as they were. -/
theorem addSymbol_of_error {s : Session} {word : String} {dimension : Dimension}
    {prefixable : Bool} {e : SessionError}
    (h : (s.step (.addSymbol word dimension prefixable)).2 = .error e) :
    (s.step (.addSymbol word dimension prefixable)).1 = s := by
  obtain ⟨cause, hcause⟩ := exists_stop_of_verdict h
  rw [step, Symbols.add_eq_of_stopped hcause]

/-- A family that is refused leaves the registry as it was. -/
theorem addFamily_of_error {s : Session} {family : Family} {e : SessionError}
    (h : (s.step (.addFamily family)).2 = .error e) : (s.step (.addFamily family)).1 = s := by
  obtain ⟨cause, hcause⟩ := exists_stop_of_verdict h
  rw [step, Registry.add_eq_of_stopped hcause]

/-- Registering families fails before it has changed anything, or not at all. -/
theorem registerFamilies_of_error {s : Session} {e : SessionError}
    (h : s.registerFamilies.2 = .error e) : s.registerFamilies.1 = s := by
  cases hfamilies : s.settings.families with
  | error e' => simp only [registerFamilies, hfamilies]
  | ok families =>
    -- The families of the settings are complete, so none of them stops the others.
    have hall : (s.registry.addAll families).2 = none := by
      rw [Registry.addAll_of_isComplete (Settings.isComplete_of_mem_families hfamilies)]
    rw [registerFamilies, hfamilies] at h
    obtain ⟨stop, hstop⟩ := exists_stop_of_verdict h
    rw [hall] at hstop
    cases hstop

theorem deliver_of_error {s : Session} {into : Option String}
    {result : Except SessionError Quantity} {e : SessionError}
    (h : (s.deliver into result).2 = .error e) : (s.deliver into result).1 = s := by
  cases result with
  | error e' => rfl
  | ok q => cases h

/-- A command that fails leaves the session as it was. -/
theorem step_of_error {s : Session} {command : Command} {e : SessionError}
    (h : (s.step command).2 = .error e) : (s.step command).1 = s := by
  cases command with
  | addSymbol word dimension prefixable => exact addSymbol_of_error h
  | addFamily family => exact addFamily_of_error h
  | loadSettings text => cases h
  | registerFamilies => exact registerFamilies_of_error h
  | build into draft => exact deliver_of_error h
  | measure into registry family value unit options => exact deliver_of_error h
  | operate into op left right => exact deliver_of_error h
  | scalarOperate into op left right => exact deliver_of_error h
  | unary into f source => exact deliver_of_error h
  | update register op right => exact deliver_of_error h
  | setOptions register mode implicit => exact deliver_of_error h
  | «recall» source => rfl
  | compare left right => rfl
  | scalarCompare right => rfl
  | sameUnits left right => rfl
  | valueIn source family unit => rfl

/-! ## Runs without the commands that fail -/

/-- The commands of a run that succeed where they stand in it. -/
def successful (s : Session) : List Command → List Command
  | [] => []
  | command :: commands =>
    let rest := (s.step command).1.successful commands
    if (s.step command).2.isOk then command :: rest else rest

/-- A run does and answers what its successful commands alone do and answer, the errors left out. -/
theorem run_successful (commands : List Command) :
    ∀ s : Session,
      s.run (s.successful commands) =
        ((s.run commands).1, (s.run commands).2.filter Except.isOk) := by
  induction commands with
  | nil => intro s; rfl
  | cons command commands ih =>
    intro s
    have hrest := ih (s.step command).1
    rw [run_cons, successful]
    cases hresult : (s.step command).2 with
    | error e =>
      -- The session is still the one that the run started in.
      have hkeep : (s.step command).1 = s := step_of_error hresult
      rw [hkeep] at hrest ⊢
      exact hrest
    | ok answer =>
      show s.run (command :: (s.step command).1.successful commands) = _
      rw [run_cons, hrest, hresult]
      rfl

/-! ## Updates -/

/-- An update that succeeds puts into its register what the operation gives on the values before. -/
theorem step_update {s : Session} {register : String} {op : Operation} {right : OperandSource}
    {answer : Answer} (h : (s.step (.update register op right)).2 = .ok answer) :
    ∃ old operand q, s.quantity (.register register) = .ok old ∧ s.operand right = .ok operand ∧
      old.operate op operand = .ok q ∧ s.operate op (.register register) right = .ok q ∧
      s.step (.update register op right) =
        ({ s with registers := s.registers.insert register q }, .ok (.quantity q)) := by
  have hstep : s.step (.update register op right) =
      s.deliver (some register) (s.operate op (.register register) right) := rfl
  rw [hstep] at h ⊢
  cases hresult : s.operate op (.register register) right with
  | error e =>
    rw [hresult] at h
    cases h
  | ok q =>
    obtain ⟨old, hold, hoperate⟩ := Result.bind_eq_ok hresult
    obtain ⟨operand, hoperand, hoperate⟩ := Result.bind_eq_ok hoperate
    exact ⟨old, operand, q, hold, hoperand, lift_eq_ok hoperate, rfl, rfl⟩

/-- **Errors are atomic.** A command that fails leaves the whole session as it was, so a run comes
to the session and the answers that its successful commands come to alone. An update that succeeds
answers what the operation without an update answers, which is the operation on the values from
before, also where its operand is the register itself; that register keeps this result, and nothing
else is changed. -/
theorem errors_atomic (s : Session) :
    (∀ command e, (s.step command).2 = .error e → (s.step command).1 = s) ∧
      (∀ commands, s.run (s.successful commands) =
        ((s.run commands).1, (s.run commands).2.filter Except.isOk)) ∧
      ∀ register op right answer, (s.step (.update register op right)).2 = .ok answer →
        ∃ old operand q, s.registers.get? register = some old ∧ s.operand right = .ok operand ∧
          (right = .quantity (.register register) → operand = .quantity old) ∧
          old.operate op operand = .ok q ∧ answer = .quantity q ∧
          s.step (.operate none op (.register register) right) = (s, .ok answer) ∧
          let next := (s.step (.update register op right)).1
          next.registers.get? register = some q ∧
            (∀ other, other ≠ register →
              next.registers.get? other = s.registers.get? other) ∧
            next.symbols = s.symbols ∧ next.registry = s.registry ∧
            next.settings = s.settings := by
  refine ⟨fun command e h => step_of_error h, fun commands => run_successful commands s, ?_⟩
  intro register op right answer h
  obtain ⟨old, operand, q, hold, hoperand, hoperate, hresult, hstep⟩ := step_update h
  have hanswer : answer = .quantity q := by
    rw [hstep] at h
    cases h
    rfl
  have hself : right = .quantity (.register register) → operand = .quantity old := by
    rintro rfl
    obtain ⟨q', hq', rfl⟩ := Result.map_eq_ok hoperand
    rw [hold] at hq'
    cases hq'
    rfl
  have hplain : s.step (.operate none op (.register register) right) = (s, .ok answer) := by
    show s.deliver none (s.operate op (.register register) right) = _
    rw [hresult, hanswer]
    rfl
  refine ⟨old, operand, q, get?_of_quantity hold, hoperand, hself, hoperate, hanswer, hplain, ?_⟩
  rw [hstep]
  exact ⟨Table.get?_insert_self _ _ _, fun other hne => Table.get?_insert_of_ne _ hne _, rfl, rfl,
    rfl⟩

/-- A family with a prefixable unit that has no multiplier, over one of its name; settings whose
second family is incomplete; a symbol that is no word; and a quantity multiplied by itself in its
register. -/
theorem errors_atomic_attempts :
    let length : Family := .make "length" "m" "" (.ofList [("m", 1)]) Table.empty []
    let s := (Session.run ⟨Symbols.builtin, Table.empty, Settings.empty, Table.empty⟩
      [.addFamily length,
        .loadSettings ("[family.angle]\nstandard_unit = m\nunits = m:1\n" ++
          "[family.area]\nstandard_unit = m^2\nunits = m^2:1\nsi_units = a"),
        .build (some "side") ⟨3, .terms [⟨.length, 1, some .kilo⟩], .given {}⟩]).1
    s.registry.contains "length" = true ∧
      (s.step (.addFamily { length with siUnits := ["ft"] })).1 = s ∧
      (s.step .registerFamilies).1 = s ∧
      (s.step (.addSymbol "m2" .length true)).1 = s ∧
      (s.step (.update "side" .mul (.quantity (.register "side")))).1.registers.get? "side" =
        some ⟨9, [⟨.length, 2, some .kilo⟩], {}⟩ := by
  intro length s
  obtain ⟨herror, -, hupdate⟩ := errors_atomic s
  have hincomplete : (s.step .registerFamilies).2 =
      .error (.error (.settings (.prefixableNotListed "family.area" "a"))) := by
    decide +kernel
  refine ⟨by decide +kernel, herror _ _ rfl, herror _ _ hincomplete, herror _ _ rfl, ?_⟩
  obtain ⟨old, operand, q, hold, -, hself, hq, -, -, hnext, -⟩ :=
    hupdate "side" .mul (.quantity (.register "side")) _ rfl
  have hside : s.registers.get? "side" = some ⟨3, [⟨.length, 1, some .kilo⟩], {}⟩ := by
    decide +kernel
  have hsquare : Quantity.operate ⟨3, [⟨.length, 1, some .kilo⟩], {}⟩ .mul
      (.quantity ⟨3, [⟨.length, 1, some .kilo⟩], {}⟩) =
        .ok ⟨9, [⟨.length, 2, some .kilo⟩], {}⟩ := by
    decide +kernel
  rw [hold] at hside
  cases hside
  rw [hself rfl, hsquare] at hq
  cases hq
  exact hnext

end Session

end Metrology
