import Mathlib
import Metrology.Proofs.Binary64.Longest
import Metrology.Proofs.Console.Conversion
import Metrology.Proofs.Settings.Units

/-!
# Metrology.Proofs.Console.Values -- how much of a value is looked at

A multiplier in a settings file and a value on the command line are both read as numbers, but a
multiplier must be a number as a whole, and of a value only the longest number that it starts with
is looked at (`run_longest_number`). What stands behind that number is passed over without a word,
and so a value that no multiplier could be written as is converted.
-/

namespace Metrology

namespace Settings

/-- A text is read as a multiplier when the longest number that it starts with is all of it. -/
theorem exists_multiplier?_iff {text front : List Char} {n : Numeral}
    (h : Numeral.LongestNumber text front n) :
    (∃ m, multiplier? text = some m) ↔
      front = text ∧ n.inRange = true ∧ (0 : Binary64).less n.value = true := by
  obtain ⟨rest, hs, hread⟩ := h.exists_read?_eq
  simp only [multiplier?_eq_some_iff, hread, Option.some.injEq, Prod.mk.injEq]
  constructor
  · rintro ⟨m, n', ⟨rfl, rfl⟩, hrange, rfl, hpositive⟩
    exact ⟨by rw [hs, List.append_nil], hrange, hpositive⟩
  · rintro ⟨rfl, hrange, hpositive⟩
    exact ⟨n.value, n, ⟨rfl, List.self_eq_append_right.mp hs⟩, hrange, rfl, hpositive⟩

end Settings

namespace Console

open Program

variable {files : String → Option String} {registry : Registry}

/-- A run that converts a value in a registry, after settings files that are all read. -/
theorem run_value {names : List String} (h : Configures files Registry.builtin names registry)
    {value : String} (source target : String) (given : Option String)
    (hvalue : value ∉ ["--config", "--list", "--render"]) :
    run files
        (names.flatMap (fun file => ["--config", file]) ++ value :: source :: target :: given.toList) =
      (do complain (Warning.log (names.flatMap (warnings files)))
          convert registry value source target (given.getD "")).outcome := by
  have hargs : configFiles (value :: source :: target :: given.toList) = [] := by
    rw [configFiles, if_neg]
    rintro rfl
    exact hvalue List.mem_cons_self
  rw [run, h.runWith_eq hargs, command_of_notMem_options registry source target given hvalue]

/-- **The command line converts the longest number that a value starts with.** After settings files
that are all read, arguments with a value, two units and possibly a family are refused as an invalid
value when the value starts with no number. Otherwise only the longest number that it starts with is
looked at: the run is the one with that number alone, and it is converted if it is in range. A
multiplier, though, is read from the same text only when that number is all of it, in range and
greater than zero. -/
theorem run_longest_number {names : List String}
    (hconfigures : Configures files Registry.builtin names registry) (value source target : String)
    (given : Option String) :
    let outcome := fun value => run files
      (names.flatMap (fun file => ["--config", file]) ++ value :: source :: target :: given.toList)
    let log := Warning.log (names.flatMap (warnings files))
    (value ∉ ["--config", "--list", "--render"] →
        (∀ front, front <+: value.toList → ¬ Numeral.IsNumber front) →
      outcome value = ⟨1, "", log ++ "Error: Invalid value '" ++ value ++ "'\n"⟩) ∧
    ∀ front n, Numeral.LongestNumber value.toList front n →
      outcome value = outcome (.ofList front) ∧
      outcome value =
        (if n.inRange then
          (do complain log
              convertValue registry (given.getD "") n.value source target).outcome
        else ⟨1, "", log ++ "Error: Value out of range\n"⟩) ∧
      ((∃ m, Settings.multiplier? value.toList = some m) ↔
        front = value.toList ∧ n.inRange = true ∧ (0 : Binary64).less n.value = true) := by
  intro outcome log
  -- What a run does with a value is told by what is read of it.
  have hread : ∀ {value n rest}, Numeral.read? value.toList = some (n, rest) → outcome value =
      if n.inRange then
        (do complain log
            convertValue registry (given.getD "") n.value source target).outcome
      else ⟨1, "", log ++ "Error: Value out of range\n"⟩ := by
    intro value n rest hread
    show run files _ = _
    rw [run_value hconfigures source target given (notMem_options_of_read? hread), convert, hread]
    dsimp only
    split_ifs
    · rfl
    · rw [refuse_eq, complain_bind]
      rfl
  refine ⟨fun hvalue hnone => ?_, fun front n h => ?_⟩
  · show run files _ = _
    rw [run_value hconfigures source target given hvalue, convert, Numeral.read?_eq_none_iff.mpr hnone]
    dsimp only
    rw [refuse_eq, complain_bind]
    simp only [Program.outcome, String.append_assoc]
    rfl
  · obtain ⟨rest, -, hvalue⟩ := h.exists_read?_eq
    have hfront : Numeral.read? (String.ofList front).toList = some (n, []) := by
      rw [String.toList_ofList]
      exact h.read
    exact ⟨(hread hvalue).trans (hread hfront).symm, hread hvalue,
      Settings.exists_multiplier?_iff h⟩

/-- A number with a prefixed unit behind it, which is no multiplier. -/
theorem run_longest_number_unit :
    let outcome := fun value => run (fun _ => none) [value, "A", "A"]
    outcome "2kA" = outcome "2" ∧ ¬ ∃ m, Settings.multiplier? "2kA".toList = some m := by
  intro outcome
  have hread : Numeral.read? "2kA".toList = some (.decimal false 2 0, "kA".toList) := by rfl
  obtain ⟨front, hcut, hlongest⟩ := Numeral.read?_eq_some_iff.mp hread
  obtain rfl : front = ['2'] := List.append_cancel_right hcut.symm
  obtain ⟨hsame, -, hmultiplier⟩ := (run_longest_number (.nil Registry.builtin) "2kA" "A" "A"
    none).2 _ _ hlongest
  exact ⟨hsame, fun h => absurd (hmultiplier.mp h).1 (by decide)⟩

/-- Text behind a number is passed over: here a prefixed unit, and the value is not prefixed. -/
theorem trailing_text_converted :
    ¬ Numeral.IsNumber "2kA".toList ∧
      (run (fun _ => none) ["2kA", "A", "A", "current"]).exitCode = 0 := by
  have hread : Numeral.read? "2kA".toList = some (.decimal false 2 0, "kA".toList) := by rfl
  constructor
  · rintro ⟨n, h⟩
    rw [hread, Option.some.injEq, Prod.mk.injEq] at h
    exact absurd h.2 (by decide)
  · -- The unit is no alias in its family, and so its chart has it.
    let family := Family.Builtin.current
    have hmem : family ∈ Family.builtin := by simp [Family.builtin, family]
    have hcomplete := Registry.isComplete_of_mem_builtin family hmem
    obtain ⟨chart, hchart⟩ := Family.exists_chart_iff.mpr hcomplete.listed
    have hfamily : chart.family = family := (Family.chart_eq_ok_iff.mp hchart).1
    have hhas : chart.has "A" = true := by
      refine (Family.has_iff_not_isDangling hchart (.inl rfl)).mpr fun hdangling => ?_
      obtain ⟨unit, hget, -⟩ := hdangling.target
      cases hget
    have hname : family.name = "current" := rfl
    have hregistered : Registry.builtin.chart "current" = .ok chart := by
      rw [Registry.chart_eq_ok_iff, Registry.builtin_eq_foldl_offer, Registry.get?_history_iff, ← hname]
      exact ⟨family, Registry.lastComplete?_builtin hmem, hchart⟩
    have hrun : run (fun _ => none) ["2kA", "A", "A", "current"] = _ :=
      run_value (.nil Registry.builtin) "A" "A" (some "current") (notMem_options_of_read? hread)
    rw [hrun, convert, hread]
    dsimp only
    rw [if_pos (Numeral.inRange_whole false (by decide))]
    obtain ⟨_, _, _, _, _, -, -, -, -, -, -, heq⟩ | ⟨hunknown, -⟩ := convertValue_cases
      Registry.sound_builtin "current" (Numeral.decimal false 2 0).value "A" "A"
    · rw [Option.getD_some, heq]
      rfl
    · exact absurd ⟨chart, hregistered, hhas, hhas, by rw [hfamily]; exact hhas⟩ hunknown

end Console

end Metrology
