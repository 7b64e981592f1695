import Mathlib
import Metrology.Proofs.Console.Outcome

/-!
# Metrology.Proofs.Console.Conversion -- when the converter converts

A conversion on the command line goes through the registry, the family's tables and the standard
expression, and some of these it passes by: two equal names are converted without a look at the
tables. Still it succeeds exactly when the family is there and knows the source, the target and its
own standard unit (`run_conversion`), since the target is looked for in any case, and every family
that can come into the registry has a standard expression that is read (`Registry.Sound`).
-/

namespace Metrology

/-! ## Registries of usable families -/

namespace Registry

/-- Whether the families of a registry have names, and standard expressions that are read. -/
def Sound (registry : Registry) : Prop :=
  ∀ name chart, registry.chart name = .ok chart →
    name ≠ "" ∧ ∃ standard, Units.parse chart.family.standardExpression = .ok standard

theorem sound_empty : Sound Table.empty := by
  intro name chart h
  cases chart_eq_ok_iff.mp h

theorem Sound.foldl_offer {registry : Registry} (h : registry.Sound) {families : List Family}
    (hread : ∀ family ∈ families, ∃ standard, Units.parse family.standardExpression = .ok standard) :
    Sound (families.foldl offer registry) := by
  intro name chart hchart
  rw [chart_eq_ok_iff, get?_foldl_offer] at hchart
  cases hlast : Family.lastComplete? families name with
  | none =>
    rw [hlast] at hchart
    exact h name chart (chart_eq_ok_iff.mpr hchart)
  | some family =>
    obtain ⟨hmem, hcomplete, rfl⟩ := Family.mem_of_lastComplete? hlast
    obtain ⟨charted, hcharted⟩ := Family.exists_chart_iff.mpr hcomplete.listed
    rw [hlast, Option.elim_some, hcharted] at hchart
    cases hchart
    obtain ⟨rfl, -, -⟩ := Family.chart_eq_ok_iff.mp hcharted
    exact ⟨hcomplete.named, hread _ hmem⟩

theorem sound_builtin : builtin.Sound := by
  have hread : ∀ family ∈ Family.builtin,
      (Units.parse family.standardExpression).toOption.isSome = true := by
    decide +kernel
  rw [builtin_eq_foldl_offer]
  refine sound_empty.foldl_offer fun family hmem => ?_
  have hsome := hread family hmem
  cases hparse : Units.parse family.standardExpression with
  | ok standard => exact ⟨standard, rfl⟩
  | error e => simp [hparse, Except.toOption] at hsome

end Registry

namespace Console

open Program

variable {files : String → Option String} {registry : Registry}

namespace Configures

theorem sound {names : List String} {final : Registry}
    (h : Configures files registry names final) (hsound : registry.Sound) : final.Sound := by
  induction h with
  | nil => exact hsound
  | @cons registry extended final file text rest families opened read added others ih =>
    have hfamilies := Registry.addAll_of_isComplete
      (Settings.isComplete_of_mem_families read) registry
    rw [hfamilies, Prod.mk.injEq] at added
    obtain ⟨rfl, -⟩ := added
    exact ih (hsound.foldl_offer fun family hmem =>
      (Settings.family_eq_ok ((Settings.families_eq_ok read).2 family hmem)).2.2)

end Configures

/-! ## Arguments of a conversion -/

/-- No option is a text that starts with a number. -/
theorem notMem_options_of_read? {value : String} {n : Numeral} {rest : List Char}
    (hread : Numeral.read? value.toList = some (n, rest)) :
    value ∉ ["--config", "--list", "--render"] := by
  have hnone : ∀ option ∈ ["--config", "--list", "--render"],
      Numeral.read? option.toList = none := by
    decide
  intro hmem
  rw [hnone value hmem] at hread
  cases hread

/-- Arguments that name a value and units are a conversion, unless the value is an option. -/
theorem command_of_notMem_options (registry : Registry) {value : String} (source target : String)
    (given : Option String) (h : value ∉ ["--config", "--list", "--render"]) :
    command registry (value :: source :: target :: given.toList) =
      convert registry value source target (given.getD "") := by
  simp only [List.mem_cons, not_or] at h
  obtain ⟨-, hlist, hrender, -⟩ := h
  unfold command
  cases given with
  | none => simp [hlist, hrender]
  | some family => simp [hlist, hrender]

/-- Arguments that start with a number are a conversion. -/
theorem command_of_read? (registry : Registry) {value source target : String}
    {given : Option String} {n : Numeral} {rest : List Char}
    (hread : Numeral.read? value.toList = some (n, rest)) (hrange : n.inRange = true) :
    command registry (value :: source :: target :: given.toList) =
      convertValue registry (given.getD "") n.value source target := by
  rw [command_of_notMem_options registry source target given (notMem_options_of_read? hread),
    convert, hread]
  exact if_pos hrange

/-! ## Conversions -/

/-- With a target that is known, a value is converted and its quantity is built when the source and
the standard unit are known too. -/
theorem exists_conversions_iff {chart : Chart} {standard : Units} {value : Binary64}
    {source target : String} (hstandard : Units.parse chart.family.standardExpression = .ok standard)
    (htarget : chart.has target = true) (options : Quantity.Options) :
    ((∃ result, chart.convert value source target = .ok result) ∧
      ∃ built, Quantity.ofFamily chart value source options = .ok built) ↔
    chart.has source = true ∧ chart.has chart.family.standardUnit = true := by
  have hsource : (∃ result, chart.convert value source target = .ok result) ↔
      chart.has source = true := by
    rw [Chart.exists_convert_iff, and_iff_left htarget, or_iff_right_of_imp]
    rintro rfl
    exact htarget
  rw [hsource]
  refine and_congr_right fun hhas => ?_
  rw [Quantity.exists_ofFamily_iff hstandard options, Chart.toStandard, Chart.exists_convert_iff,
    and_iff_right hhas, or_iff_right_of_imp]
  intro heq
  exact heq ▸ hhas

/-- A value is converted in the family that is asked for or found when that family is there, and
knows the source, the target and its own standard unit. -/
theorem convertValue_cases (hsound : registry.Sound) (family : String) (value : Binary64)
    (source target : String) :
    let chosen := chosenFamily registry family source
    (∃ chart result inStandard factor standard, registry.chart chosen = .ok chart ∧
      (chart.has source = true ∧ chart.has target = true ∧
        chart.has chart.family.standardUnit = true) ∧
      chart.convert value source target = .ok result ∧
      chart.toStandard value source = .ok inStandard ∧
      chart.convert 1 source target = .ok factor ∧
      Units.parse chart.family.standardExpression = .ok standard ∧
      convertValue registry family value source target =
        ⟨conversionText chosen value source target result
            (Quantity.ofUnits inStandard standard ⟨.fractional, false⟩) ++
          factorText source target factor, "", .ok 0⟩) ∨
    ((¬ ∃ chart, registry.chart chosen = .ok chart ∧ chart.has source = true ∧
        chart.has target = true ∧ chart.has chart.family.standardUnit = true) ∧
      ∃ complaint, convertValue registry family value source target = refuse complaint) := by
  intro chosen
  rw [convertValue]
  by_cases hchosen : chosen = ""
  · -- No family has the empty name, which stands for none found.
    rw [if_pos hchosen]
    refine .inr ⟨?_, _, rfl⟩
    rintro ⟨chart, hchart, -⟩
    exact (hsound _ _ hchart).1 hchosen
  · rw [if_neg hchosen]
    obtain ⟨chart, result, built, factor, hchart, htarget, hresult, hbuilt, hfactor, heq⟩ |
      ⟨hnone, hrefuse⟩ := convertIn_cases registry chosen value source target
    · obtain ⟨standard, hstandard⟩ := (hsound _ _ hchart).2
      obtain ⟨hsource, hunit⟩ :=
        (exists_conversions_iff hstandard htarget _).mp ⟨⟨_, hresult⟩, _, hbuilt⟩
      obtain ⟨inStandard, hx⟩ := (Quantity.exists_ofFamily_iff hstandard _).mp ⟨_, hbuilt⟩
      rw [Quantity.ofFamily_eq_ok hstandard hx] at hbuilt
      cases hbuilt
      exact .inl ⟨chart, result, inStandard, factor, standard, hchart, ⟨hsource, htarget, hunit⟩,
        hresult, hx, hfactor, hstandard, heq⟩
    · refine .inr ⟨?_, hrefuse⟩
      rintro ⟨chart, hchart, hsource, htarget, hunit⟩
      obtain ⟨standard, hstandard⟩ := (hsound _ _ hchart).2
      exact hnone chart hchart htarget
        ((exists_conversions_iff hstandard htarget _).mpr ⟨hsource, hunit⟩)

/-- **The command line converts exactly when the library can.** After settings files that are all
read, arguments with a number, two units and possibly a family are converted in the family that is
given, or where none is given or an empty name, in the first one that knows the source. The run is
successful if and only if that family is there and knows the source, the target and its own standard
unit; and then it reports the converted value, the value in the standard unit, and one converted
likewise. -/
theorem run_conversion {names : List String} {registry : Registry}
    (hconfigures : Configures files Registry.builtin names registry)
    {value source target : String} {given : Option String} {n : Numeral} {rest : List Char}
    (hread : Numeral.read? value.toList = some (n, rest)) (hrange : n.inRange = true) :
    let outcome := run files
      (names.flatMap (fun file => ["--config", file]) ++ value :: source :: target :: given.toList)
    let family :=
      if given.getD "" = "" then (registry.familyWith? source).getD "" else given.getD ""
    (outcome.exitCode = 0 ↔
      ∃ chart, registry.chart family = .ok chart ∧ chart.has source = true ∧
        chart.has target = true ∧ chart.has chart.family.standardUnit = true) ∧
    (outcome.exitCode = 0 →
      ∃ chart result inStandard factor standard, registry.chart family = .ok chart ∧
        chart.convert n.value source target = .ok result ∧
        chart.toStandard n.value source = .ok inStandard ∧
        chart.convert 1 source target = .ok factor ∧
        Units.parse chart.family.standardExpression = .ok standard ∧
        outcome.out =
          "\nConversion Result (" ++ family ++ "):\n==================\n\n" ++
          "  Input:    " ++ n.value.written (.fixed 6) ++ " " ++ source ++ "\n" ++
          "  Output:   " ++ result.written (.fixed 6) ++ " " ++ target ++ "\n\n" ++
          "  Standard: " ++ inStandard.written (.scientific 6) ++ " " ++
            standard.normalize.exponential ++ "\n\n" ++
          ("Conversion Factor: 1 " ++ source ++ " = " ++ factor.written (.scientific 9) ++ " " ++
            target ++ "\n\n")) := by
  intro outcome family
  have hoption := notMem_options_of_read? hread
  have hargs : configFiles (value :: source :: target :: given.toList) = [] := by
    rw [configFiles, if_neg]
    rintro rfl
    exact hoption List.mem_cons_self
  have hsound : registry.Sound := hconfigures.sound Registry.sound_builtin
  have hrun := hconfigures.runWith_eq hargs
  rw [command_of_read? registry hread hrange, complain_bind] at hrun
  obtain ⟨chart, result, inStandard, factor, standard, hchart, hknown, hresult, hx, hfactor,
    hstandard, heq⟩ | ⟨hunknown, complaint, heq⟩ :=
      convertValue_cases hsound (given.getD "") n.value source target
  · rw [heq] at hrun
    have houtcome : outcome = _ := run_eq hrun
    rw [houtcome]
    exact ⟨iff_of_true rfl ⟨chart, hchart, hknown⟩, fun _ =>
      ⟨chart, result, inStandard, factor, standard, hchart, hresult, hx, hfactor, hstandard, rfl⟩⟩
  · rw [heq, refuse_eq] at hrun
    have houtcome : outcome = _ := run_eq hrun
    rw [houtcome]
    have hcode : (1 : UInt32) ≠ 0 := by decide
    exact ⟨iff_of_false hcode hunknown, fun h => absurd h hcode⟩

/-- A family of speeds from a settings file, asked for by its name, with an alias as the source. -/
theorem run_conversion_speed :
    let text := "[family.speed]\nstandard_unit = m/s\nunits = m/s:1, km/h:3.6\naliases = kph:km/h\n"
    let files := fun file => if file = "speed.conf" then some text else none
    (∃ registry, Configures files Registry.builtin ["speed.conf"] registry) ∧
      Numeral.read? "36".toList = some (.decimal false 36 0, []) ∧
      (Numeral.decimal false 36 0).inRange = true ∧
      (run files ["--config", "speed.conf", "36", "kph", "m/s", "speed"]).exitCode = 0 := by
  intro text files
  let speed : Family :=
    { name := "speed"
      standardUnit := "m/s"
      standardExpression := "m/s"
      units := .ofList [("m/s", 1), ("km/h", 3.6)]
      aliases := .ofList [("kph", "km/h")]
      siUnits := [] }
  have hread : (Settings.empty.load text).1.families = .ok [speed] := by decide +kernel
  -- The registry is only known through what has been added, so the built-in tables are left alone.
  obtain ⟨registry, hadded, hregistered, -⟩ := Registry.exists_addAll_of_isComplete
    Registry.builtin (Settings.isComplete_of_mem_families hread) (List.nodup_singleton _)
  have hconfigures : Configures files Registry.builtin ["speed.conf"] registry :=
    .cons rfl hread hadded (.nil registry)
  obtain ⟨chart, hchart, hget⟩ := hregistered speed List.mem_cons_self
  have hknown : chart.has "kph" = true ∧ chart.has "m/s" = true ∧
      chart.has chart.family.standardUnit = true := by
    cases hchart
    decide +kernel
  have hnumeral : Numeral.read? "36".toList = some (.decimal false 36 0, []) := by decide +kernel
  have hrange : (Numeral.decimal false 36 0).inRange = true := by decide +kernel
  have hsuccessful := (@run_conversion files ["speed.conf"] registry hconfigures "36" "kph" "m/s"
    (some "speed") _ _ hnumeral hrange).1
  exact ⟨⟨registry, hconfigures⟩, hnumeral, hrange,
    hsuccessful.mpr ⟨chart, Registry.chart_eq_ok_iff.mpr hget, hknown⟩⟩

end Console

end Metrology
