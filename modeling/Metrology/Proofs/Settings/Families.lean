import Mathlib
import Metrology.Proofs.Quantity.Family
import Metrology.Proofs.Registry.History
import Metrology.Proofs.Settings.Family
import Metrology.Proofs.Text.Bytes

/-!
# Metrology.Proofs.Settings.Families -- the families that settings describe can be used

Reading a family from its section checks the parts of the family against each other
(`family_eq_ok`). What is checked there is all that the rest of the library asks of a family: it has
a name, its prefixable units have multipliers, and its standard expression is read. The families of
the settings are read in the order of their names, one for each section, and no two have one name
(`familyNames`); so adding them to a registry is never stopped, and none of them displaces another
(`families_usable`).
-/

namespace Metrology

namespace Settings

variable {s : Settings}

/-! ## Sections that describe a family -/

/-- The names of the families that have a section, in order. -/
def familyNames (s : Settings) : List String :=
  (s.headingsWith familyStart).map familyName

theorem map_familyNames : s.familyNames.map (familyStart ++ ·) = s.headingsWith familyStart := by
  have hheading : ∀ heading ∈ s.headingsWith familyStart,
      familyStart ++ familyName heading = heading := by
    intro heading hmem
    obtain ⟨name, rfl⟩ := Text.isPrefixOf_iff.mp (List.mem_filter.mp hmem).2
    rw [familyName_append]
  rw [familyNames, List.map_map]
  exact (List.map_congr_left hheading).trans (List.map_id _)

theorem mem_familyNames {name : String} :
    name ∈ s.familyNames ↔ s.hasSection (familyStart ++ name) = true := by
  have hmem : name ∈ s.familyNames ↔ familyStart ++ name ∈ s.headingsWith familyStart := by
    rw [← map_familyNames]
    exact (List.mem_map_of_injective fun _ _ h =>
      (String.append_right_inj familyStart).mp h).symm
  rw [hmem, headingsWith, List.mem_filter, Table.mem_names_iff, hasSection, Table.contains_iff,
    and_iff_left (Text.isPrefixOf_iff.mpr ⟨name, rfl⟩)]

theorem pairwise_familyNames : s.familyNames.Pairwise (· < ·) := by
  have hheadings : (s.familyNames.map (familyStart ++ ·)).Pairwise (· < ·) := by
    rw [map_familyNames]
    exact (List.pairwise_map.mpr s.sections.increasing).filter _
  exact (List.pairwise_map.mp hheadings).imp Text.append_lt_append_iff.mp

/-! ## Reading families -/

/-- What passes the check is the family that was checked, with its standard unit and the units that
take prefixes listed, and its standard expression read. -/
theorem checkFamily_eq_ok {heading : String} {family checked : Family}
    (h : checkFamily heading family = .ok checked) :
    checked = family ∧
      (∀ unit ∈ family.standardUnit :: family.siUnits, family.units.contains unit = true) ∧
      ∃ standard, Units.parse family.standardExpression = .ok standard := by
  obtain ⟨hstandardUnit, h⟩ := Result.refusal_eq_ok_iff.mp h
  split at h
  · cases h
  · next hnone =>
    have hlisted : ∀ unit ∈ family.siUnits, family.units.contains unit = true := by
      simpa using List.find?_eq_none.mp hnone
    split at h
    · cases h
    · next standard hparse =>
      cases h
      exact ⟨rfl, List.forall_mem_cons.mpr ⟨by simpa using hstandardUnit, hlisted⟩,
        standard, hparse⟩

/-- A family that is read from a section has the name in the heading and the units that are read from
its list, and has passed the check. -/
theorem exists_entries_of_family {heading : String} {family : Family}
    (h : s.family heading = .ok family) :
    familyName heading ≠ "" ∧ family.name = familyName heading ∧
      (∃ units, entries (unitEntry heading) (s.getItems heading "units") = .ok units ∧
        family.units = .ofList units) ∧
      checkFamily heading family = .ok family := by
  obtain ⟨-, h⟩ := Result.refusal_eq_ok_iff.mp h
  obtain ⟨hname, h⟩ := Result.refusal_eq_ok_iff.mp h
  obtain ⟨-, h⟩ := Result.refusal_eq_ok_iff.mp h
  split at h
  · cases h
  · next units hunits =>
    split at h
    · cases h
    · obtain ⟨rfl, -, -⟩ := checkFamily_eq_ok h
      exact ⟨hname, rfl, ⟨units, hunits, rfl⟩, h⟩

/-- A family that is read from a section has the name in the heading, is complete, and has a
standard expression that is read. -/
theorem family_eq_ok {heading : String} {family : Family} (h : s.family heading = .ok family) :
    family.name = familyName heading ∧ family.IsComplete ∧
      ∃ standard, Units.parse family.standardExpression = .ok standard := by
  obtain ⟨hname, hnamed, -, hcheck⟩ := exists_entries_of_family h
  obtain ⟨-, hlisted, hstandard⟩ := checkFamily_eq_ok hcheck
  exact ⟨hnamed, ⟨hnamed ▸ hname, (List.forall_mem_cons.mp hlisted).2⟩, hstandard⟩

/-- Families are read under their headings one by one: all of them, or none and the error of one of
them. The induction is on the names in the headings. -/
theorem familiesUnder_cases (s : Settings) (names : List String) :
    (∃ name ∈ names, ∃ e, s.family (familyStart ++ name) = .error e ∧
        s.familiesUnder (names.map (familyStart ++ ·)) = .error e) ∨
      ∃ families, s.familiesUnder (names.map (familyStart ++ ·)) = .ok families ∧
        families.map Family.name = names ∧
        ∀ family ∈ families, s.family (familyStart ++ family.name) = .ok family := by
  induction names with
  | nil => exact .inr ⟨[], rfl, rfl, by simp⟩
  | cons name names ih =>
    rw [List.map_cons, familiesUnder]
    cases hfamily : s.family (familyStart ++ name) with
    | error e => exact .inl ⟨name, List.mem_cons_self, e, hfamily, rfl⟩
    | ok family =>
      obtain ⟨other, hother, e, herror, hunder⟩ | ⟨families, hunder, hnames, hread⟩ := ih
      · exact .inl ⟨other, List.mem_cons_of_mem _ hother, e, herror, by simp [hunder, Except.map]⟩
      · have hname : family.name = name := by
          rw [(family_eq_ok hfamily).1, familyName_append]
        refine .inr ⟨family :: families, by simp [hunder, Except.map], ?_, ?_⟩
        · rw [List.map_cons, hname, hnames]
        · rw [List.forall_mem_cons, hname]
          exact ⟨hfamily, hread⟩

theorem families_eq_familiesUnder :
    s.families = s.familiesUnder (s.familyNames.map (familyStart ++ ·)) := by
  rw [map_familyNames]
  rfl

/-- What settings describe are families of the names in their headings, each read from its own
section. -/
theorem families_eq_ok {families : List Family} (h : s.families = .ok families) :
    families.map Family.name = s.familyNames ∧
      ∀ family ∈ families, s.family (familyStart ++ family.name) = .ok family := by
  rw [families_eq_familiesUnder] at h
  obtain ⟨name, -, e, -, hunder⟩ | ⟨families', hunder, hread⟩ :=
    familiesUnder_cases s s.familyNames
  · rw [hunder] at h
    cases h
  · rw [hunder, Except.ok.injEq] at h
    exact h ▸ hread

/-- The families that settings describe are complete. -/
theorem isComplete_of_mem_families {families : List Family} (h : s.families = .ok families) :
    ∀ family ∈ families, family.IsComplete :=
  fun family hmem => (family_eq_ok ((families_eq_ok h).2 family hmem)).2.1

/-- **The families that settings describe can be used.** Whatever has been loaded, reading the
families fails under the heading of one of them, or gives one family for each section whose heading
starts with `family.`, in strictly increasing order of the bytes of their names. All of these can
then be added to any registry, where each stands under its name with the tables worked out from it,
and every other name keeps what it had. And any value given in the standard unit of such a family
becomes a quantity that holds the value as it is, with the units of the standard expression, and
gives it back in the standard unit. -/
theorem families_usable (s : Settings) :
    (∃ name e, s.hasSection (familyStart ++ name) = true ∧
      s.family (familyStart ++ name) = .error e ∧ s.families = .error e) ∨
    ∃ families, s.families = .ok families ∧
      families.Pairwise (fun a b => Text.bytes a.name < Text.bytes b.name) ∧
      (∀ name, s.hasSection (familyStart ++ name) = true ↔
        ∃ family ∈ families, family.name = name) ∧
      (∀ family ∈ families, s.family (familyStart ++ family.name) = .ok family) ∧
      (∀ registry : Registry, ∃ extended, registry.addAll families = (extended, none) ∧
        (∀ family ∈ families, ∃ chart, family.chart = .ok chart ∧
          extended.chart family.name = .ok chart) ∧
        ∀ name, (∀ family ∈ families, family.name ≠ name) →
          extended.chart name = registry.chart name) ∧
      ∀ family ∈ families, ∃ chart standard, family.chart = .ok chart ∧
        Units.parse family.standardExpression = .ok standard ∧
        ∀ (value : Binary64) (options : Quantity.Options), ∃ q,
          Quantity.ofFamily chart value family.standardUnit options = .ok q ∧
            q.value = value ∧ q.units = standard.normalize ∧
            q.valueIn chart family.standardUnit = .ok value := by
  obtain ⟨name, hname, e, herror, hunder⟩ | ⟨families, hunder, hnames, hread⟩ :=
    familiesUnder_cases s s.familyNames
  · exact .inl ⟨name, e, mem_familyNames.mp hname, herror, families_eq_familiesUnder.trans hunder⟩
  · have hfamilies : s.families = .ok families := families_eq_familiesUnder.trans hunder
    have hordered : (families.map Family.name).Pairwise (· < ·) := hnames ▸ pairwise_familyNames
    have hcomplete := isComplete_of_mem_families hfamilies
    refine .inr ⟨families, hfamilies, ?_, fun name => ?_, hread, fun registry => ?_,
      fun family hmem => ?_⟩
    · exact (List.pairwise_map.mp hordered).imp Text.bytes_lt_iff.mpr
    · rw [← mem_familyNames, ← hnames, List.mem_map]
    · have hnodup : (families.map Family.name).Nodup :=
        hordered.imp String.ne_of_lt
      obtain ⟨extended, hadd, hregistered, hother⟩ :=
        Registry.exists_addAll_of_isComplete registry hcomplete hnodup
      simp only [Registry.chart_eq_ok_iff]
      refine ⟨extended, hadd, hregistered, fun name hne => ?_⟩
      rw [Registry.chart, Registry.chart, hother name hne]
    · obtain ⟨chart, hchart⟩ := Family.exists_chart_iff.mpr (hcomplete family hmem).listed
      obtain ⟨-, -, standard, hparse⟩ := family_eq_ok (hread family hmem)
      refine ⟨chart, standard, hchart, hparse, ?_⟩
      obtain ⟨rfl, -, -⟩ := Family.chart_eq_ok_iff.mp hchart
      exact Quantity.exists_ofFamily_standardUnit hparse

/-- A section that two texts make up, and a section before it in the order of the names: an alias
hides the standard unit of its own family. -/
example :
    let first := "[family.speed]\nunits = m/s:1, km/h:3.6\naliases = m/s:km/h\n"
    let second := "[family.speed]\nstandard_unit = m/s\n[family.area]\nstandard_unit = m^2\n" ++
      "units = m^2:1\n"
    ((empty.load first).1.load second).1.families.toOption.map (List.map Family.name) =
      some ["area", "speed"] := by
  decide +kernel

end Settings

end Metrology
