import Mathlib
import Metrology.Proofs.Family.Expansion
import Metrology.Proofs.Result
import Metrology.Registry

/-!
# Metrology.Proofs.Registry -- which families can be added

A family is *complete* when it has a name, and a multiplier for each unit that takes prefixes. That
is all that adding it to a registry asks: complete families are charted, all others are refused
(`add_eq_none_iff`), and a refusal changes nothing (`add_eq_of_stopped`). So a list of families is
added without a stop as soon as each of them is complete (`addAll_of_isComplete`), whatever stood in
the registry before.
-/

namespace Metrology

/-- Whether a family has what adding it asks for. -/
structure Family.IsComplete {α : Type} (family : Family α) : Prop where
  named : family.name ≠ ""
  listed : ∀ unit ∈ family.siUnits, family.units.contains unit = true

namespace Family

theorem not_isComplete_iff {α : Type} {family : Family α} :
    ¬ family.IsComplete ↔
      family.name = "" ∨ ∃ unit ∈ family.siUnits, family.units.contains unit = false := by
  have hparts : family.IsComplete ↔
      family.name ≠ "" ∧ ∀ unit ∈ family.siUnits, family.units.contains unit = true :=
    ⟨fun h => ⟨h.named, h.listed⟩, fun h => ⟨h.1, h.2⟩⟩
  simp only [hparts, not_and_or, ne_eq, not_not, not_forall, Bool.not_eq_true, exists_prop]

variable {α : Type} [Mul α] [OfScientific α]

theorem exists_chart_iff {family : Family α} :
    (∃ chart, family.chart = .ok chart) ↔
      ∀ unit ∈ family.siUnits, family.units.contains unit = true := by
  rw [← exists_expandUnits_iff, chart]
  cases expandUnits family.units family.siUnits with
  | error e => simp [Except.map]
  | ok units => simp [Except.map]

/-- A chart is the family itself with both of its tables worked out. -/
theorem chart_eq_ok_iff {family : Family α} {chart : Chart α} :
    family.chart = .ok chart ↔
      chart.family = family ∧ expandUnits family.units family.siUnits = .ok chart.units ∧
        chart.aliases = expandAliases family.aliases family.siUnits := by
  rw [Family.chart]
  constructor
  · intro h
    obtain ⟨units, hunits, rfl⟩ := Result.map_eq_ok h
    exact ⟨rfl, hunits, rfl⟩
  · obtain ⟨charted, units, aliases⟩ := chart
    rintro ⟨hfamily, hunits, haliases⟩
    dsimp only at hfamily hunits haliases
    subst hfamily haliases
    rw [hunits]
    rfl

end Family

namespace Registry

theorem add_of_chart {registry : Registry} {family : Family} {chart : Chart}
    (hname : family.name ≠ "") (hchart : family.chart = .ok chart) :
    registry.add family = ((registry.erase family.name).insert family.name chart, none) := by
  rw [add, if_neg hname, hchart]

/-- A family that is refused changes nothing: what would take the place of another has been charted
before that one gives it up. -/
theorem add_eq_of_stopped {registry : Registry} {family : Family} {e : ConversionError}
    (h : (registry.add family).2 = some e) : registry.add family = (registry, some e) := by
  rw [add] at h ⊢
  split_ifs at h ⊢ with hname
  · rw [← h]
  · cases hchart : family.chart with
    | error cause =>
      rw [hchart] at h
      rw [← h]
    | ok chart =>
      rw [hchart] at h
      cases h

/-- The families that can be added are the complete ones. -/
theorem add_eq_none_iff {registry : Registry} {family : Family} :
    (registry.add family).2 = none ↔ family.IsComplete := by
  constructor
  · intro h
    rw [add] at h
    split_ifs at h with hname
    cases hchart : family.chart with
    | error e =>
      rw [hchart] at h
      cases h
    | ok chart => exact ⟨hname, Family.exists_chart_iff.mp ⟨chart, hchart⟩⟩
  · intro h
    obtain ⟨chart, hchart⟩ := Family.exists_chart_iff.mpr h.listed
    rw [add_of_chart h.named hchart]

theorem exists_add_eq_some_iff {registry : Registry} {family : Family} :
    (∃ e, (registry.add family).2 = some e) ↔ ¬ family.IsComplete := by
  rw [← add_eq_none_iff, ← Option.ne_none_iff_exists']

/-- The registry with a family, or as it was where the family is refused. -/
def offer (registry : Registry) (family : Family) : Registry := (registry.add family).1

theorem offer_of_chart {registry : Registry} {family : Family} {chart : Chart}
    (hname : family.name ≠ "") (hchart : family.chart = .ok chart) :
    registry.offer family = (registry.erase family.name).insert family.name chart := by
  rw [offer, add_of_chart hname hchart]

theorem offer_of_not_isComplete {registry : Registry} {family : Family}
    (h : ¬ family.IsComplete) : registry.offer family = registry := by
  obtain ⟨e, he⟩ := exists_add_eq_some_iff.mpr h
  rw [offer, add_eq_of_stopped he]

/-- Complete families are all added. The induction is on the families, over any registry that the
ones before have left. -/
theorem addAll_of_isComplete {families : List Family} (h : ∀ family ∈ families, family.IsComplete) :
    ∀ registry : Registry, registry.addAll families = (families.foldl offer registry, none) := by
  induction families with
  | nil => intro registry; rfl
  | cons family families ih =>
    intro registry
    have hadd : registry.add family = (registry.offer family, none) :=
      Prod.ext rfl (add_eq_none_iff.mpr (h family List.mem_cons_self))
    rw [addAll, hadd, List.foldl_cons]
    exact ih (fun f hf => h f (List.mem_cons_of_mem _ hf)) (registry.offer family)

end Registry

end Metrology
