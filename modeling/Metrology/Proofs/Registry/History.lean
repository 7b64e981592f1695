import Mathlib
import Metrology.Proofs.Registry
import Metrology.Proofs.Table

/-!
# Metrology.Proofs.Registry.History -- what a registry holds after a history of additions

A registry keeps no record of how it came about, but what it holds can be told from the families it
was offered: under each name stands the chart of the last complete family of that name
(`get?_foldl_offer`), and a family that was refused might as well not have been offered. The
built-in registry is the history of the built-in families, all of which are complete
(`builtin_eq_foldl_offer`).

The search for a unit goes through the families in the order of their names, so it finds the least
of those that know the unit (`isLeastWith_of_familyWith?`), and nothing exactly when none of them
does (`familyWith?_eq_none_iff`).
-/

namespace Metrology

/-! ## The last family of a name -/

namespace Family

instance (family : Family) : Decidable family.IsComplete :=
  decidable_of_iff (family.name ≠ "" ∧ ∀ unit ∈ family.siUnits, family.units.contains unit = true)
    ⟨fun h => ⟨h.1, h.2⟩, fun h => ⟨h.named, h.listed⟩⟩

/-- The last of some families that is complete and has the name. -/
def lastComplete? (families : List Family) (name : String) : Option Family :=
  (families.filter fun family => family.IsComplete ∧ family.name = name).getLast?

theorem lastComplete?_concat (families : List Family) (family : Family) (name : String) :
    lastComplete? (families ++ [family]) name =
      if family.IsComplete ∧ family.name = name then some family
      else lastComplete? families name := by
  rw [lastComplete?, List.filter_append, List.filter_singleton]
  split_ifs with h
  · simp [h]
  · simp [h, lastComplete?]

theorem mem_of_lastComplete? {families : List Family} {family : Family} {name : String}
    (h : lastComplete? families name = some family) :
    family ∈ families ∧ family.IsComplete ∧ family.name = name := by
  simpa using List.mem_filter.mp (List.mem_of_getLast? h)

theorem lastComplete?_eq_none {families : List Family} {name : String}
    (h : ∀ family ∈ families, family.name ≠ name) : lastComplete? families name = none := by
  rw [Option.eq_none_iff_forall_ne_some]
  intro family hlast
  obtain ⟨hmem, -, hname⟩ := mem_of_lastComplete? hlast
  exact h family hmem hname

/-- Among families of different names each is the last of its own. -/
theorem lastComplete?_eq_some {families : List Family} (hnames : (families.map Family.name).Nodup)
    {family : Family} (hmem : family ∈ families) (hcomplete : family.IsComplete) :
    lastComplete? families family.name = some family := by
  have hsome : ∃ last, lastComplete? families family.name = some last := by
    rw [lastComplete?, ← Option.isSome_iff_exists, List.getLast?_isSome]
    exact List.ne_nil_of_mem (List.mem_filter.mpr ⟨hmem, by simpa using hcomplete⟩)
  obtain ⟨last, hlast⟩ := hsome
  obtain ⟨hmem', -, hname⟩ := mem_of_lastComplete? hlast
  rw [hlast, List.inj_on_of_nodup_map hnames hmem' hmem hname]

end Family

open Family (lastComplete?)

namespace Registry

/-! ## What stands under a name -/

/-- What stands under a name is the chart of the last complete family of that name, or what stood
there before. The induction is on the families from the last one back. -/
theorem get?_foldl_offer (registry : Registry) (families : List Family) (name : String) :
    (families.foldl offer registry).get? name =
      (lastComplete? families name).elim (registry.get? name) fun family =>
        family.chart.toOption := by
  induction families using List.reverseRecOn with
  | nil => rfl
  | append_singleton families family ih =>
    rw [List.foldl_append, List.foldl_cons, List.foldl_nil, Family.lastComplete?_concat]
    by_cases hcomplete : family.IsComplete
    · obtain ⟨chart, hchart⟩ := Family.exists_chart_iff.mpr hcomplete.listed
      rw [offer_of_chart hcomplete.named hchart]
      by_cases hname : family.name = name
      · rw [if_pos ⟨hcomplete, hname⟩, ← hname, Table.get?_insert_self, Option.elim_some, hchart]
        rfl
      · rw [if_neg fun h => hname h.2, Table.get?_insert_of_ne _ (Ne.symm hname),
          Table.get?_erase_of_ne _ (Ne.symm hname), ih]
    · rw [offer_of_not_isComplete hcomplete, if_neg fun h => hcomplete h.1, ih]

/-- A registry that started empty holds the charts of the last complete families, and no others. -/
theorem get?_history_iff {families : List Family} {name : String} {chart : Chart} :
    (families.foldl offer Table.empty).get? name = some chart ↔
      ∃ family, lastComplete? families name = some family ∧ family.chart = .ok chart := by
  rw [get?_foldl_offer]
  cases lastComplete? families name with
  | none => simp [Table.empty, Table.get?, Table.lookup?]
  | some family => cases hchart : family.chart <;> simp [hchart, Except.toOption]

/-- Something stands under a name when some complete family has it. -/
theorem exists_history_iff {families : List Family} {name : String} :
    (∃ chart, (families.foldl offer Table.empty).get? name = some chart) ↔
      lastComplete? families name ≠ none := by
  simp only [get?_history_iff, Option.ne_none_iff_exists']
  constructor
  · rintro ⟨chart, family, hlast, -⟩
    exact ⟨family, hlast⟩
  · rintro ⟨family, hlast⟩
    obtain ⟨-, hcomplete, -⟩ := Family.mem_of_lastComplete? hlast
    obtain ⟨chart, hfamily⟩ := Family.exists_chart_iff.mpr hcomplete.listed
    exact ⟨chart, family, hlast, hfamily⟩

/-- No family stands under the empty name. -/
theorem empty_notMem_names_history (families : List Family) :
    "" ∉ (families.foldl offer Table.empty).names := by
  rw [Table.mem_names_iff, exists_history_iff, Option.ne_none_iff_exists']
  rintro ⟨family, hlast⟩
  obtain ⟨-, hcomplete, hname⟩ := Family.mem_of_lastComplete? hlast
  exact hcomplete.named hname

theorem isComplete_of_mem_builtin : ∀ family ∈ Family.builtin, family.IsComplete := by
  decide +kernel

/-- The built-in families have different names. -/
theorem lastComplete?_builtin {family : Family} (hmem : family ∈ Family.builtin) :
    lastComplete? Family.builtin family.name = some family :=
  Family.lastComplete?_eq_some (by decide) hmem (isComplete_of_mem_builtin family hmem)

theorem builtin_eq_foldl_offer : builtin = Family.builtin.foldl offer Table.empty := by
  rw [builtin, addAll_of_isComplete isComplete_of_mem_builtin]

/-- Complete families of different names are all added to any registry: each stands under its name
with its own tables, and nothing else changes. -/
theorem exists_addAll_of_isComplete (registry : Registry) {families : List Family}
    (hcomplete : ∀ family ∈ families, family.IsComplete)
    (hnames : (families.map Family.name).Nodup) :
    ∃ extended, registry.addAll families = (extended, none) ∧
      (∀ family ∈ families, ∃ chart, family.chart = .ok chart ∧
        extended.get? family.name = some chart) ∧
      ∀ name, (∀ family ∈ families, family.name ≠ name) →
        extended.get? name = registry.get? name := by
  refine ⟨_, addAll_of_isComplete hcomplete registry, fun family hmem => ?_, fun name hother => ?_⟩
  · obtain ⟨chart, hchart⟩ := Family.exists_chart_iff.mpr (hcomplete family hmem).listed
    refine ⟨chart, hchart, ?_⟩
    rw [get?_foldl_offer, Family.lastComplete?_eq_some hnames hmem (hcomplete family hmem),
      Option.elim_some, hchart]
    rfl
  · rw [get?_foldl_offer, Family.lastComplete?_eq_none hother, Option.elim_none]

/-! ## Looking up and searching -/

variable {registry : Registry}

theorem chart_eq_ok_iff {name : String} {chart : Chart} :
    registry.chart name = .ok chart ↔ registry.get? name = some chart := by
  rw [Registry.chart]
  cases registry.get? name <;> simp

theorem exists_chart_eq_error_iff {name : String} :
    (∃ e, registry.chart name = .error e) ↔ ¬ ∃ chart, registry.get? name = some chart := by
  rw [Registry.chart]
  cases registry.get? name <;> simp

/-- Whether a family is the least of those that know a unit. -/
def IsLeastWith (registry : Registry) (unit name : String) : Prop :=
  (∃ chart, registry.chart name = .ok chart ∧ chart.has unit = true) ∧
    ∀ other chart, registry.chart other = .ok chart → chart.has unit = true → other ≠ name →
      name < other

/-- What the search finds stands before all others that know the unit. -/
theorem isLeastWith_of_familyWith? {unit name : String} (h : registry.familyWith? unit = some name) :
    registry.IsLeastWith unit name := by
  obtain ⟨⟨_, chart⟩, hfind, rfl⟩ := Option.map_eq_some_iff.mp h
  obtain ⟨hhas, front, back, hentries, hfront⟩ := List.find?_eq_some_iff_append.mp hfind
  have hordered := registry.increasing
  rw [hentries, List.pairwise_append, List.pairwise_cons] at hordered
  obtain ⟨-, ⟨hback, -⟩, -⟩ := hordered
  simp only [IsLeastWith, chart_eq_ok_iff, Table.get?_eq_some_iff, hentries]
  refine ⟨⟨chart, by simp, hhas⟩, fun other chart' hmem hhas' hne => ?_⟩
  rw [List.mem_append, List.mem_cons] at hmem
  rcases hmem with hmem | heq | hmem
  · have hnot : (!chart'.has unit) = true := hfront _ hmem
    rw [hhas'] at hnot
    cases hnot
  · exact absurd (congrArg Prod.fst heq) hne
  · exact hback _ hmem

theorem familyWith?_eq_none_iff {unit : String} :
    registry.familyWith? unit = none ↔
      ∀ name chart, registry.chart name = .ok chart → chart.has unit = false := by
  simp [familyWith?, chart_eq_ok_iff, Table.get?_eq_some_iff]

end Registry

end Metrology
