import Mathlib
import Metrology.Proofs.Registry.History
import Metrology.Proofs.Text.Bytes

/-!
# Metrology.Proofs.Registry.References -- families handed over where they are

A family of the caller's own is added as such (`addRef_own`). One that the registry holds is refused
when nothing stands under its name, and otherwise the call has no defined result (`addRef_held`):
every family a registry has come to hold is complete and stands under its own name, so nothing stops
the call before the entry is given up, and the name that is read then went with it.

So a history of calls has a defined result exactly when none of them hands back a family that the
registry holds at that point, and what the registry answers then is settled by the families of the
caller's own, with the built-in ones in front (`registry_of_history`). The calls that hand back a
family of the registry are no mere possibility: the first one on a fresh registry can do so
(`held_family_lost`).
-/

namespace Metrology

open Family (lastComplete?)

namespace Registry

/-- The family that is handed over, if it is one of the caller's own. -/
def FamilyRef.own? : FamilyRef → Option Family
  | .own family => some family
  | .held _ => none

/-! ## One call -/

theorem addRef_own (registry : Registry) (family : Family) :
    registry.addRef (.own family) = some (registry.add family) := by
  simp only [addRef, add, FamilyRef.read]
  split_ifs with hname
  · rfl
  · cases family.chart <;> rfl

/-- A name under which nothing stands is refused; what stands under a name is complete, and is gone
before its name is read again. -/
theorem addRef_held {registry : Registry} {families : List Family}
    (hregistry : registry = families.foldl offer Table.empty) (name : String) :
    registry.addRef (.held name) =
      if lastComplete? families name = none then some (registry, some (.unknownFamily name))
      else none := by
  cases hlast : lastComplete? families name with
  | none =>
    have hget : registry.get? name = none := by
      rw [hregistry, get?_foldl_offer, hlast]
      rfl
    rw [if_pos rfl, addRef, FamilyRef.read, chart, hget]
    rfl
  | some family =>
    obtain ⟨-, hcomplete, rfl⟩ := Family.mem_of_lastComplete? hlast
    obtain ⟨chart, hchart⟩ := Family.exists_chart_iff.mpr hcomplete.listed
    have hget : registry.get? family.name = some chart :=
      hregistry ▸ get?_history_iff.mpr ⟨family, hlast, hchart⟩
    obtain ⟨rfl, -⟩ := Family.chart_eq_ok_iff.mp hchart
    simp only [addRef, FamilyRef.read, Registry.chart, hget, Except.map, hchart,
      if_neg hcomplete.named, Table.get?_erase_self, reduceCtorEq, if_false]

/-! ## Histories of calls -/

theorem addRefs?_concat (registry : Registry) (refs : List FamilyRef) (ref : FamilyRef) :
    registry.addRefs? (refs ++ [ref]) =
      (registry.addRefs? refs).bind fun next => (next.addRef ref).map Prod.fst := by
  simp [addRefs?, List.foldlM_append]

/-- The families of the caller's own in a history, with the built-in ones in front. -/
def ownFamilies (refs : List FamilyRef) : List Family :=
  Family.builtin ++ refs.filterMap FamilyRef.own?

theorem ownFamilies_concat_own (refs : List FamilyRef) (family : Family) :
    ownFamilies (refs ++ [.own family]) = ownFamilies refs ++ [family] := by
  simp [ownFamilies, FamilyRef.own?]

theorem ownFamilies_concat_held (refs : List FamilyRef) (name : String) :
    ownFamilies (refs ++ [.held name]) = ownFamilies refs := by
  simp [ownFamilies, FamilyRef.own?]

theorem ownFamilies_subset {before refs : List FamilyRef} (h : before <+: refs) :
    ownFamilies before ⊆ ownFamilies refs :=
  ((h.sublist.filterMap _).append_left Family.builtin).subset

/-- Where the result of a history is defined, it is that of the caller's own families. The induction
is on the calls from the last one back, as the one before leaves the registry it is about. -/
theorem addRefs?_builtin {refs : List FamilyRef} {registry : Registry}
    (h : builtin.addRefs? refs = some registry) :
    registry = (ownFamilies refs).foldl offer Table.empty := by
  induction refs using List.reverseRecOn generalizing registry with
  | nil =>
    have hstart : builtin.addRefs? [] = some builtin := rfl
    rw [hstart] at h
    obtain rfl := Option.some.inj h
    rw [builtin_eq_foldl_offer, ownFamilies, List.filterMap_nil, List.append_nil]
  | append_singleton refs ref ih =>
    rw [addRefs?_concat, Option.bind_eq_some_iff] at h
    obtain ⟨next, hrefs, h⟩ := h
    have hnext := ih hrefs
    cases ref with
    | own family =>
      rw [addRef_own] at h
      rw [ownFamilies_concat_own, List.foldl_append, ← hnext]
      exact (Option.some.inj h).symm
    | held name =>
      rw [addRef_held hnext] at h
      rw [ownFamilies_concat_held, ← hnext]
      split_ifs at h
      · exact (Option.some.inj h).symm
      · cases h

/-- After a history of additions, a call has no defined result exactly when it hands back a family
that stands in the registry. -/
theorem addRef_eq_none_iff {registry : Registry} {families : List Family} {ref : FamilyRef}
    (hregistry : registry = families.foldl offer Table.empty) :
    registry.addRef ref = none ↔
      ∃ name, ref = .held name ∧ lastComplete? families name ≠ none := by
  cases ref with
  | own family => simp [addRef_own]
  | held name => simp [addRef_held hregistry]

/-- A history of calls has no defined result exactly when one of them hands back a family that
stands in the registry by then. -/
theorem addRefs?_builtin_eq_none_iff {refs : List FamilyRef} :
    builtin.addRefs? refs = none ↔
      ∃ before name, before ++ [.held name] <+: refs ∧
        lastComplete? (ownFamilies before) name ≠ none := by
  induction refs using List.reverseRecOn with
  | nil => simp [addRefs?]
  | append_singleton refs ref ih =>
    rw [addRefs?_concat]
    cases hrefs : builtin.addRefs? refs with
    | none =>
      obtain ⟨before, name, hbefore, hlast⟩ := ih.mp hrefs
      exact iff_of_true rfl ⟨before, name, hbefore.trans (List.prefix_append _ _), hlast⟩
    | some next =>
      rw [Option.bind_some, Option.map_eq_none_iff, addRef_eq_none_iff (addRefs?_builtin hrefs)]
      constructor
      · rintro ⟨name, rfl, hlast⟩
        exact ⟨refs, name, List.prefix_rfl, hlast⟩
      · rintro ⟨before, name, hbefore, hlast⟩
        rcases List.prefix_concat_iff.mp hbefore with heq | hbefore
        · obtain ⟨rfl, href⟩ := List.append_inj' heq rfl
          exact ⟨name, (List.singleton_inj.mp href).symm, hlast⟩
        · -- None of the calls before has handed such a family back.
          have hnone : builtin.addRefs? refs = none := ih.mpr ⟨before, name, hbefore, hlast⟩
          rw [hrefs] at hnone
          cases hnone

/-! ## What a registry answers -/

/-- What the search for a unit answers, with the empty name where it finds nothing, when that is the
name of no family. -/
theorem familyWith?_getD {registry : Registry} (hempty : "" ∉ registry.names) (unit : String) :
    let found := (registry.familyWith? unit).getD ""
    (found = "" ↔ ∀ name chart, registry.chart name = .ok chart → chart.has unit = false) ∧
      (found ≠ "" →
        (∃ chart, registry.chart found = .ok chart ∧ chart.has unit = true) ∧
          ∀ other chart, registry.chart other = .ok chart → chart.has unit = true →
            other ≠ found → Text.bytes found < Text.bytes other) := by
  intro found
  cases hfound : registry.familyWith? unit with
  | none =>
    have hnone : found = "" := by simp [found, hfound]
    exact ⟨iff_of_true hnone (familyWith?_eq_none_iff.mp hfound), fun h => absurd hnone h⟩
  | some name =>
    have hname : found = name := by simp [found, hfound]
    obtain ⟨⟨chart, hget, hhas⟩, hleast⟩ := isLeastWith_of_familyWith? hfound
    have hne : name ≠ "" := by
      rintro rfl
      exact hempty (Table.mem_names_iff.mpr ⟨chart, chart_eq_ok_iff.mp hget⟩)
    rw [hname]
    refine ⟨iff_of_false hne fun hall => ?_, fun _ => ⟨⟨chart, hget, hhas⟩, ?_⟩⟩
    · rw [hall name chart hget] at hhas
      cases hhas
    · intro other chart' hother hhas' hne'
      exact Text.bytes_lt_iff.mpr (hleast other chart' hother hhas' hne')

/-- **What a registry answers is settled by the history of additions.** Families are added to the
built-in registry, the caller's own and such as the registry holds, each where it is. The result is
defined exactly when no call hands back a family that stands in the registry by then. As long as it
is: a family of the caller's own is refused exactly when it has no name or lists a prefixable unit
without a multiplier, and then nothing changes; a name under which nothing stands is refused too.
Under a name stands the last of the caller's own families of that name that was not refused,
built-in ones included, with its tables worked out, and a conversion error where there is none; the
names are listed in the order of their bytes, and the empty one is never among them. Searching for a
unit gives the first name in that order whose family knows the unit, and the empty name exactly when
no family does. -/
theorem registry_of_history (refs : List FamilyRef) :
    let last := lastComplete? (ownFamilies refs)
    (builtin.addRefs? refs = none ↔
      ∃ before name, before ++ [.held name] <+: refs ∧
        lastComplete? (ownFamilies before) name ≠ none) ∧
    ∀ registry, builtin.addRefs? refs = some registry →
      (∀ family, ∃ next stop, registry.addRef (.own family) = some (next, stop) ∧
        ((∃ e, stop = some e) ↔
          family.name = "" ∨ ∃ unit ∈ family.siUnits, family.units.contains unit = false) ∧
        ∀ e, stop = some e → next = registry) ∧
      (∀ name,
        (last name = none →
          registry.addRef (.held name) = some (registry, some (.unknownFamily name))) ∧
        (last name ≠ none → registry.addRef (.held name) = none) ∧
        (∀ chart, registry.chart name = .ok chart ↔
          ∃ family, last name = some family ∧ chart.family = family ∧
            Family.expandUnits family.units family.siUnits = .ok chart.units ∧
            chart.aliases = Family.expandAliases family.aliases family.siUnits) ∧
        ((∃ e, registry.chart name = .error e) ↔ last name = none) ∧
        (name ∈ registry.names ↔ last name ≠ none)) ∧
      registry.names.Pairwise (fun a b => Text.bytes a < Text.bytes b) ∧
      "" ∉ registry.names ∧
      ∀ unit,
        let found := (registry.familyWith? unit).getD ""
        (found = "" ↔ ∀ name chart, registry.chart name = .ok chart → chart.has unit = false) ∧
          (found ≠ "" →
            (∃ chart, registry.chart found = .ok chart ∧ chart.has unit = true) ∧
              ∀ other chart, registry.chart other = .ok chart → chart.has unit = true →
                other ≠ found → Text.bytes found < Text.bytes other) := by
  intro last
  refine ⟨addRefs?_builtin_eq_none_iff, fun registry hrefs => ?_⟩
  have hempty : "" ∉ registry.names :=
    addRefs?_builtin hrefs ▸ empty_notMem_names_history (ownFamilies refs)
  refine ⟨fun family => ⟨(registry.add family).1, (registry.add family).2,
      addRef_own registry family, ?_, ?_⟩,
    fun name => ⟨fun hlast => ?_, fun hlast => ?_, fun chart => ?_, ?_, ?_⟩, ?_, hempty,
    familyWith?_getD hempty⟩
  · rw [exists_add_eq_some_iff, Family.not_isComplete_iff]
  · intro e he
    rw [add_eq_of_stopped he]
  · rw [addRef_held (addRefs?_builtin hrefs), if_pos hlast]
  · rw [addRef_held (addRefs?_builtin hrefs), if_neg hlast]
  · simp only [chart_eq_ok_iff, addRefs?_builtin hrefs, get?_history_iff, Family.chart_eq_ok_iff,
      last]
  · rw [exists_chart_eq_error_iff, addRefs?_builtin hrefs, exists_history_iff, not_not]
  · rw [Table.mem_names_iff, addRefs?_builtin hrefs, exists_history_iff]
  · exact List.pairwise_map.mpr (registry.increasing.imp Text.bytes_lt_iff.mpr)

/-- A family takes the place of the built-in one of its name, one without a multiplier for its
prefixable unit is refused, and so is a name under which nothing stands. The registry knows the
first then, and no later call may hand it back. -/
theorem registry_of_history_distance :
    let distance : Family := .make "distance" "m" "" (.ofList [("m", 1)]) Table.empty ["m"]
    let refs : List FamilyRef :=
      [.own distance, .own { distance with siUnits := ["ft"] }, .held "angle"]
    ∃ registry, builtin.addRefs? refs = some registry ∧
      (∃ chart, registry.chart "distance" = .ok chart ∧ chart.family = distance) ∧
      registry.addRef (.held "distance") = none := by
  intro distance refs
  obtain ⟨hdefined, hanswers⟩ := registry_of_history refs
  have hsome : builtin.addRefs? refs ≠ none := by
    intro hnone
    obtain ⟨before, name, hbefore, hlast⟩ := hdefined.mp hnone
    -- One call hands over a name, and no family in the history has it.
    have hname : name = "angle" := by
      have hmem : FamilyRef.held name ∈ refs := hbefore.subset (by simp)
      simpa [refs] using hmem
    have hangle : ∀ family ∈ ownFamilies refs, family.name ≠ "angle" := by decide
    subst hname
    refine hlast (Family.lastComplete?_eq_none fun family hfamily => hangle family ?_)
    exact ownFamilies_subset ((List.prefix_append _ _).trans hbefore) hfamily
  obtain ⟨registry, hregistry⟩ := Option.ne_none_iff_exists'.mp hsome
  obtain ⟨-, hnames, -⟩ := hanswers registry hregistry
  obtain ⟨-, hheld, hchart, -⟩ := hnames "distance"
  have hcomplete : distance.IsComplete := by decide
  have hrefused : ¬ Family.IsComplete { distance with siUnits := ["ft"] } := by decide
  have hlast : lastComplete? (ownFamilies refs) "distance" = some distance := by
    have hown : ownFamilies refs =
        Family.builtin ++ [distance] ++ [{ distance with siUnits := ["ft"] }] := rfl
    rw [hown, Family.lastComplete?_concat, if_neg fun h => hrefused h.1,
      Family.lastComplete?_concat, if_pos ⟨hcomplete, rfl⟩]
  obtain ⟨chart, hcharted⟩ := Family.exists_chart_iff.mpr hcomplete.listed
  have hparts := Family.chart_eq_ok_iff.mp hcharted
  refine ⟨registry, hregistry, ⟨chart, (hchart chart).mpr ⟨distance, hlast, hparts⟩, hparts.1⟩, ?_⟩
  exact hheld (hlast ▸ Option.some_ne_none distance)

/-- A built-in family, complete as it is, is neither refused nor added when it is handed back: the
call has no defined result. -/
theorem held_family_lost :
    (∃ chart, builtin.chart "luminous_intensity" = .ok chart ∧ chart.family.IsComplete) ∧
      builtin.addRef (.held "luminous_intensity") = none := by
  have hmem : Family.Builtin.luminousIntensity ∈ Family.builtin := by simp [Family.builtin]
  have hlast := lastComplete?_builtin hmem
  have hcomplete := isComplete_of_mem_builtin _ hmem
  obtain ⟨chart, hchart⟩ := Family.exists_chart_iff.mpr hcomplete.listed
  constructor
  · refine ⟨chart, chart_eq_ok_iff.mpr ?_, ?_⟩
    · rw [builtin_eq_foldl_offer]
      exact get?_history_iff.mpr ⟨_, hlast, hchart⟩
    · rw [(Family.chart_eq_ok_iff.mp hchart).1]
      exact hcomplete
  · refine (addRef_eq_none_iff builtin_eq_foldl_offer).mpr ⟨"luminous_intensity", rfl, ?_⟩
    show lastComplete? Family.builtin Family.Builtin.luminousIntensity.name ≠ none
    rw [hlast]
    exact Option.some_ne_none _

end Registry

end Metrology
