import Mathlib
import Metrology.Proofs.Family
import Metrology.Proofs.Registry

/-!
# Metrology.Proofs.Family.Aliases -- aliases with prefixes

An alias of a unit that takes prefixes is worked out under each prefix name, for the unit under the
prefix symbol. Unlike the names of units these never meet: the names of prefixes are a prefix-free
code, so a name is worked out for one prefix and one alias at most, even where an alias starts like
a prefix. What is worked out stands in place of an alias of the same name, and no other alias is
touched (`get?_expandAliases_of_get?`, `get?_expandAliases_of_forall_ne`).

The two tables of a chart are worked out apart from each other, but for the same units. So the unit
that a prefixed alias stands for has a multiplier (`prefixed_aliases_resolve`).
-/

namespace Metrology

namespace Family

/-! ## The table of aliases -/

/-- The entries that are worked out for an alias with its unit. -/
def aliasExpansion (siUnits : List String) (entry : String × String) : List (String × String) :=
  if siUnits.contains entry.2 then prefixedAliases entry.1 entry.2 else []

theorem mem_aliasExpansion {siUnits : List String} {entry e : String × String} :
    e ∈ aliasExpansion siUnits entry ↔
      entry.2 ∈ siUnits ∧ ∃ p : Prefix, (p.name ++ entry.1, p.symbol ++ entry.2) = e := by
  rw [aliasExpansion]
  split
  · next h => simp [prefixedAliases, Prefix.mem_all, List.contains_iff_mem.mp h]
  · next h => simp [mt List.contains_iff_mem.mpr h]

/-- Working out aliases is a list of insertions. The induction is on the aliases still to be worked
out; the table that is built up is never read. -/
theorem expandAliases_eq (base : Table String) (siUnits : List String) :
    expandAliases base siUnits =
      base.insertAll (base.entries.flatMap (aliasExpansion siUnits)) := by
  have hfold : ∀ (entries : List (String × String)) (aliases : Table String),
      entries.foldl (fun aliases entry =>
        if siUnits.contains entry.2 then aliases.insertAll (prefixedAliases entry.1 entry.2)
        else aliases) aliases =
      aliases.insertAll (entries.flatMap (aliasExpansion siUnits)) := by
    intro entries
    induction entries with
    | nil => intro aliases; rfl
    | cons entry entries ih =>
      intro aliases
      rw [List.foldl_cons, ih, List.flatMap_cons, Table.insertAll_append, aliasExpansion]
      split <;> rfl
  exact hfold base.entries base

variable {base : Table String} {siUnits : List String} {nickname unit : String}

/-- A prefix name before an alias stands for the prefix symbol before its unit. -/
theorem get?_expandAliases_of_get? (h : base.get? nickname = some unit) (hunit : unit ∈ siUnits)
    (p : Prefix) :
    (expandAliases base siUnits).get? (p.name ++ nickname) = some (p.symbol ++ unit) := by
  rw [expandAliases_eq]
  apply Table.get?_insertAll_of_mem
  · exact List.mem_flatMap.mpr
      ⟨_, Table.get?_eq_some_iff.mp h, mem_aliasExpansion.mpr ⟨hunit, p, rfl⟩⟩
  · -- Another entry of this name would be of the same prefix and the same alias.
    intro e he hname
    obtain ⟨⟨other, target⟩, hmem, he⟩ := List.mem_flatMap.mp he
    obtain ⟨-, q, rfl⟩ := mem_aliasExpansion.mp he
    obtain ⟨rfl, rfl⟩ := Prefix.name_append_inj hname
    have htarget : base.get? other = some target := Table.get?_eq_some_iff.mpr hmem
    rw [h] at htarget
    cases htarget
    rfl

/-- Any other name is left alone. -/
theorem get?_expandAliases_of_forall_ne {name : String}
    (h : ∀ nickname unit, base.get? nickname = some unit → unit ∈ siUnits →
      ∀ p : Prefix, name ≠ p.name ++ nickname) :
    (expandAliases base siUnits).get? name = base.get? name := by
  rw [expandAliases_eq]
  apply Table.get?_insertAll_of_forall_ne
  intro e he
  obtain ⟨⟨nickname, unit⟩, hmem, he⟩ := List.mem_flatMap.mp he
  obtain ⟨hunit, p, rfl⟩ := mem_aliasExpansion.mp he
  exact (h nickname unit (Table.get?_eq_some_iff.mpr hmem) hunit p).symm

/-! ## Charts -/

variable {α : Type} [Mul α] [OfScientific α] {family : Family α} {chart : Chart α}

/-- A prefixed alias is resolved to the prefixed unit. -/
theorem resolve_of_chart (h : family.chart = .ok chart)
    (hget : family.aliases.get? nickname = some unit) (hunit : unit ∈ family.siUnits) (p : Prefix) :
    chart.resolve (p.name ++ nickname) = p.symbol ++ unit := by
  rw [Chart.resolve, (chart_eq_ok_iff.mp h).2.2, get?_expandAliases_of_get? hget hunit p]
  rfl

/-- A prefixed unit has an entry in the chart, which is its own unless another unit makes the same
name. -/
theorem exists_get?_units_of_chart (h : family.chart = .ok chart) (hunit : unit ∈ family.siUnits)
    (p : Prefix) :
    ∃ x, chart.units.get? (p.symbol ++ unit) = some x ∧
      ((∀ other ∈ family.siUnits, other ≠ unit → ∀ q : Prefix,
          q.symbol ++ other ≠ p.symbol ++ unit) →
        ∃ m, family.units.get? unit = some m ∧ x = m * p.magnitude) := by
  have hexpand := (chart_eq_ok_iff.mp h).2.1
  obtain ⟨q, last, hlast⟩ | hnone := exists_isLastReading_or family.siUnits (p.symbol ++ unit)
  · obtain ⟨m, hm, hget⟩ := hlast.get?_expandUnits hexpand
    refine ⟨_, hget, fun hother => ?_⟩
    -- The name is read with the last unit, so that is the unit itself.
    have hsame : last = unit := by
      by_contra hne
      exact hother last hlast.mem hne q hlast.eq.symm
    subst hsame
    have hpq : p = q := Prefix.symbol_append_left_inj.mp hlast.eq
    exact ⟨m, hm, by rw [hpq]⟩
  · exact absurd rfl (hnone unit hunit p)

/-- **Prefixed aliases always resolve, without ambiguity.** No name is a prefix name before a text in
two ways. Working out a table of aliases puts the prefix symbol before its unit under every prefix
name before an alias whose unit takes prefixes, and leaves all other names as they were. So in every
family that can be charted, such a name is resolved to the prefixed unit, is known, and has the
multiplier that the chart has for it: the unit's own times the factor of the prefix, unless another
unit behind another prefix makes the same name. -/
theorem prefixed_aliases_resolve :
    (∀ (p q : Prefix) (a b : String), p.name ++ a = q.name ++ b → p = q ∧ a = b) ∧
    (∀ (base : Table String) (siUnits : List String),
      (∀ nickname unit, base.get? nickname = some unit → unit ∈ siUnits → ∀ p : Prefix,
        (expandAliases base siUnits).get? (p.name ++ nickname) = some (p.symbol ++ unit)) ∧
      ∀ name,
        (∀ nickname unit, base.get? nickname = some unit → unit ∈ siUnits →
          ∀ p : Prefix, name ≠ p.name ++ nickname) →
        (expandAliases base siUnits).get? name = base.get? name) ∧
    ∀ {α : Type} [Mul α] [OfScientific α] (family : Family α) (chart : Chart α),
      family.chart = .ok chart →
      ∀ nickname unit, family.aliases.get? nickname = some unit → unit ∈ family.siUnits →
        ∀ p : Prefix,
          chart.resolve (p.name ++ nickname) = p.symbol ++ unit ∧
          chart.has (p.name ++ nickname) = true ∧
          ∃ x, chart.multiplier (p.name ++ nickname) = .ok x ∧
            chart.units.get? (p.symbol ++ unit) = some x ∧
            ((∀ other ∈ family.siUnits, other ≠ unit → ∀ q : Prefix,
                q.symbol ++ other ≠ p.symbol ++ unit) →
              ∃ m, family.units.get? unit = some m ∧ x = m * p.magnitude) := by
  refine ⟨fun p q a b => Prefix.name_append_inj, fun base siUnits => ⟨?_, ?_⟩, ?_⟩
  · exact fun nickname unit h hunit p => get?_expandAliases_of_get? h hunit p
  · exact fun name h => get?_expandAliases_of_forall_ne h
  · intro α _ _ family chart h nickname unit hget hunit p
    have hresolve := resolve_of_chart h hget hunit p
    obtain ⟨x, hx, hown⟩ := exists_get?_units_of_chart h hunit p
    have hmultiplier : chart.multiplier? (p.name ++ nickname) = some x := by
      rw [Chart.multiplier?, hresolve, hx]
    refine ⟨hresolve, Chart.has_iff.mpr ⟨x, hmultiplier⟩, x, ?_, hx, hown⟩
    rw [Chart.multiplier, hmultiplier]

/-- An alias that starts with the name of a prefix is no reading of another alias, and takes prefixes
like any alias. -/
theorem prefixed_aliases_resolve_milligram :
    let units : Table ℚ := .ofList [("g", 2), ("kt", 5), ("t", 3)]
    let aliases : Table String := .ofList [("gram", "g"), ("milligram", "g"), ("ton", "t")]
    let family : Family ℚ := .make "mass" "g" "" units aliases ["g", "t"]
    ∃ chart, family.chart = .ok chart ∧ chart.resolve "kilomilligram" = "kg" ∧
      chart.has "kilomilligram" = true ∧ chart.multiplier "kilomilligram" = .ok 2000 := by
  intro units aliases family
  obtain ⟨chart, hchart⟩ : ∃ chart, family.chart = .ok chart :=
    exists_chart_iff.mpr (by decide +kernel)
  have hother : ∀ other ∈ family.siUnits, other ≠ "g" → ∀ q ∈ Prefix.all,
      q.symbol ++ other ≠ Prefix.symbol .kilo ++ "g" := by
    decide +kernel
  obtain ⟨hresolve, hhas, x, hx, -, hown⟩ := prefixed_aliases_resolve.2.2 family chart hchart
    "milligram" "g" (by decide +kernel) (by decide +kernel) .kilo
  obtain ⟨m, hm, rfl⟩ := hown fun other hmem hne q => hother other hmem hne q q.mem_all
  have hunit : family.units.get? "g" = some 2 := by decide +kernel
  rw [hunit] at hm
  cases hm
  refine ⟨chart, hchart, hresolve, hhas, hx.trans ?_⟩
  norm_num [Prefix.magnitude, Prefix.power]

end Family

end Metrology
