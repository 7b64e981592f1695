import Mathlib
import Metrology.Proofs.Family.Aliases

/-!
# Metrology.Proofs.Family.Listed -- which units of a family are known by their names

A unit that a family lists has a multiplier in the chart, and so has every such unit behind a prefix
(`contains_units_iff`). But a name is looked up as what it stands for, and aliases come first. An
alias that stands for something without a multiplier *dangles*; a unit of the same name is hidden by
it and cannot be converted. Nothing else hides a unit (`has_iff_not_isDangling`): what is worked
out under the names of prefixes always has a multiplier, and it stands in place of an alias of the
same name, dangling or not.

So a listed unit can be converted to the standard unit and back exactly when neither of the two
names dangles, or they are one name and nothing is looked up.
-/

namespace Metrology

namespace Family

section

variable {α : Type}

/-- A unit of the family, or one of those that take prefixes behind a prefix. -/
def Lists (family : Family α) (name : String) : Prop :=
  family.units.contains name = true ∨
    ∃ unit ∈ family.siUnits, ∃ p : Prefix, name = p.symbol ++ unit

/-- An alias of something that the family does not list, unless a prefixed alias of a unit that
takes prefixes has the same name. -/
structure IsDangling (family : Family α) (nickname : String) : Prop where
  target : ∃ unit, family.aliases.get? nickname = some unit ∧ ¬ family.Lists unit
  stands : ∀ other unit, family.aliases.get? other = some unit → unit ∈ family.siUnits →
    ∀ p : Prefix, nickname ≠ p.name ++ other

variable {family : Family α} {name : String}

theorem lists_iff :
    family.Lists name ↔ family.units.contains name = true ∨
      ∃ unit ∈ family.siUnits, ∃ p ∈ Prefix.all, name = p.symbol ++ unit := by
  simp only [Lists, Prefix.mem_all, true_and]

instance : Decidable (family.Lists name) := decidable_of_iff _ lists_iff.symm

theorem isDangling_iff :
    family.IsDangling name ↔ (∃ unit ∈ family.aliases.get? name, ¬ family.Lists unit) ∧
      ∀ e ∈ family.aliases.entries, e.2 ∈ family.siUnits →
        ∀ p ∈ Prefix.all, name ≠ p.name ++ e.1 := by
  constructor
  · intro h
    exact ⟨h.target, fun e he hunit p _ =>
      h.stands e.1 e.2 (Table.get?_eq_some_iff.mpr he) hunit p⟩
  · rintro ⟨htarget, hstands⟩
    exact ⟨htarget, fun other unit hget hunit p =>
      hstands (other, unit) (Table.get?_eq_some_iff.mp hget) hunit p p.mem_all⟩

instance : Decidable (family.IsDangling name) := decidable_of_iff _ isDangling_iff.symm

end

section

variable {α : Type} [Mul α] [OfScientific α] {family : Family α} {chart : Chart α}
  {name unit : String}

/-- A chart has the units of the family, and its prefixed ones. -/
theorem contains_units_iff (h : family.chart = .ok chart) :
    chart.units.contains name = true ↔ family.Lists name := by
  have hexpand := (chart_eq_ok_iff.mp h).2.1
  obtain ⟨p, unit, hlast⟩ | hnone := exists_isLastReading_or family.siUnits name
  · obtain ⟨m, -, hget⟩ := hlast.get?_expandUnits hexpand
    exact iff_of_true (Table.contains_iff.mpr ⟨_, hget⟩) (.inr ⟨unit, hlast.mem, p, hlast.eq⟩)
  · rw [Lists, Table.contains, get?_expandUnits_of_forall_ne hexpand hnone, ← Table.contains]
    refine (or_iff_left ?_).symm
    rintro ⟨unit, hunit, p, hname⟩
    exact hnone unit hunit p hname

theorem has_iff_lists_resolve (h : family.chart = .ok chart) :
    chart.has name = true ↔ family.Lists (chart.resolve name) :=
  contains_units_iff h

/-- A listed unit is known unless a dangling alias hides it. -/
theorem has_iff_not_isDangling (h : family.chart = .ok chart) (hunit : family.Lists unit) :
    chart.has unit = true ↔ ¬ family.IsDangling unit := by
  rw [has_iff_lists_resolve h]
  by_cases hprefixed : ∃ other target, family.aliases.get? other = some target ∧
      target ∈ family.siUnits ∧ ∃ p : Prefix, unit = p.name ++ other
  · -- The name is worked out for the unit of another alias, which takes prefixes.
    obtain ⟨other, target, hget, htarget, p, rfl⟩ := hprefixed
    refine iff_of_true ?_ fun hdangling => hdangling.stands other target hget htarget p rfl
    rw [resolve_of_chart h hget htarget p]
    exact .inr ⟨target, htarget, p, rfl⟩
  · push Not at hprefixed
    have hresolve : chart.resolve unit = (family.aliases.get? unit).getD unit := by
      rw [Chart.resolve, (chart_eq_ok_iff.mp h).2.2, get?_expandAliases_of_forall_ne hprefixed]
    rw [hresolve]
    cases hget : family.aliases.get? unit with
    | none =>
      refine iff_of_true hunit fun hdangling => ?_
      obtain ⟨target, htarget, -⟩ := hdangling.target
      rw [hget] at htarget
      cases htarget
    | some target =>
      rw [Option.getD_some]
      constructor
      · intro hlists hdangling
        obtain ⟨target', htarget', hunlisted⟩ := hdangling.target
        rw [hget] at htarget'
        cases htarget'
        exact hunlisted hlists
      · intro hstands
        by_contra hunlisted
        exact hstands ⟨⟨target, hget, hunlisted⟩, hprefixed⟩

variable [Div α]

/-- Between two listed units a conversion is stopped by dangling aliases only. -/
theorem exists_convert_iff_of_lists (h : family.chart = .ok chart) {source target : String}
    (hsource : family.Lists source) (htarget : family.Lists target) (value : α) :
    (∃ x, chart.convert value source target = .ok x) ↔
      source = target ∨ (¬ family.IsDangling source ∧ ¬ family.IsDangling target) := by
  rw [Chart.exists_convert_iff, has_iff_not_isDangling h hsource, has_iff_not_isDangling h htarget]

end

end Family

end Metrology
