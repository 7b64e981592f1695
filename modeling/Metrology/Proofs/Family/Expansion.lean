import Mathlib
import Metrology.Family.Basic
import Metrology.Proofs.Prefix
import Metrology.Proofs.Table

/-!
# Metrology.Proofs.Family.Expansion -- the units that prefixes add to a family

Working out the prefixes of a table of units is a list of insertions, one for each prefix of each unit
that takes them (`expandFrom_cases`). Their names can meet, with each other and with names of the
table: with `t` among the units, `ct` is a hundredth of it whatever the table had under that name, and
`dag` is of `ag` or of `g`. The last unit of the list that a name is read with decides
(`IsLastReading`), always with the multiplier that the unit has in the table itself
(`expandUnits_exact`).
-/

namespace Metrology

namespace Family

/-! ## Units -/

/-- The last unit of a list that stands in a name behind a prefix, and the prefix. -/
structure IsLastReading (siUnits : List String) (name : String) (p : Prefix) (unit : String) :
    Prop where
  eq : name = p.symbol ++ unit
  last : ∃ front back, siUnits = front ++ unit :: back ∧
    ∀ later ∈ back, ∀ q : Prefix, name ≠ q.symbol ++ later

theorem IsLastReading.mem {siUnits : List String} {name unit : String} {p : Prefix}
    (h : IsLastReading siUnits name p unit) : unit ∈ siUnits := by
  obtain ⟨front, back, rfl, -⟩ := h.last
  simp

/-- Of the units that a name can be read with, one is the last. -/
theorem exists_isLastReading_or (siUnits : List String) (name : String) :
    (∃ p unit, IsLastReading siUnits name p unit) ∨
      ∀ unit ∈ siUnits, ∀ p : Prefix, name ≠ p.symbol ++ unit := by
  induction siUnits with
  | nil => exact .inr (by simp)
  | cons unit siUnits ih =>
    rcases ih with ⟨p, later, heq, front, back, rfl, hback⟩ | hnone
    · exact .inl ⟨p, later, heq, unit :: front, back, rfl, hback⟩
    · by_cases hunit : ∃ p : Prefix, name = p.symbol ++ unit
      · obtain ⟨p, heq⟩ := hunit
        exact .inl ⟨p, unit, heq, [], siUnits, rfl, hnone⟩
      · push Not at hunit
        exact .inr (List.forall_mem_cons.mpr ⟨hunit, hnone⟩)

section

variable {α : Type} [Mul α] [OfScientific α]

/-- The entries that are worked out for a unit, with its multiplier in a table. -/
def expansion (base : Table α) (unit : String) : List (String × α) :=
  (base.get? unit).elim [] (prefixedUnits unit)

theorem mem_expansion {base : Table α} {unit : String} {e : String × α} :
    e ∈ expansion base unit ↔
      ∃ m, base.get? unit = some m ∧ ∃ p : Prefix, (p.symbol ++ unit, m * p.magnitude) = e := by
  rw [expansion]
  cases base.get? unit with
  | none => simp
  | some m => simp [prefixedUnits, Prefix.mem_all]

/-- Working out prefixes stops at a unit without a multiplier, or inserts the entries of all units in
order. The induction is on the units still to be expanded. -/
theorem expandFrom_cases (base : Table α) (siUnits : List String) :
    ∀ units : Table α,
      (∃ unit ∈ siUnits, base.contains unit = false ∧
        expandFrom base siUnits units = .error (.prefixableWithoutMultiplier unit)) ∨
      ((∀ unit ∈ siUnits, base.contains unit = true) ∧
        expandFrom base siUnits units =
          .ok (units.insertAll (siUnits.flatMap (expansion base)))) := by
  induction siUnits with
  | nil => intro units; exact .inr ⟨by simp, rfl⟩
  | cons unit siUnits ih =>
    intro units
    rw [expandFrom, List.forall_mem_cons, List.flatMap_cons, Table.insertAll_append, Table.contains,
      expansion]
    cases hunit : base.get? unit with
    | none => exact .inl ⟨unit, List.mem_cons_self, by rw [Table.contains, hunit]; rfl, rfl⟩
    | some m =>
      obtain ⟨missing, hmem, hmissing, herror⟩ | ⟨hall, hok⟩ :=
        ih (units.insertAll (prefixedUnits unit m))
      · exact .inl ⟨missing, List.mem_cons_of_mem _ hmem, hmissing, herror⟩
      · exact .inr ⟨⟨rfl, hall⟩, hok⟩

theorem exists_of_expandUnits_eq_error {base : Table α} {siUnits : List String}
    {e : ConversionError} (h : expandUnits base siUnits = .error e) :
    ∃ unit ∈ siUnits, base.contains unit = false ∧ e = .prefixableWithoutMultiplier unit := by
  obtain ⟨unit, hmem, hmissing, herror⟩ | ⟨-, hok⟩ := expandFrom_cases base siUnits base
  · rw [expandUnits, herror] at h
    cases h
    exact ⟨unit, hmem, hmissing, rfl⟩
  · rw [expandUnits, hok] at h
    cases h

theorem expandUnits_eq_ok {base expanded : Table α} {siUnits : List String}
    (h : expandUnits base siUnits = .ok expanded) :
    (∀ unit ∈ siUnits, base.contains unit = true) ∧
      expanded = base.insertAll (siUnits.flatMap (expansion base)) := by
  obtain ⟨unit, -, -, herror⟩ | ⟨hall, hok⟩ := expandFrom_cases base siUnits base
  · rw [expandUnits, herror] at h
    cases h
  · rw [expandUnits, hok] at h
    cases h
    exact ⟨hall, rfl⟩

/-- Prefixes are worked out for units that have a multiplier, and only for these. -/
theorem exists_expandUnits_iff {base : Table α} {siUnits : List String} :
    (∃ expanded, expandUnits base siUnits = .ok expanded) ↔
      ∀ unit ∈ siUnits, base.contains unit = true := by
  constructor
  · rintro ⟨expanded, h⟩
    exact (expandUnits_eq_ok h).1
  · intro hall
    obtain ⟨unit, hmem, hmissing, -⟩ | ⟨-, hok⟩ := expandFrom_cases base siUnits base
    · rw [hall unit hmem] at hmissing
      cases hmissing
    · exact ⟨_, hok⟩

/-- A name that no unit can be read in keeps its entry. -/
theorem get?_expandUnits_of_forall_ne {base expanded : Table α} {siUnits : List String}
    (h : expandUnits base siUnits = .ok expanded) {name : String}
    (hnone : ∀ unit ∈ siUnits, ∀ p : Prefix, name ≠ p.symbol ++ unit) :
    expanded.get? name = base.get? name := by
  rw [(expandUnits_eq_ok h).2]
  apply Table.get?_insertAll_of_forall_ne
  intro e he
  obtain ⟨unit, hunit, he⟩ := List.mem_flatMap.mp he
  obtain ⟨m, -, p, rfl⟩ := mem_expansion.mp he
  exact (hnone unit hunit p).symm

/-- The last unit that a name can be read with decides, with the multiplier it had before. -/
theorem IsLastReading.get?_expandUnits {base expanded : Table α} {siUnits : List String}
    {name unit : String} {p : Prefix} (h : IsLastReading siUnits name p unit)
    (hexpand : expandUnits base siUnits = .ok expanded) :
    ∃ m, base.get? unit = some m ∧ expanded.get? name = some (m * p.magnitude) := by
  obtain ⟨hall, rfl⟩ := expandUnits_eq_ok hexpand
  obtain ⟨m, hm⟩ := Table.contains_iff.mp (hall unit h.mem)
  refine ⟨m, hm, ?_⟩
  obtain ⟨rfl, front, back, rfl, hback⟩ := h
  rw [List.flatMap_append, List.flatMap_cons, Table.insertAll_append, Table.insertAll_append]
  -- The units behind the last one leave the name alone, and its own prefixes are told apart by it.
  rw [Table.get?_insertAll_of_forall_ne]
  · apply Table.get?_insertAll_of_mem
    · exact mem_expansion.mpr ⟨m, hm, p, rfl⟩
    · intro e he hname
      obtain ⟨m', hm', q, rfl⟩ := mem_expansion.mp he
      rw [hm] at hm'
      cases hm'
      rw [Prefix.symbol_append_left_inj.mp hname]
  · intro e he
    obtain ⟨later, hlater, he⟩ := List.mem_flatMap.mp he
    obtain ⟨m', -, q, rfl⟩ := mem_expansion.mp he
    exact (hback later hlater q).symm

/-- **The expanded table has exactly the intended entries.** For any table of units and any list of
units that take prefixes, with names that meet or stand twice: working out the prefixes fails exactly
when some unit of the list has no multiplier, and names such a unit. Otherwise, under every name
stands the base multiplier of the last unit of the list that the name is read with, times the factor
of its prefix, which is determined by that unit; and where it is read with none, what stood there
before. -/
theorem expandUnits_exact (base : Table α) (siUnits : List String) :
    ((∃ e, expandUnits base siUnits = .error e) ↔
      ∃ unit ∈ siUnits, base.contains unit = false) ∧
    (∀ e, expandUnits base siUnits = .error e →
      ∃ unit ∈ siUnits, base.contains unit = false ∧ e = .prefixableWithoutMultiplier unit) ∧
    ∀ expanded, expandUnits base siUnits = .ok expanded → ∀ name,
      (∀ p unit, IsLastReading siUnits name p unit →
        (∀ q : Prefix, name = q.symbol ++ unit → q = p) ∧
          ∃ m, base.get? unit = some m ∧ expanded.get? name = some (m * p.magnitude)) ∧
      ((∀ unit ∈ siUnits, ∀ p : Prefix, name ≠ p.symbol ++ unit) →
        expanded.get? name = base.get? name) ∧
      ((∃ p unit, IsLastReading siUnits name p unit) ∨
        ∀ unit ∈ siUnits, ∀ p : Prefix, name ≠ p.symbol ++ unit) := by
  refine ⟨?_, ?_, fun expanded hexpand name => ⟨fun p unit h => ⟨?_, ?_⟩, ?_, ?_⟩⟩
  · constructor
    · rintro ⟨e, h⟩
      obtain ⟨unit, hmem, hmissing, -⟩ := exists_of_expandUnits_eq_error h
      exact ⟨unit, hmem, hmissing⟩
    · rintro ⟨unit, hmem, hmissing⟩
      cases h : expandUnits base siUnits with
      | error e => exact ⟨e, rfl⟩
      | ok expanded =>
        rw [(expandUnits_eq_ok h).1 unit hmem] at hmissing
        cases hmissing
  · exact fun e h => exists_of_expandUnits_eq_error h
  · intro q hq
    exact Prefix.symbol_append_left_inj.mp (hq.symm.trans h.eq)
  · exact h.get?_expandUnits hexpand
  · exact get?_expandUnits_of_forall_ne hexpand
  · exact exists_isLastReading_or siUnits name

end

/-- Names that meet: `dag` is of the later one of `g` and `ag`, and `ct` is of `t` though the table has
another `ct`, whose own multiplier is the one that is used for `kct`. -/
theorem expandUnits_exact_collisions :
    let base : Table ℚ := .ofList [("ag", 7), ("ct", 5), ("g", 2), ("t", 3)]
    let siUnits := ["g", "ag", "t", "ct"]
    ∃ expanded, expandUnits base siUnits = .ok expanded ∧
      IsLastReading siUnits "dag" .deci "ag" ∧ expanded.get? "dag" = some (7 / 10) ∧
      IsLastReading siUnits "ct" .centi "t" ∧ expanded.get? "ct" = some (3 / 100) ∧
      IsLastReading siUnits "kct" .kilo "ct" ∧ expanded.get? "kct" = some 5000 := by
  intro base siUnits
  have hreading : ∀ front back name p unit, siUnits = front ++ unit :: back →
      name = p.symbol ++ unit →
      (∀ later ∈ back, ∀ q ∈ Prefix.all, name ≠ q.symbol ++ later) →
      IsLastReading siUnits name p unit :=
    fun front back _ _ _ hlist heq hback =>
      ⟨heq, front, back, hlist, fun later hlater q => hback later hlater q q.mem_all⟩
  have hdag : IsLastReading siUnits "dag" .deci "ag" :=
    hreading ["g"] ["t", "ct"] _ _ _ rfl (by decide) (by decide +kernel)
  have hct : IsLastReading siUnits "ct" .centi "t" :=
    hreading ["g", "ag"] ["ct"] _ _ _ rfl (by decide) (by decide +kernel)
  have hkct : IsLastReading siUnits "kct" .kilo "ct" :=
    hreading ["g", "ag", "t"] [] _ _ _ rfl (by decide) (by decide +kernel)
  obtain ⟨expanded, hexpanded⟩ : ∃ expanded, expandUnits base siUnits = .ok expanded :=
    exists_expandUnits_iff.mpr (by decide +kernel)
  have hvalue : ∀ {name p unit m}, IsLastReading siUnits name p unit → base.get? unit = some m →
      expanded.get? name = some (m * p.magnitude) := by
    intro name p unit m hreading hm
    obtain ⟨-, m', hm', hget⟩ :=
      ((expandUnits_exact base siUnits).2.2 expanded hexpanded name).1 p unit hreading
    rw [hm] at hm'
    cases hm'
    exact hget
  have hag : base.get? "ag" = some 7 := by decide +kernel
  have ht : base.get? "t" = some 3 := by decide +kernel
  have hbase : base.get? "ct" = some 5 := by decide +kernel
  refine ⟨expanded, hexpanded, hdag, (hvalue hdag hag).trans ?_, hct, (hvalue hct ht).trans ?_,
    hkct, (hvalue hkct hbase).trans ?_⟩
  all_goals norm_num [Prefix.magnitude, Prefix.power]

end Family

end Metrology
