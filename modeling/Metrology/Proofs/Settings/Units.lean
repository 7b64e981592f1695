import Mathlib
import Metrology.Proofs.Binary64.Numeral
import Metrology.Proofs.Family.Listed
import Metrology.Proofs.Settings.Families

/-!
# Metrology.Proofs.Settings.Units -- the units of a family that settings describe

Of every unit that a family lists, two things are asked of its settings: that the multiplier makes
sense, and that the unit can be converted.

A multiplier that is read is greater than zero, so it is not NaN and can be divided by. It is finite
too unless the text spells infinity as a word (`multiplier?_eq_some`): a number that is too large to
be finite is refused, but the word is not a number out of range. Of the multipliers that a list has
for a unit the last one stands (`get?_units_iff`), so that is what tells whether a family has
infinite ones (`multipliers_positive`).

What is checked of the units is that they have multipliers. The names are looked up through the
aliases, whose targets are not checked; so a listed unit can be converted to the standard unit and
back exactly when no dangling alias hides one of the two (`listed_units_convert`).
-/

namespace Metrology

namespace Settings

variable {s : Settings} {heading : String}

/-! ## Multipliers -/

theorem multiplier?_eq_some_iff {text : List Char} {m : Binary64} :
    multiplier? text = some m ↔ ∃ n, Numeral.read? text = some (n, []) ∧ n.inRange = true ∧
      n.value = m ∧ (0 : Binary64).less m = true := by
  unfold multiplier?
  split
  · next n hread =>
    rw [hread]
    simp only [Option.some.injEq, Prod.mk.injEq, and_true, exists_eq_left',
      Option.ite_none_right_eq_some, Bool.and_eq_true]
    constructor
    · rintro ⟨⟨hrange, hpositive⟩, rfl⟩
      exact ⟨hrange, rfl, hpositive⟩
    · rintro ⟨hrange, rfl, hpositive⟩
      exact ⟨⟨hrange, hpositive⟩, rfl⟩
  · next hread =>
    refine iff_of_false (by simp) ?_
    rintro ⟨n, hn, -⟩
    exact hread n hn

theorem multiplier?_of_spellsInfinity {text : List Char} (h : Numeral.SpellsInfinity text) :
    multiplier? text = some (.infinite false) :=
  multiplier?_eq_some_iff.mpr ⟨.infinite false, Numeral.read?_eq_positive_infinity_iff.mpr h, rfl,
    rfl, Binary64.zero_less_infinite⟩

/-- What is read as a multiplier is more than zero, and finite unless it is a word. -/
theorem multiplier?_eq_some {text : List Char} {m : Binary64} (h : multiplier? text = some m) :
    (0 : Binary64).less m = true ∧ (m.isFinite = true ↔ ¬ Numeral.SpellsInfinity text) := by
  obtain ⟨n, hread, hrange, rfl, hpositive⟩ := multiplier?_eq_some_iff.mp h
  refine ⟨hpositive, ?_, ?_⟩
  · intro hfinite hspells
    rw [multiplier?_of_spellsInfinity hspells, Option.some.injEq] at h
    rw [← h] at hfinite
    cases hfinite
  · intro hspells
    refine (Numeral.isFinite_value_of_positive hrange hpositive).resolve_right ?_
    rintro rfl
    exact hspells (Numeral.read?_eq_positive_infinity_iff.mp hread)

/-! ## Lists of units -/

section

variable {α : Type} {items : List (List Char)}

theorem entries_eq_ok_iff {f : List Char → Except SettingsError α} {list : List α} :
    entries f items = .ok list ↔ List.Forall₂ (fun item a => f item = .ok a) items list := by
  induction items generalizing list with
  | nil => simp [entries, eq_comm]
  | cons item items ih =>
    rw [entries, List.forall₂_cons_left_iff]
    cases hitem : f item with
    | error e => simp
    | ok a =>
      simp only [← ih]
      cases hrest : entries f items with
      | error e => simp [Except.map]
      | ok rest => simp [Except.map, eq_comm]

/-- A table that is read from a list has under each name what the last item with that name has. -/
theorem get?_ofList_of_entries {f : List Char → Except SettingsError (String × α)}
    {list : List (String × α)} (h : entries f items = .ok list) {name : String} {a : α} :
    (Table.ofList list).get? name = some a ↔
      LastBefore (fun n b => ∃ item, items[n]? = some item ∧ f item = .ok (name, b)) items.length
        a := by
  have hread := entries_eq_ok_iff.mp h
  have hstep : ∀ n < items.length, ∀ b, (Table.ofList (list.take (n + 1))).get? name = some b ↔
      (∃ item, items[n]? = some item ∧ f item = .ok (name, b)) ∨
        ((∀ c, ¬ ∃ item, items[n]? = some item ∧ f item = .ok (name, c)) ∧
          (Table.ofList (list.take n)).get? name = some b) := by
    intro n hn b
    have hn' : n < list.length := hread.length_eq ▸ hn
    have hentry : f items[n] = .ok list[n] := hread.get hn hn'
    have htable : Table.ofList (list.take (n + 1)) =
        (Table.ofList (list.take n)).insert list[n].1 list[n].2 := by
      rw [List.take_succ_eq_append_getElem hn', Table.ofList, Table.insertAll_append]
      rfl
    rw [htable, Table.get?_insert_eq_some_iff]
    simp only [List.getElem?_eq_getElem hn, Option.some.injEq, exists_eq_left', hentry,
      Except.ok.injEq, ne_eq]
  have hrun := eq_some_iff_lastBefore (b := a)
    (fun n => (Table.ofList (list.take n)).get? name) hstep
  rw [hread.length_eq, List.take_length, ← hread.length_eq] at hrun
  refine hrun.trans (or_iff_left ?_)
  rintro ⟨-, h⟩
  cases h

end

/-- An item of a list that gives a unit its multiplier, in the text behind the first colon. -/
def Gives (item : List Char) (unit : String) (text : List Char) : Prop :=
  ∃ front back, item = front ++ ':' :: back ∧ ':' ∉ front ∧ unit = .ofList (Text.trim front) ∧
    text = Text.trim back

/-- The text in which a list gives a unit its multiplier, the last one where there are several. -/
def LastGiven (items : List (List Char)) (unit : String) (text : List Char) : Prop :=
  LastBefore (fun n written => ∃ item, items[n]? = some item ∧ Gives item unit written) items.length
    text

theorem unitEntry_eq_ok_iff {item : List Char} {unit : String} {m : Binary64} :
    unitEntry heading item = .ok (unit, m) ↔
      unit ≠ "" ∧ ∃ text, Gives item unit text ∧ multiplier? text = some m := by
  constructor
  · intro h
    unfold unitEntry at h
    split at h
    · cases h
    · next front back hcut =>
      obtain ⟨hname, h⟩ := Result.refusal_eq_ok_iff.mp h
      split at h
      · cases h
      · next m' hread =>
        cases h
        obtain ⟨hitem, hfree⟩ := Text.cutAt?_eq_some_iff.mp hcut
        exact ⟨by simpa using hname, _, ⟨front, back, hitem, hfree, rfl, rfl⟩, hread⟩
  · rintro ⟨hne, _, ⟨front, back, rfl, hfree, rfl, rfl⟩, hread⟩
    have hname : (Text.trim front).isEmpty = false := by simpa using hne
    simp [unitEntry, Text.cutAt?_append hfree, hname, hread]

/-- An item gives one unit one text. -/
theorem Gives.unique {item text text' : List Char} {unit unit' : String}
    (h : Gives item unit text) (h' : Gives item unit' text') : unit = unit' ∧ text = text' := by
  obtain ⟨front, back, rfl, hfree, rfl, rfl⟩ := h
  obtain ⟨front', back', hitem, hfree', rfl, rfl⟩ := h'
  have hcut := Text.cutAt?_append hfree back
  rw [hitem, Text.cutAt?_append hfree'] at hcut
  cases hcut
  exact ⟨rfl, rfl⟩

/-- A family that is read has for each unit the multiplier that its list gives last. -/
theorem get?_units_iff {family : Family} (h : s.family heading = .ok family) {unit : String}
    {m : Binary64} : family.units.get? unit = some m ↔
      ∃ text, LastGiven (s.getItems heading "units") unit text ∧ multiplier? text = some m := by
  obtain ⟨-, -, ⟨units, hunits, hfamily⟩, -⟩ := exists_entries_of_family h
  rw [hfamily, get?_ofList_of_entries hunits]
  -- Since the list was read, whatever gives a multiplier in it gives a good one.
  have hgiven : ∀ (n : Nat) item text, (s.getItems heading "units")[n]? = some item →
      Gives item unit text → unit ≠ "" ∧ ∃ m, multiplier? text = some m := by
    intro n item text hitem hgives
    obtain ⟨hn, rfl⟩ := List.getElem?_eq_some_iff.mp hitem
    have hread := entries_eq_ok_iff.mp hunits
    have hentry := hread.get hn (hread.length_eq ▸ hn)
    obtain ⟨hne, text', hgives', hm⟩ := unitEntry_eq_ok_iff.mp hentry
    obtain ⟨rfl, rfl⟩ := hgives.unique hgives'
    exact ⟨hne, _, hm⟩
  refine lastBefore_iff_exists ?_ ?_
  · intro n m
    simp only [unitEntry_eq_ok_iff]
    constructor
    · rintro ⟨item, hitem, -, text, hgives, hm⟩
      exact ⟨text, ⟨item, hitem, hgives⟩, hm⟩
    · rintro ⟨text, ⟨item, hitem, hgives⟩, hm⟩
      exact ⟨item, hitem, (hgiven n item text hitem hgives).1, text, hgives, hm⟩
  · rintro n text ⟨item, hitem, hgives⟩
    exact (hgiven n item text hitem hgives).2

/-- **Multipliers are greater than zero, and finite unless infinity is spelled out.** Every
multiplier of a family that settings describe is greater than zero. And all of them are finite
exactly if the list of units gives no unit its multiplier, at last, in a word for infinity: one of
the words that numbers are read from, behind nothing but white space and a plus. -/
theorem multipliers_positive (s : Settings) (heading : String) (family : Family)
    (h : s.family heading = .ok family) :
    (∀ unit m, family.units.get? unit = some m → (0 : Binary64).less m = true) ∧
    ((∀ unit m, family.units.get? unit = some m → m.isFinite = true) ↔
      ∀ unit text, LastGiven (s.getItems heading "units") unit text →
        ¬ Numeral.SpellsInfinity text) := by
  refine ⟨fun unit m hm => ?_, fun hfinite unit text hlast hspells => ?_,
    fun hspells unit m hm => ?_⟩
  · obtain ⟨text, -, hread⟩ := (get?_units_iff h).mp hm
    exact (multiplier?_eq_some hread).1
  · have hm := (get?_units_iff h).mpr ⟨text, hlast, multiplier?_of_spellsInfinity hspells⟩
    exact absurd (hfinite unit _ hm) (by decide)
  · obtain ⟨text, hlast, hread⟩ := (get?_units_iff h).mp hm
    exact (multiplier?_eq_some hread).2.mpr (hspells unit text hlast)

/-- A family with multipliers that are spelled in several ways, and the word for one of them. -/
theorem multipliers_positive_spelled :
    let s := (empty.load "[family.x]\nstandard_unit = m\nunits = m:1, a:0x.8p1, b: +INF\n").1
    ∃ family, s.family "family.x" = .ok family ∧ family.units.get? "a" = some 1 ∧
      (0 : Binary64).less 1 = true ∧ family.units.get? "b" = some (.infinite false) ∧
      ∃ unit text, LastGiven (s.getItems "family.x" "units") unit text ∧
        Numeral.SpellsInfinity text := by
  intro s
  have hfamily : s.family "family.x" = .ok
      ⟨"x", "m", "m", .ofList [("m", 1), ("a", 1), ("b", .infinite false)], .empty, []⟩ := by
    decide +kernel
  obtain ⟨hpositive, hfinite⟩ := multipliers_positive s "family.x" _ hfamily
  have ha : (Table.ofList [("m", (1 : Binary64)), ("a", 1), ("b", .infinite false)]).get? "a" =
      some 1 := by decide +kernel
  have hb : (Table.ofList [("m", (1 : Binary64)), ("a", 1), ("b", .infinite false)]).get? "b" =
      some (.infinite false) := by decide +kernel
  refine ⟨_, hfamily, ha, hpositive "a" 1 ha, hb, ?_⟩
  by_contra hnone
  push Not at hnone
  exact absurd (hfinite.mpr hnone "b" _ hb) (by decide)

/-- A family whose standard unit is infinitely large is read without complaint. -/
theorem infinite_multiplier_read :
    ∃ family, (empty.load "[family.x]\nstandard_unit = m\nunits = m:inf\n").1.family "family.x" =
        .ok family ∧ family.units.get? "m" = some (.infinite false) :=
  ⟨⟨"x", "m", "m", .ofList [("m", .infinite false)], .empty, []⟩, by decide +kernel,
    by decide +kernel⟩

/-! ## Conversion -/

/-- The standard unit of a family that is read is one of its units. -/
theorem contains_standardUnit_of_family {family : Family} (h : s.family heading = .ok family) :
    family.units.contains family.standardUnit = true := by
  obtain ⟨-, -, -, hcheck⟩ := exists_entries_of_family h
  obtain ⟨-, hlisted, -⟩ := checkFamily_eq_ok hcheck
  exact hlisted _ List.mem_cons_self

/-- **Listed units can be converted unless an alias hides them.** A family that settings describe
has a chart, and any value in a unit that it lists can be converted to the standard unit, and back,
exactly when the unit is the standard unit or no dangling alias has the name of one of the two: no
alias, that is, whose target is neither a unit of the family nor one that takes prefixes behind a
prefix, and that is not also worked out as an alias of such a unit behind the name of a prefix. -/
theorem listed_units_convert (s : Settings) (heading : String) (family : Family)
    (h : s.family heading = .ok family) :
    ∃ chart, family.chart = .ok chart ∧
      ∀ unit, family.units.contains unit = true → ∀ value : Binary64,
        ((∃ x, chart.toStandard value unit = .ok x) ↔ unit = family.standardUnit ∨
          (¬ family.IsDangling unit ∧ ¬ family.IsDangling family.standardUnit)) ∧
        ((∃ x, chart.ofStandard value unit = .ok x) ↔ unit = family.standardUnit ∨
          (¬ family.IsDangling unit ∧ ¬ family.IsDangling family.standardUnit)) := by
  obtain ⟨chart, hchart⟩ := Family.exists_chart_iff.mpr (family_eq_ok h).2.1.listed
  have hstandard : family.Lists family.standardUnit := .inl (contains_standardUnit_of_family h)
  have hfamily : chart.family = family := (Family.chart_eq_ok_iff.mp hchart).1
  refine ⟨chart, hchart, fun unit hunit value => ⟨?_, ?_⟩⟩
  · rw [Chart.toStandard, hfamily]
    exact Family.exists_convert_iff_of_lists hchart (.inl hunit) hstandard value
  · rw [Chart.ofStandard, hfamily, Family.exists_convert_iff_of_lists hchart hstandard (.inl hunit),
      and_comm, eq_comm]

/-- An alias that hides a unit leaves one beside it alone, and so does an alias of another unit with
the name of that one. -/
theorem listed_units_convert_beside_hidden :
    let s := (empty.load ("[family.x]\nstandard_unit = m\nunits = m:1, b:2, c:3\n" ++
      "aliases = b:zzz, c:m\n")).1
    ∃ family chart, s.family "family.x" = .ok family ∧ family.chart = .ok chart ∧
      ∀ value, (∃ x, chart.toStandard value "c" = .ok x) ∧
        (∃ x, chart.ofStandard value "c" = .ok x) ∧ ¬ ∃ x, chart.toStandard value "b" = .ok x := by
  intro s
  have hread : s.family "family.x" = .ok ⟨"x", "m", "m", .ofList [("m", 1), ("b", 2), ("c", 3)],
      .ofList [("b", "zzz"), ("c", "m")], []⟩ := by
    decide +kernel
  obtain ⟨chart, hchart, hconvert⟩ := listed_units_convert s "family.x" _ hread
  refine ⟨_, chart, hread, hchart, fun value => ⟨?_, ?_, ?_⟩⟩
  · exact (hconvert "c" (by decide +kernel) value).1.mpr (by decide +kernel)
  · exact (hconvert "c" (by decide +kernel) value).2.mpr (by decide +kernel)
  · exact mt (hconvert "b" (by decide +kernel) value).1.mp (by decide +kernel)

/-- An alias without a unit takes the name of a unit that the family lists. -/
theorem hidden_unit_not_converted :
    let s := (empty.load ("[family.x]\nstandard_unit = m\nunits = m:1, b:2\n" ++
      "aliases = b:zzz\n")).1
    ∃ family chart, s.family "family.x" = .ok family ∧ family.units.contains "b" = true ∧
      family.chart = .ok chart ∧ ∀ value : Binary64,
        chart.toStandard value "b" = .error (.unknownUnit "b" "x") ∧
          chart.ofStandard value "b" = .error (.unknownUnit "b" "x") := by
  intro s
  let family : Family :=
    ⟨"x", "m", "m", .ofList [("m", 1), ("b", 2)], .ofList [("b", "zzz")], []⟩
  let chart : Chart := ⟨family, .ofList [("m", 1), ("b", 2)], .ofList [("b", "zzz")]⟩
  have hread : s.family "family.x" = .ok family := by decide +kernel
  have hm : chart.multiplier "m" = .ok 1 := by decide +kernel
  have hb : chart.multiplier "b" = .error (.unknownUnit "b" "x") := by decide +kernel
  refine ⟨family, chart, hread, by decide +kernel, by decide +kernel, fun value => ⟨?_, ?_⟩⟩
  · change chart.convert value "b" "m" = _
    rw [Chart.convert, if_neg (by decide), hb]
  · change chart.convert value "m" "b" = _
    rw [Chart.convert, if_neg (by decide), hm, hb]
    rfl

end Settings

end Metrology
