import Mathlib
import Metrology.Proofs.Text
import Metrology.Settings.Basic

/-!
# Metrology.Proofs.Settings.Basic -- what loading does, line by line

A key just assigned has the value given, and every other key keeps its own (`get?_assign`). No
section comes into being without a key (`Filled`).

Loading goes through the lines with a heading and a count. What it does to two lists of lines, one
after the other, is what it does to each of them, the second under the last heading of the first
(`loadLines_append`); so what it does to a text follows from what it does to one line.
-/

namespace Metrology

namespace Settings

/-! ## Assigning -/

theorem get?_assign (s : Settings) (heading key value heading' key' : String) :
    (s.assign heading key value).get? heading' key' =
      if heading' = heading ∧ key' = key then some value else s.get? heading' key' := by
  unfold assign get?
  by_cases hheading : heading' = heading
  · subst hheading
    rw [Table.get?_insert_self, Option.bind_some]
    by_cases hkey : key' = key
    · subst hkey
      rw [Table.get?_insert_self, if_pos ⟨rfl, rfl⟩]
    · rw [Table.get?_insert_of_ne _ hkey, if_neg fun h => hkey h.2]
      cases s.sections.get? heading' with
      | none => rfl
      | some keys => rfl
  · rw [Table.get?_insert_of_ne _ hheading, if_neg fun h => hheading h.1]

theorem hasSection_assign (s : Settings) (heading key value heading' : String) :
    (s.assign heading key value).hasSection heading' = true ↔
      heading' = heading ∨ s.hasSection heading' = true := by
  unfold assign hasSection Table.contains
  by_cases hheading : heading' = heading
  · subst hheading
    simp
  · rw [Table.get?_insert_of_ne _ hheading]
    simp [hheading]

theorem hasKey_iff {s : Settings} {heading key : String} :
    s.hasKey heading key = true ↔ ∃ value, s.get? heading key = some value :=
  Option.isSome_iff_exists

/-- Settings in which every section that is there holds a key. -/
def Filled (s : Settings) : Prop :=
  ∀ heading, s.hasSection heading = true → ∃ key, s.hasKey heading key = true

theorem filled_empty : empty.Filled :=
  fun _ h => absurd h Bool.false_ne_true

theorem Filled.assign {s : Settings} (h : s.Filled) (heading key value : String) :
    (s.assign heading key value).Filled := by
  intro heading' hsection
  rcases (hasSection_assign s heading key value heading').mp hsection with rfl | hold
  · refine ⟨key, hasKey_iff.mpr ⟨value, ?_⟩⟩
    rw [get?_assign, if_pos ⟨rfl, rfl⟩]
  · obtain ⟨key', hkey⟩ := h heading' hold
    obtain ⟨value', hvalue⟩ := hasKey_iff.mp hkey
    refine ⟨key', hasKey_iff.mpr ?_⟩
    rw [get?_assign]
    split
    · exact ⟨value, rfl⟩
    · exact ⟨value', hvalue⟩

theorem hasSection_of_hasKey {s : Settings} {heading key : String}
    (h : s.hasKey heading key = true) : s.hasSection heading = true := by
  obtain ⟨value, hvalue⟩ := hasKey_iff.mp h
  obtain ⟨keys, hkeys, -⟩ := Option.bind_eq_some_iff.mp hvalue
  rw [hasSection, Table.contains, hkeys]
  rfl

theorem Filled.hasSection_iff {s : Settings} (h : s.Filled) {heading : String} :
    s.hasSection heading = true ↔ ∃ key, s.hasKey heading key = true :=
  ⟨h heading, fun ⟨_, hkey⟩ => hasSection_of_hasKey hkey⟩

/-! ## Loading lines -/

/-- The heading that a line is, if it is one. -/
def headingOf? (line : List Char) : Option String :=
  match SettingsLine.ofTrimmed (Text.trim line) with
  | .heading name => some (.ofList name)
  | _ => none

/-- The last heading among some lines. -/
def lastHeading? : List (List Char) → Option String
  | [] => none
  | line :: lines => (lastHeading? lines).or (headingOf? line)

theorem lastHeading?_append (front back : List (List Char)) :
    lastHeading? (front ++ back) = (lastHeading? back).or (lastHeading? front) := by
  induction front with
  | nil => simp [lastHeading?]
  | cons line front ih => rw [List.cons_append, lastHeading?, ih, lastHeading?, Option.or_assoc]

/-- Lines are loaded one part after the other. -/
theorem loadLines_append (s : Settings) (heading : String) (number : Nat)
    (front back : List (List Char)) :
    s.loadLines heading number (front ++ back) =
      let loaded := s.loadLines heading number front
      let rest := loaded.1.loadLines ((lastHeading? front).getD heading) (number + front.length)
        back
      (rest.1, loaded.2 ++ rest.2) := by
  induction front generalizing s heading number with
  | nil => rfl
  | cons line front ih =>
    have hnumber : number + (line :: front).length = number + 1 + front.length := by
      rw [List.length_cons]
      omega
    rw [List.cons_append, loadLines, loadLines, lastHeading?, headingOf?, hnumber]
    cases SettingsLine.ofTrimmed (Text.trim line) with
    | blank => simp only [ih, Option.or_none]
    | invalid text => simp only [ih, Option.or_none, List.cons_append]
    | heading name =>
      have hlast : ((lastHeading? front).or (some (.ofList name))).getD heading =
          (lastHeading? front).getD (.ofList name) := by
        cases lastHeading? front <;> rfl
      simp only [ih, hlast]
    | assignment key value =>
      dsimp only
      split
      · simp only [ih, Option.or_none, List.cons_append]
      · simp only [ih, Option.or_none]

theorem Filled.loadLines {s : Settings} (h : s.Filled) (heading : String) (number : Nat)
    (lines : List (List Char)) : (s.loadLines heading number lines).1.Filled := by
  induction lines generalizing s heading number with
  | nil => exact h
  | cons line lines ih =>
    rw [Settings.loadLines]
    cases SettingsLine.ofTrimmed (Text.trim line) with
    | blank => exact ih h heading (number + 1)
    | invalid text => exact ih h heading (number + 1)
    | heading name => exact ih h (.ofList name) (number + 1)
    | assignment key value =>
      dsimp only
      split
      · exact ih h heading (number + 1)
      · exact ih (h.assign _ _ _) heading (number + 1)

/-- A text is loaded as the lines that its line feeds separate. -/
theorem load_eq_loadLines_splitOn (s : Settings) (text : String) :
    s.load text = s.loadLines "" 1 (text.toList.splitOn '\n') := by
  obtain ⟨rest, hrest, hcut⟩ := Text.exists_splitOn_eq_terminated_append '\n' text.toList
  rw [hcut, loadLines_append]
  rcases hrest with rfl | rfl
  · simp [load, loadLines]
  · -- The empty piece behind the last line feed says nothing.
    have hblank : SettingsLine.ofTrimmed (Text.trim []) = .blank := rfl
    simp [load, loadLines, hblank]

end Settings

end Metrology
