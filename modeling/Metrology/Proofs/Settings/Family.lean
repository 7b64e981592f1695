import Mathlib
import Metrology.Proofs.Settings.Lines
import Metrology.Proofs.Table
import Metrology.Settings.Families

/-!
# Metrology.Proofs.Settings.Family -- a family written as settings is read back

A family is written as a section with five keys, three of them lists (`familyText`). What is read of
that section is the family (`family_familyText`), and it is so at every layer on the way: a section
is loaded as the assignments that it is written of (`load_sectionText`), a list is cut where it was
joined (`Text.items_join`), an entry at its colon (`unitEntry_eq`, `aliasEntry_eq`), and a table is
the entries that are put into it, in whatever order they were listed (`Table.ofList_of_perm`).

For this the texts of the family have to be *clean*: a text that is empty, has a blank at an end, or
has in it one of the characters that end lines and items, part entries and begin comments, comes
back as another one or not at all. Brackets, equality signs and inner blanks do no harm.
-/

namespace Metrology

namespace Settings

/-! ## Sections -/

/-- A text that a key can have as its value. -/
structure IsValue (value : String) : Prop where
  trimmed : Text.IsTrimmed value.toList
  plain : ∀ c ∈ value.toList, c ≠ '\n' ∧ c ≠ '#'

/-- One or more letters and underscores. -/
structure IsKey (key : String) : Prop where
  nonempty : key ≠ ""
  isLetter : ∀ c ∈ key.toList, c.isAlpha = true ∨ c = '_'

theorem isKey_iff {key : String} :
    IsKey key ↔ (key ≠ "" && key.toList.all fun c => c.isAlpha || c = '_') = true := by
  simp only [Bool.and_eq_true, decide_eq_true_eq, List.all_eq_true, Bool.or_eq_true]
  exact ⟨fun h => ⟨h.nonempty, h.isLetter⟩, fun h => ⟨h.1, h.2⟩⟩

instance (key : String) : Decidable (IsKey key) := decidable_of_iff _ isKey_iff.symm

def headingLine (heading : String) : String := "[" ++ heading ++ "]"

def assignmentLine (key value : String) : String := key ++ " = " ++ value

/-- A section with values for some keys, a line for each. -/
def sectionText (heading : String) (values : List (String × String)) : String :=
  Text.join "" ((headingLine heading :: values.map fun p => assignmentLine p.1 p.2).map (· ++ "\n"))

section

variable {heading key value : String}

theorem IsKey.notMem (h : IsKey key) {c : Char} (hc : c.isAlpha = false) (hc' : c ≠ '_') :
    c ∉ key.toList := by
  intro hmem
  rcases h.isLetter c hmem with halpha | rfl
  · rw [hc] at halpha
    cases halpha
  · exact hc' rfl

theorem IsKey.isTrimmed (h : IsKey key) : Text.IsTrimmed key.toList := by
  have hblank : ∀ c ∈ key.toList, Text.isBlank c = false := by
    intro c hc
    by_contra hb
    simp only [Bool.not_eq_false, Text.isBlank, Bool.or_eq_true, decide_eq_true_eq] at hb
    rcases hb with ((rfl | rfl) | rfl) | rfl <;>
      exact absurd hc (h.notMem (by decide) (by decide))
  exact ⟨fun c hc => hblank c (List.mem_of_mem_head? hc),
    fun c hc => hblank c (List.mem_of_mem_getLast? hc)⟩

theorem isHeading_headingLine (h : Text.IsTrimmed heading.toList) :
    IsHeading (Text.trim (headingLine heading).toList) heading := by
  have hline : (headingLine heading).toList = ['['] ++ (heading.toList ++ [']']) := by
    simp [headingLine]
  have htrimmed : Text.IsTrimmed (['['] ++ (heading.toList ++ [']'])) :=
    (Text.isTrimmed_singleton rfl).append (by simp) (Text.isTrimmed_singleton rfl) (by simp) _
  rw [hline, htrimmed.trim_eq]
  exact ⟨heading.toList, rfl, by rw [h.trim_eq, String.ofList_toList]⟩

/-- Behind the equality sign stands the value, and a space before it unless it is empty. -/
theorem trim_assignmentLine (hkey : IsKey key) (hvalue : Text.IsTrimmed value.toList) :
    ∃ back, Text.trim (assignmentLine key value).toList = (key.toList ++ [' ']) ++ '=' :: back ∧
      Text.trim back = value.toList := by
  have hkey' : key.toList ≠ [] := mt String.toList_eq_nil_iff.mp hkey.nonempty
  by_cases hempty : value = ""
  · subst hempty
    refine ⟨[], ?_, rfl⟩
    have hline : (assignmentLine key "").toList = (key.toList ++ ([' '] ++ ['='])) ++ [' '] := by
      simp [assignmentLine]
    rw [hline, Text.trim_append_of_isBlank rfl,
      (hkey.isTrimmed.append hkey' (Text.isTrimmed_singleton rfl) (by simp) [' ']).trim_eq, List.append_assoc]
  · refine ⟨' ' :: value.toList, ?_, by rw [Text.trim_cons_of_isBlank rfl, hvalue.trim_eq]⟩
    have hline : (assignmentLine key value).toList =
        key.toList ++ ([' ', '=', ' '] ++ value.toList) := by
      simp [assignmentLine]
    rw [hline, (hkey.isTrimmed.append hkey' hvalue (mt String.toList_eq_nil_iff.mp hempty)
      [' ', '=', ' ']).trim_eq]
    simp

theorem isAssignment_assignmentLine (hkey : IsKey key) (hvalue : IsValue value) :
    IsAssignment (Text.trim (assignmentLine key value).toList) key value := by
  obtain ⟨back, hline, hback⟩ := trim_assignmentLine hkey hvalue.trimmed
  obtain ⟨first, rest, hfirst⟩ :=
    List.exists_cons_of_ne_nil (mt String.toList_eq_nil_iff.mp hkey.nonempty)
  -- The line starts as the key does, with a letter or an underscore.
  have hstart : ∀ c : Char, c.isAlpha = false → c ≠ '_' → first ≠ c := by
    rintro c hc hc' rfl
    exact hkey.notMem hc hc' (hfirst ▸ List.mem_cons_self)
  rw [hline]
  refine ⟨?_, ?_, key.toList ++ [' '], back, rfl, ?_, ?_, ?_⟩
  · rw [hfirst]
    simp [IsSilent, hstart '#' (by decide) (by decide), hstart ';' (by decide) (by decide)]
  · rintro name ⟨inner, hinner, -⟩
    rw [hfirst] at hinner
    exact hstart '[' (by decide) (by decide) (List.cons.inj hinner).1
  · simpa using hkey.notMem (c := '=') (by decide) (by decide)
  · rw [Text.trim_append_of_isBlank rfl, hkey.isTrimmed.trim_eq, String.ofList_toList]
  · have hwhole : value.toList.takeWhile (· ≠ '#') = value.toList :=
      List.takeWhile_eq_self_iff.mpr fun c hc => decide_eq_true (hvalue.plain c hc).2
    rw [hback, hwhole, hvalue.trimmed.trim_eq, String.ofList_toList]

/-- Lines that assign values are loaded as these assignments. -/
theorem loadLines_assignmentLines (s : Settings) (hheading : heading ≠ "") (number : Nat)
    {values : List (String × String)} (h : ∀ p ∈ values, IsKey p.1 ∧ IsValue p.2) :
    s.loadLines heading number (values.map fun p => (assignmentLine p.1 p.2).toList) =
      (values.foldl (fun s p => s.assign heading p.1 p.2) s, []) := by
  induction values generalizing s number with
  | nil => rfl
  | cons p values ih =>
    obtain ⟨hkey, hvalue⟩ := h p List.mem_cons_self
    obtain ⟨front, back, hline, hfront, hback⟩ :=
      isAssignment_iff.mp (isAssignment_assignmentLine hkey hvalue)
    rw [List.map_cons, loadLines, hline]
    dsimp only
    rw [if_neg hheading, ih _ _ fun p hp => h p (List.mem_cons_of_mem _ hp), List.foldl_cons,
      hfront, hback]

/-- A section is loaded as the assignments it is written of. -/
theorem load_sectionText (s : Settings) (hheading : IsValue heading) (hne : heading ≠ "")
    {values : List (String × String)} (h : ∀ p ∈ values, IsKey p.1 ∧ IsValue p.2) :
    s.load (sectionText heading values) =
      (values.foldl (fun s p => s.assign heading p.1 p.2) s, []) := by
  have hlines : ∀ line ∈ headingLine heading :: values.map fun p => assignmentLine p.1 p.2,
      '\n' ∉ line.toList := by
    intro line hline hmem
    rcases List.mem_cons.mp hline with rfl | hline
    · have hheading' : '\n' ∈ heading.toList := by simpa [headingLine] using hmem
      exact (hheading.plain _ hheading').1 rfl
    · obtain ⟨p, hp, rfl⟩ := List.mem_map.mp hline
      obtain ⟨hkey, hvalue⟩ := h p hp
      have hparts : '\n' ∈ p.1.toList ∨ '\n' ∈ p.2.toList := by
        simpa [assignmentLine] using hmem
      rcases hparts with hmem | hmem
      · exact hkey.notMem (by decide) (by decide) hmem
      · exact (hvalue.plain _ hmem).1 rfl
  have hcut : Text.terminated '\n' (sectionText heading values).toList =
      (headingLine heading).toList :: values.map fun p => (assignmentLine p.1 p.2).toList := by
    refine (Text.terminated_join_ended hlines).trans ?_
    rw [List.map_cons, List.map_map]
    rfl
  obtain ⟨written, hline, hname⟩ := isHeading_iff.mp (isHeading_headingLine hheading.trimmed)
  rw [load, hcut, loadLines, hline]
  dsimp only
  rw [← hname, loadLines_assignmentLines s hne 2 h]

end

/-! ## Values of a section -/

section

variable {heading key : String} {values : List (String × String)}

theorem get?_foldl_assign_of_notMem (s : Settings) (h : key ∉ values.map Prod.fst) :
    (values.foldl (fun s p => s.assign heading p.1 p.2) s).get? heading key =
      s.get? heading key := by
  induction values generalizing s with
  | nil => rfl
  | cons p values ih =>
    rw [List.map_cons, List.mem_cons, not_or] at h
    rw [List.foldl_cons, ih _ h.2, get?_assign, if_neg fun hkey => h.1 hkey.2]

/-- Of values for different keys, every key has its own. -/
theorem get?_foldl_assign_of_mem (s : Settings) (hnodup : (values.map Prod.fst).Nodup)
    {p : String × String} (h : p ∈ values) :
    (values.foldl (fun s p => s.assign heading p.1 p.2) s).get? heading p.1 = some p.2 := by
  induction values generalizing s with
  | nil => exact absurd h List.not_mem_nil
  | cons q values ih =>
    rw [List.map_cons, List.nodup_cons] at hnodup
    rw [List.foldl_cons]
    rcases List.mem_cons.mp h with rfl | h
    · rw [get?_foldl_assign_of_notMem _ hnodup.1, get?_assign, if_pos ⟨rfl, rfl⟩]
    · exact ih _ hnodup.2 h

end

/-! ## Clean texts -/

/-- A text that can stand anywhere in the section of a family and come back as it is. -/
structure IsClean (text : String) : Prop where
  nonempty : text ≠ ""
  trimmed : Text.IsTrimmed text.toList
  plain : ∀ c ∈ text.toList, c ≠ '\n' ∧ c ≠ '#' ∧ c ≠ ',' ∧ c ≠ ':'

theorem isClean_iff {text : String} :
    IsClean text ↔ (text ≠ "" && Text.IsTrimmed text.toList &&
      text.toList.all fun c => c ≠ '\n' && c ≠ '#' && c ≠ ',' && c ≠ ':') = true := by
  simp only [Bool.and_eq_true, decide_eq_true_eq, List.all_eq_true, and_assoc]
  exact ⟨fun h => ⟨h.nonempty, h.trimmed, h.plain⟩, fun h => ⟨h.1, h.2.1, h.2.2⟩⟩

instance (text : String) : Decidable (IsClean text) := decidable_of_iff _ isClean_iff.symm

/-- The entry of a name in a list. -/
def entryText (name content : String) : String := name ++ ":" ++ content

section

variable {text name content : String}

theorem IsClean.toList_ne_nil (h : IsClean text) : text.toList ≠ [] :=
  mt String.toList_eq_nil_iff.mp h.nonempty

theorem IsClean.isValue (h : IsClean text) : IsValue text :=
  ⟨h.trimmed, fun c hc => ⟨(h.plain c hc).1, (h.plain c hc).2.1⟩⟩

theorem IsClean.isItem (h : IsClean text) : Text.IsItem ',' text.toList :=
  ⟨h.toList_ne_nil, fun hmem => (h.plain ',' hmem).2.2.1 rfl, h.trimmed⟩

theorem IsClean.colon_notMem (h : IsClean text) : ':' ∉ text.toList :=
  fun hmem => (h.plain ':' hmem).2.2.2 rfl

theorem toList_entryText (name content : String) :
    (entryText name content).toList = name.toList ++ ([':'] ++ content.toList) := by
  rw [entryText, String.toList_append, String.toList_append, List.append_assoc]
  rfl

theorem isTrimmed_entryText (hname : IsClean name) (hcontent : IsClean content) :
    Text.IsTrimmed (entryText name content).toList := by
  rw [toList_entryText]
  exact hname.trimmed.append hname.toList_ne_nil hcontent.trimmed hcontent.toList_ne_nil [':']

theorem mem_entryText {c : Char} (h : c ∈ (entryText name content).toList) :
    c ∈ name.toList ∨ c = ':' ∨ c ∈ content.toList := by
  rw [toList_entryText] at h
  simpa using h

theorem isValue_entryText (hname : IsClean name) (hcontent : IsClean content) :
    IsValue (entryText name content) where
  trimmed := isTrimmed_entryText hname hcontent
  plain := by
    intro c hc
    rcases mem_entryText hc with hc | rfl | hc
    · exact hname.isValue.plain c hc
    · decide
    · exact hcontent.isValue.plain c hc

theorem isItem_entryText (hname : IsClean name) (hcontent : IsClean content) :
    Text.IsItem ',' (entryText name content).toList where
  nonempty := by
    rw [toList_entryText]
    exact List.append_ne_nil_of_left_ne_nil hname.toList_ne_nil _
  free := by
    intro hc
    rcases mem_entryText hc with hc | hc | hc
    · exact hname.isItem.free hc
    · exact absurd hc (by decide)
    · exact hcontent.isItem.free hc
  trimmed := isTrimmed_entryText hname hcontent

/-- An entry is cut at its colon, which no name has. -/
theorem cutAt?_entryText (hname : IsClean name) (content : String) :
    Text.cutAt? ':' (entryText name content).toList = some (name.toList, content.toList) := by
  rw [toList_entryText]
  exact Text.cutAt?_append hname.colon_notMem content.toList

/-- Joined values are a value, if none is empty. -/
theorem isValue_join {parts : List String} (h : ∀ part ∈ parts, part ≠ "" ∧ IsValue part) :
    IsValue (Text.join ", " parts) where
  trimmed := Text.isTrimmed_join ", " fun part hp => ⟨(h part hp).1, (h part hp).2.trimmed⟩
  plain := by
    intro c hc
    rcases Text.mem_toList_join hc with hmark | ⟨part, hp, hpart⟩
    · have hmark' : c = ',' ∨ c = ' ' := by simpa using hmark
      rcases hmark' with rfl | rfl <;> decide
    · exact (h part hp).2.plain c hpart

/-- Joined entries are a value. -/
theorem isValue_join_entries {α : Type} {list : List (String × α)} {content : String × α → String}
    (h : ∀ e ∈ list, IsClean e.1 ∧ IsClean (content e)) :
    IsValue (Text.join ", " (list.map fun e => entryText e.1 (content e))) := by
  refine isValue_join fun part hpart => ?_
  obtain ⟨e, he, rfl⟩ := List.mem_map.mp hpart
  obtain ⟨hname, hcontent⟩ := h e he
  exact ⟨mt String.toList_eq_nil_iff.mpr (isItem_entryText hname hcontent).nonempty,
    isValue_entryText hname hcontent⟩

end

/-! ## Entries -/

/-- A clean text that is wholly read as a number in range and greater than zero. -/
structure Spells (text : String) (m : Binary64) : Prop where
  clean : IsClean text
  read : ∃ n, Numeral.read? text.toList = some (n, []) ∧ n.inRange = true ∧ n.value = m
  positive : (0 : Binary64).less m = true

section

variable {heading : String}

theorem Spells.multiplier?_eq {text : String} {m : Binary64} (h : Spells text m) :
    multiplier? text.toList = some m := by
  obtain ⟨n, hread, hrange, rfl⟩ := h.read
  rw [multiplier?, hread]
  dsimp only
  rw [hrange, h.positive]
  rfl

theorem unitEntry_eq {name text : String} {m : Binary64} (hname : IsClean name)
    (htext : Spells text m) : unitEntry heading (entryText name text).toList = .ok (name, m) := by
  have hempty : name.toList.isEmpty = false := List.isEmpty_eq_false_iff.mpr hname.toList_ne_nil
  rw [unitEntry, cutAt?_entryText hname]
  dsimp only
  rw [hname.trimmed.trim_eq, htext.clean.trimmed.trim_eq, htext.multiplier?_eq, hempty,
    if_neg Bool.false_ne_true]
  simp only [String.ofList_toList]

theorem aliasEntry_eq {nickname unit : String} (hnickname : IsClean nickname)
    (hunit : IsClean unit) :
    aliasEntry heading (entryText nickname unit).toList = .ok (nickname, unit) := by
  have hempty : (nickname.toList.isEmpty || unit.toList.isEmpty) = false := by
    simp [hnickname.nonempty, hunit.nonempty]
  rw [aliasEntry, cutAt?_entryText hnickname]
  dsimp only
  rw [hnickname.trimmed.trim_eq, hunit.trimmed.trim_eq, hempty, if_neg Bool.false_ne_true]
  simp only [String.ofList_toList]

/-- Entries that are each read as what they were written for are read as a list. -/
theorem entries_map {α : Type} {f : List Char → Except SettingsError α} {g : α → List Char}
    {list : List α} (h : ∀ x ∈ list, f (g x) = .ok x) : entries f (list.map g) = .ok list := by
  induction list with
  | nil => rfl
  | cons x list ih =>
    rw [List.map_cons, entries, h x List.mem_cons_self,
      ih fun y hy => h y (List.mem_cons_of_mem _ hy)]
    rfl

/-- A list that a section holds is read as the items it was joined from. -/
theorem getItems_eq {s : Settings} {key : String} {parts : List String}
    (hget : s.get? heading key = some (Text.join ", " parts))
    (h : ∀ part ∈ parts, Text.IsItem ',' part.toList) :
    s.getItems heading key = parts.map String.toList := by
  rw [getItems, getD, hget]
  exact Text.items_join (by decide) h

/-- A list of entries is cut into what it was joined from, and each of them is read. -/
theorem entries_getItems {α : Type} {s : Settings} {key : String}
    {f : List Char → Except SettingsError (String × α)} {content : String × α → String}
    {list : List (String × α)}
    (hget : s.get? heading key =
      some (Text.join ", " (list.map fun e => entryText e.1 (content e))))
    (hclean : ∀ e ∈ list, IsClean e.1 ∧ IsClean (content e))
    (hread : ∀ e ∈ list, f (entryText e.1 (content e)).toList = .ok e) :
    entries f (s.getItems heading key) = .ok list := by
  have hitems := getItems_eq hget (by
    intro part hpart
    obtain ⟨e, he, rfl⟩ := List.mem_map.mp hpart
    exact isItem_entryText (hclean e he).1 (hclean e he).2)
  rw [hitems, List.map_map]
  exact entries_map hread

end

/-! ## Families -/

/-- The keys of a family's section with their values, where units and aliases are listed in a given
order and multipliers are spelled in a given way. -/
def familyValues (family : Family) (spelling : String → String)
    (units : List (String × Binary64)) (aliases : List (String × String)) :
    List (String × String) :=
  [("standard_unit", family.standardUnit),
    ("standard_expression", family.standardExpression),
    ("units", Text.join ", " (units.map fun e => entryText e.1 (spelling e.1))),
    ("aliases", Text.join ", " (aliases.map fun e => entryText e.1 e.2)),
    ("si_units", Text.join ", " family.siUnits)]

/-- A family as settings. -/
def familyText (family : Family) (spelling : String → String) (units : List (String × Binary64))
    (aliases : List (String × String)) : String :=
  sectionText (familyStart ++ family.name) (familyValues family spelling units aliases)

/-- What a family needs to be written as settings: clean texts, and what is asked of every family
that is read. -/
structure Writable (family : Family) : Prop where
  name : IsClean family.name
  standardUnit : IsClean family.standardUnit
  standardExpression : IsClean family.standardExpression
  units : ∀ e ∈ family.units.entries, IsClean e.1
  aliases : ∀ e ∈ family.aliases.entries, IsClean e.1 ∧ IsClean e.2
  siUnits : ∀ unit ∈ family.siUnits, IsClean unit
  listed : ∀ unit ∈ family.standardUnit :: family.siUnits, family.units.contains unit = true
  accepted : ∃ units, Units.parse family.standardExpression = .ok units

section

variable {family : Family} {spelling : String → String} {units : List (String × Binary64)}
  {aliases : List (String × String)}

theorem map_fst_familyValues :
    (familyValues family spelling units aliases).map Prod.fst =
      ["standard_unit", "standard_expression", "units", "aliases", "si_units"] := rfl

theorem nodup_familyValues :
    ((familyValues family spelling units aliases).map Prod.fst).Nodup := by
  rw [map_fst_familyValues]
  decide

theorem familyName_append (name : String) : familyName (familyStart ++ name) = name := by
  have hstart : familyStart.toList.isPrefixOf (familyStart ++ name).toList = true := by
    rw [String.toList_append, List.isPrefixOf_iff_prefix]
    exact List.prefix_append _ _
  have hdrop : (familyStart ++ name).toList.drop familyStart.length = name.toList := by
    rw [String.toList_append, ← String.length_toList, List.drop_left]
  rw [familyName, if_pos hstart, hdrop, String.ofList_toList]

theorem isKey_of_mem_familyValues {p : String × String}
    (hp : p ∈ familyValues family spelling units aliases) : IsKey p.1 := by
  have hkeys : ∀ key ∈ ["standard_unit", "standard_expression", "units", "aliases", "si_units"],
      IsKey key := by decide
  refine hkeys p.1 ?_
  rw [← map_fst_familyValues]
  exact List.mem_map_of_mem hp

/-- The values of a clean family are values that keys can have. -/
theorem isValue_of_mem_familyValues (h : Writable family) (hunits : units ⊆ family.units.entries)
    (haliases : aliases ⊆ family.aliases.entries)
    (hspelling : ∀ e ∈ family.units.entries, Spells (spelling e.1) e.2) {p : String × String}
    (hp : p ∈ familyValues family spelling units aliases) : IsValue p.2 := by
  simp only [familyValues, List.mem_cons, List.not_mem_nil, or_false] at hp
  rcases hp with rfl | rfl | rfl | rfl | rfl
  · exact h.standardUnit.isValue
  · exact h.standardExpression.isValue
  · exact isValue_join_entries fun e he => ⟨h.units e (hunits he), (hspelling e (hunits he)).clean⟩
  · exact isValue_join_entries fun e he => h.aliases e (haliases he)
  · exact isValue_join fun unit hunit =>
      ⟨(h.siUnits unit hunit).nonempty, (h.siUnits unit hunit).isValue⟩

theorem isClean_familyStart : IsClean familyStart := by decide

theorem isValue_heading (h : Writable family) : IsValue (familyStart ++ family.name) where
  trimmed := by
    rw [String.toList_append, ← List.nil_append family.name.toList]
    exact isClean_familyStart.trimmed.append isClean_familyStart.toList_ne_nil h.name.trimmed
      h.name.toList_ne_nil []
  plain := by
    intro c hc
    rw [String.toList_append, List.mem_append] at hc
    rcases hc with hc | hc
    · exact isClean_familyStart.isValue.plain c hc
    · exact h.name.isValue.plain c hc

theorem familyStart_append_ne_empty (name : String) : familyStart ++ name ≠ "" := by
  refine mt String.toList_eq_nil_iff.mpr ?_
  rw [String.toList_append]
  exact List.append_ne_nil_of_left_ne_nil isClean_familyStart.toList_ne_nil _

/-- What can be read of a family passes its checks. -/
theorem Writable.checkFamily_eq (h : Writable family) (heading : String) :
    checkFamily heading family = .ok family := by
  have hnone : (family.siUnits.find? fun unit => !family.units.contains unit) = none := by
    rw [List.find?_eq_none]
    intro unit hunit
    simp [h.listed unit (List.mem_cons_of_mem _ hunit)]
  obtain ⟨parsed, hparsed⟩ := h.accepted
  rw [checkFamily, h.listed _ List.mem_cons_self, hnone, hparsed]
  rfl

/-- A section that holds the values of a family is read as the family. -/
theorem family_of_values (h : Writable family) (hunits : units.Perm family.units.entries)
    (haliases : aliases.Perm family.aliases.entries)
    (hspelling : ∀ e ∈ family.units.entries, Spells (spelling e.1) e.2) {s : Settings}
    {heading : String} (hname : familyName heading = family.name)
    (hget : ∀ p ∈ familyValues family spelling units aliases,
      s.get? heading p.1 = some p.2) : s.family heading = .ok family := by
  simp only [familyValues, List.forall_mem_cons] at hget
  obtain ⟨hstandard, hexpression, hunitList, haliasList, hsiList, -⟩ := hget
  have hunitEntries : entries (unitEntry heading) (s.getItems heading "units") = .ok units :=
    entries_getItems hunitList
      (fun e he => ⟨h.units e (hunits.subset he), (hspelling e (hunits.subset he)).clean⟩)
      fun e he => unitEntry_eq (h.units e (hunits.subset he)) (hspelling e (hunits.subset he))
  have haliasEntries : entries (aliasEntry heading) (s.getItems heading "aliases") =
      .ok aliases :=
    entries_getItems haliasList (fun e he => h.aliases e (haliases.subset he)) fun e he =>
      aliasEntry_eq (h.aliases e (haliases.subset he)).1 (h.aliases e (haliases.subset he)).2
  have hsi : (s.getItems heading "si_units").map String.ofList = family.siUnits := by
    rw [getItems_eq hsiList fun unit hunit => (h.siUnits unit hunit).isItem, List.map_map]
    simp
  have hsection : s.hasSection heading = true :=
    hasSection_of_hasKey (hasKey_iff.mpr ⟨_, hstandard⟩)
  have hstandard' : s.getD heading "standard_unit" "" = family.standardUnit := by
    rw [getD, hstandard]
    rfl
  have hexpression' : s.getD heading "standard_expression" family.standardUnit =
      family.standardExpression := by
    rw [getD, hexpression]
    rfl
  rw [Settings.family, hsection, hname, hstandard', if_neg (by decide),
    if_neg h.name.nonempty]
  dsimp only
  rw [if_neg h.standardUnit.nonempty, hunitEntries]
  dsimp only
  rw [haliasEntries]
  dsimp only
  rw [hexpression', hsi, Table.ofList_of_perm hunits, Table.ofList_of_perm haliases]
  exact h.checkFamily_eq heading

end

/-- **A family comes back from the settings it is written as.** Whatever the order in which its units
and aliases are listed, and whatever the clean texts that its multipliers are spelled with, loading
the section into empty settings and reading the family under its heading gives the same family: its
name, its tables, and its list of units with prefixes, in order and with what stands in it twice. -/
theorem family_familyText {family : Family} (h : Writable family)
    {units : List (String × Binary64)} (hunits : units.Perm family.units.entries)
    {aliases : List (String × String)} (haliases : aliases.Perm family.aliases.entries)
    {spelling : String → String}
    (hspelling : ∀ e ∈ family.units.entries, Spells (spelling e.1) e.2) :
    (empty.load (familyText family spelling units aliases)).1.family
      (familyStart ++ family.name) = .ok family := by
  have hvalues : ∀ p ∈ familyValues family spelling units aliases, IsKey p.1 ∧ IsValue p.2 :=
    fun p hp => ⟨isKey_of_mem_familyValues hp,
      isValue_of_mem_familyValues h hunits.subset haliases.subset hspelling hp⟩
  rw [familyText, load_sectionText empty (isValue_heading h) (familyStart_append_ne_empty _)
    hvalues]
  exact family_of_values h hunits haliases hspelling (familyName_append family.name)
    fun p hp => get?_foldl_assign_of_mem empty nodup_familyValues hp

/-- Brackets, equality signs and inner blanks in names, no aliases, a unit that is listed twice, and
units out of order. -/
theorem family_familyText_odd :
    let family : Family :=
      { name := "odd = [1]"
        standardUnit := "a=b"
        standardExpression := "m/s^2"
        units := .ofList [("a=b", 1), ("[c d]", 0.5)]
        aliases := .empty
        siUnits := ["[c d]", "a=b", "[c d]"] }
    let spelling := fun unit => if unit = "a=b" then "0x1p0" else "+.5"
    let units : List (String × Binary64) := [("a=b", 1), ("[c d]", 0.5)]
    Writable family ∧ units.Perm family.units.entries ∧
      familyText family spelling units [] =
        "[family.odd = [1]]\nstandard_unit = a=b\nstandard_expression = m/s^2\n" ++
        "units = a=b:0x1p0, [c d]:+.5\naliases = \nsi_units = [c d], a=b, [c d]\n" ∧
      (empty.load (familyText family spelling units [])).1.family "family.odd = [1]" =
        .ok family := by
  intro family spelling units
  have hentries : family.units.entries = [("[c d]", 0.5), ("a=b", 1)] := by decide +kernel
  have hwritable : Writable family :=
    { name := by decide +kernel
      standardUnit := by decide +kernel
      standardExpression := by decide +kernel
      units := by
        rw [hentries]
        decide +kernel
      aliases := by decide +kernel
      siUnits := by decide +kernel
      listed := by decide +kernel
      accepted := ⟨[⟨.length, 1, none⟩, ⟨.time, -2, none⟩], by decide +kernel⟩ }
  have hperm : units.Perm family.units.entries := by
    rw [hentries]
    exact List.Perm.swap _ _ _
  have hspelling : ∀ e ∈ family.units.entries, Spells (spelling e.1) e.2 := by
    rw [hentries]
    simp only [List.forall_mem_cons, List.not_mem_nil, false_implies, implies_true, and_true]
    refine ⟨⟨by decide +kernel, ⟨.decimal false 5 (-1), ?_⟩, by decide +kernel⟩,
      ⟨by decide +kernel, ⟨.binary false 1 0, ?_⟩, by decide +kernel⟩⟩
    · decide +kernel
    · decide +kernel
  exact ⟨hwritable, hperm, by decide +kernel,
    family_familyText hwritable hperm (List.Perm.refl _) hspelling⟩

end Settings

end Metrology
