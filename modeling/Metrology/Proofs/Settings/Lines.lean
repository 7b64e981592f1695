import Mathlib
import Metrology.Proofs.Settings.Basic

/-!
# Metrology.Proofs.Settings.Lines -- what settings hold, said of the lines of their texts

The rules of settings texts, said without the reader. A line is silent, or a heading, or it is cut
at its first `=` into a key and a value (`IsSilent`, `IsHeading`, `IsAssignment`). It `Assigns` the
value to the key under the nearest heading above it in its own text, if there is one and it has a
name; every line that does none of these is `PassedOver`.

Reading keeps a heading and a table while it goes through the lines, and starts without a heading in
every text while the table stays. That this comes to the rules is one argument, used for the heading
within a text, for the value within a text, and for the value over all texts: where each place
either sets a value or leaves the one before, what is there in the end was set at the last place
that set anything (`eq_some_iff_lastBefore`).
-/

namespace Metrology

namespace Settings

/-! ## The last place -/

section

variable {β : Type} {sets : Nat → β → Prop} {p : Nat} {b : β}

/-- Of the places below `p`, the last one that sets anything sets `b`. -/
def LastBefore (sets : Nat → β → Prop) (p : Nat) (b : β) : Prop :=
  ∃ n < p, sets n b ∧ ∀ m, n < m → m < p → ∀ c, ¬ sets m c

theorem lastBefore_succ :
    LastBefore sets (p + 1) b ↔ sets p b ∨ ((∀ c, ¬ sets p c) ∧ LastBefore sets p b) := by
  constructor
  · rintro ⟨n, hn, hset, hlast⟩
    rcases Nat.lt_succ_iff_lt_or_eq.mp hn with hlt | rfl
    · exact .inr ⟨hlast p hlt (Nat.lt_succ_self p),
        n, hlt, hset, fun m hnm hm => hlast m hnm (Nat.lt_succ_of_lt hm)⟩
    · exact .inl hset
  · rintro (hset | ⟨hnone, n, hn, hset, hlast⟩)
    · exact ⟨p, Nat.lt_succ_self p, hset, fun m hpm hm => absurd hpm (by omega)⟩
    · refine ⟨n, Nat.lt_succ_of_lt hn, hset, fun m hnm hm => ?_⟩
      rcases Nat.lt_succ_iff_lt_or_eq.mp hm with hlt | rfl
      · exact hlast m hnm hlt
      · exact hnone

/-- Something is set last when something is set at all. -/
theorem exists_lastBefore_iff : (∃ b, LastBefore sets p b) ↔ ∃ n < p, ∃ b, sets n b := by
  constructor
  · rintro ⟨b, n, hn, hset, -⟩
    exact ⟨n, hn, b, hset⟩
  · induction p with
    | zero => simp
    | succ p ih =>
      rintro ⟨n, hn, hset⟩
      by_cases hp : ∃ b, sets p b
      · obtain ⟨b, hb⟩ := hp
        exact ⟨b, lastBefore_succ.mpr (.inl hb)⟩
      · have hlt : n < p := by
          rcases Nat.lt_succ_iff_lt_or_eq.mp hn with hlt | rfl
          · exact hlt
          · exact absurd hset hp
        obtain ⟨b, hb⟩ := ih ⟨n, hlt, hset⟩
        exact ⟨b, lastBefore_succ.mpr (.inr ⟨not_exists.mp hp, hb⟩)⟩

/-- Where what a place sets is worked out from something that it gives, what is set last is worked
out from what is given last. -/
theorem lastBefore_iff_exists {γ : Type} {gives : Nat → γ → Prop} {value : γ → Option β}
    (hsets : ∀ n b, sets n b ↔ ∃ c, gives n c ∧ value c = some b)
    (hvalue : ∀ n c, gives n c → ∃ b, value c = some b) :
    LastBefore sets p b ↔ ∃ c, LastBefore gives p c ∧ value c = some b := by
  constructor
  · rintro ⟨n, hn, hset, hlast⟩
    obtain ⟨c, hgives, hb⟩ := (hsets n b).mp hset
    refine ⟨c, ⟨n, hn, hgives, fun m hnm hm c' hc' => ?_⟩, hb⟩
    obtain ⟨b', hb'⟩ := hvalue m c' hc'
    exact hlast m hnm hm b' ((hsets m b').mpr ⟨c', hc', hb'⟩)
  · rintro ⟨c, ⟨n, hn, hgives, hlast⟩, hb⟩
    refine ⟨n, hn, (hsets n b).mpr ⟨c, hgives, hb⟩, fun m hnm hm b' hb' => ?_⟩
    obtain ⟨c', hc', -⟩ := (hsets m b').mp hb'
    exact hlast m hnm hm c' hc'

/-- A state that each place sets or leaves as it was is the one that was set last, or the first. -/
theorem eq_some_iff_lastBefore (state : Nat → Option β)
    (hstep : ∀ n < p, ∀ b, state (n + 1) = some b ↔
      sets n b ∨ ((∀ c, ¬ sets n c) ∧ state n = some b)) :
    state p = some b ↔
      LastBefore sets p b ∨ ((∀ n < p, ∀ c, ¬ sets n c) ∧ state 0 = some b) := by
  induction p with
  | zero => simp [LastBefore]
  | succ p ih =>
    rw [hstep p (Nat.lt_succ_self p), ih fun n hn => hstep n (Nat.lt_succ_of_lt hn),
      lastBefore_succ]
    have hall : (∀ n < p + 1, ∀ c, ¬ sets n c) ↔ (∀ c, ¬ sets p c) ∧ ∀ n < p, ∀ c, ¬ sets n c :=
      Nat.forall_lt_succ_right.trans and_comm
    rw [hall]
    tauto

end

/-! ## The rules -/

/-- The lines of a text, cut at its line feeds and without the blanks around them. -/
def linesOf (text : String) : List (List Char) := (text.toList.splitOn '\n').map Text.trim

/-- A line that is empty or a comment. -/
def IsSilent (line : List Char) : Prop :=
  line = [] ∨ line.head? = some '#' ∨ line.head? = some ';'

/-- A line in square brackets, naming what stands between them without the blanks around it. -/
def IsHeading (line : List Char) (name : String) : Prop :=
  ∃ inner, line = '[' :: (inner ++ [']']) ∧ name = .ofList (Text.trim inner)

/-- Any other line with `=` in it. Its value ends at the first `#`. -/
def IsAssignment (line : List Char) (key value : String) : Prop :=
  ¬ IsSilent line ∧ (∀ name, ¬ IsHeading line name) ∧
    ∃ front back, line = front ++ '=' :: back ∧ '=' ∉ front ∧
      key = .ofList (Text.trim front) ∧
      value = .ofList (Text.trim ((Text.trim back).takeWhile (· ≠ '#')))

/-- The nearest heading above a line. -/
def Governs (lines : List (List Char)) (n : Nat) (heading : String) : Prop :=
  LastBefore (fun m name => ∃ line, lines[m]? = some line ∧ IsHeading line name) n heading

/-- What a line assigns, under a heading with a name. -/
def Assigns (lines : List (List Char)) (n : Nat) (heading key value : String) : Prop :=
  (∃ line, lines[n]? = some line ∧ IsAssignment line key value) ∧
    Governs lines n heading ∧ heading ≠ ""

/-- A line that is neither silent nor a heading and assigns nothing. -/
def PassedOver (lines : List (List Char)) (n : Nat) : Prop :=
  (∃ line, lines[n]? = some line ∧ ¬ IsSilent line ∧ ∀ name, ¬ IsHeading line name) ∧
    ∀ heading key value, ¬ Assigns lines n heading key value

/-- The warning about a line that is passed over, which counts the lines from one. -/
def Remarks (lines : List (List Char)) (n : Nat) (warning : Warning) : Prop :=
  ∃ line, lines[n]? = some line ∧
    (('=' ∉ line ∧ warning = .invalidLine (n + 1) (.ofList line)) ∨
      ('=' ∈ line ∧ warning = .keyWithoutSection (n + 1)))

/-- What the line `n` of the text `i` assigns. -/
def Assigned (texts : List String) (i n : Nat) (heading key value : String) : Prop :=
  ∃ text, texts[i]? = some text ∧ Assigns (linesOf text) n heading key value

/-- The value that is assigned to a key last, in the order of the texts and of their lines. -/
def LastAssigned (texts : List String) (heading key value : String) : Prop :=
  ∃ i n, Assigned texts i n heading key value ∧
    ∀ j m value', Assigned texts j m heading key value' → j < i ∨ (j = i ∧ m ≤ n)

/-- The settings that texts make, loaded one after the other. -/
def ofTexts (texts : List String) : Settings :=
  texts.foldl (fun s text => (s.load text).1) empty

/-! ## One line -/

section

variable {line : List Char}

theorem heading?_eq_some_iff {written : List Char} :
    SettingsLine.heading? line = some written ↔
      ∃ inner, line = '[' :: (inner ++ [']']) ∧ written = Text.trim inner := by
  constructor
  · intro h
    unfold SettingsLine.heading? at h
    split at h
    · next rest =>
      split at h
      · next hlast =>
        cases h
        obtain ⟨inner, rfl⟩ := List.getLast?_eq_some_iff.mp hlast
        exact ⟨inner, rfl, by rw [List.dropLast_concat]⟩
      · cases h
    · cases h
  · rintro ⟨inner, rfl, rfl⟩
    simp [SettingsLine.heading?]

theorem isHeading_iff_heading? {name : String} :
    IsHeading line name ↔
      ∃ written, SettingsLine.heading? line = some written ∧ name = .ofList written := by
  simp only [heading?_eq_some_iff, IsHeading]
  constructor
  · rintro ⟨inner, hline, hname⟩
    exact ⟨_, ⟨inner, hline, rfl⟩, hname⟩
  · rintro ⟨_, ⟨inner, hline, rfl⟩, hname⟩
    exact ⟨inner, hline, hname⟩

/-- A bracket says something. -/
theorem IsSilent.heading?_eq_none (h : IsSilent line) : SettingsLine.heading? line = none := by
  rw [Option.eq_none_iff_forall_ne_some]
  intro written hwritten
  obtain ⟨inner, rfl, -⟩ := heading?_eq_some_iff.mp hwritten
  simp [IsSilent] at h

/-- What a line is read as: the rules are tried in order. -/
theorem ofTrimmed_cases (line : List Char) :
    (IsSilent line ∧ SettingsLine.ofTrimmed line = .blank) ∨
    (¬ IsSilent line ∧ ∃ written, SettingsLine.heading? line = some written ∧
      SettingsLine.ofTrimmed line = .heading written) ∨
    (¬ IsSilent line ∧ SettingsLine.heading? line = none ∧ ∃ front back,
      Text.cutAt? '=' line = some (front, back) ∧ SettingsLine.ofTrimmed line =
        .assignment (Text.trim front) (Text.trim (Text.before '#' (Text.trim back)))) ∨
    (¬ IsSilent line ∧ SettingsLine.heading? line = none ∧ Text.cutAt? '=' line = none ∧
      SettingsLine.ofTrimmed line = .invalid line) := by
  have htest : (line.isEmpty || line.head? = some '#' || line.head? = some ';') = true ↔
      IsSilent line := by simp [IsSilent, or_assoc]
  unfold SettingsLine.ofTrimmed
  by_cases hsilent : IsSilent line
  · exact .inl ⟨hsilent, if_pos (htest.mpr hsilent)⟩
  · rw [if_neg (mt htest.mp hsilent)]
    cases SettingsLine.heading? line with
    | some written => exact .inr (.inl ⟨hsilent, written, rfl, rfl⟩)
    | none =>
      cases Text.cutAt? '=' line with
      | some parts => exact .inr (.inr (.inl ⟨hsilent, rfl, parts.1, parts.2, rfl, rfl⟩))
      | none => exact .inr (.inr (.inr ⟨hsilent, rfl, rfl, rfl⟩))

theorem isSilent_iff : IsSilent line ↔ SettingsLine.ofTrimmed line = .blank := by
  rcases ofTrimmed_cases line with ⟨hsilent, h⟩ | ⟨hsilent, _, _, h⟩ | ⟨hsilent, _, _, _, _, h⟩ |
    ⟨hsilent, _, _, h⟩ <;> simp [hsilent, h]

theorem isHeading_iff {name : String} :
    IsHeading line name ↔
      ∃ written, SettingsLine.ofTrimmed line = .heading written ∧ name = .ofList written := by
  rw [isHeading_iff_heading?]
  rcases ofTrimmed_cases line with ⟨hsilent, h⟩ | ⟨_, _, hheading, h⟩ | ⟨_, hheading, _, _, _, h⟩ |
    ⟨_, hheading, _, h⟩
  · simp [hsilent.heading?_eq_none, h]
  all_goals simp [hheading, h]

theorem isAssignment_iff {key value : String} :
    IsAssignment line key value ↔
      ∃ front back, SettingsLine.ofTrimmed line = .assignment front back ∧
        key = .ofList front ∧ value = .ofList back := by
  simp only [IsAssignment, isHeading_iff_heading?, ← and_assoc (c := key = _ ∧ value = _),
    ← Text.cutAt?_eq_some_iff]
  rcases ofTrimmed_cases line with ⟨hsilent, h⟩ | ⟨_, _, hheading, h⟩ |
    ⟨hsilent, hheading, _, _, hcut, h⟩ | ⟨_, _, hcut, h⟩
  · simp [hsilent, h]
  · simp [hheading, h]
  · simp [hsilent, hheading, hcut, h, Text.before]
  · simp [hcut, h]

/-- What is left is the lines without `=`, as they are. -/
theorem eq_of_ofTrimmed_eq_invalid {text : List Char}
    (h : SettingsLine.ofTrimmed line = .invalid text) : text = line ∧ '=' ∉ line := by
  rcases ofTrimmed_cases line with ⟨_, h'⟩ | ⟨_, _, _, h'⟩ | ⟨_, _, _, _, _, h'⟩ | ⟨_, _, hcut, h'⟩
  all_goals
    rw [h] at h'
    cases h'
  exact ⟨rfl, Text.cutAt?_eq_none_iff.mp hcut⟩

end

/-! ## One step

In this section `pieces` are the lines of a text as they are cut, blanks included. -/

section

variable {pieces : List (List Char)} {piece : List Char} {n : Nat}

theorem getElem?_trimmed (h : pieces[n]? = some piece) :
    (pieces.map Text.trim)[n]? = some (Text.trim piece) := by
  rw [List.getElem?_map, h]
  rfl

theorem lastHeading?_take_succ (h : pieces[n]? = some piece) :
    lastHeading? (pieces.take (n + 1)) =
      (headingOf? piece).or (lastHeading? (pieces.take n)) := by
  rw [List.take_add_one, h, lastHeading?_append]
  rfl

/-- The heading that is kept on the way is the nearest one above. -/
theorem lastHeading?_eq_some_iff (hn : n ≤ pieces.length) {heading : String} :
    lastHeading? (pieces.take n) = some heading ↔ Governs (pieces.map Text.trim) n heading := by
  refine (eq_some_iff_lastBefore (fun m => lastHeading? (pieces.take m)) ?_).trans
    (or_iff_left ?_)
  · intro m hm name
    have hlt : m < pieces.length := Nat.lt_of_lt_of_le hm hn
    have hpiece : pieces[m]? = some pieces[m] := List.getElem?_eq_getElem hlt
    have hsets : ∀ name', (∃ line, (pieces.map Text.trim)[m]? = some line ∧ IsHeading line name') ↔
        headingOf? pieces[m] = some name' := by
      intro name'
      rw [getElem?_trimmed hpiece]
      simp only [Option.some.injEq, exists_eq_left', isHeading_iff, headingOf?]
      cases SettingsLine.ofTrimmed (Text.trim pieces[m]) <;> simp [eq_comm]
    simp only [hsets, lastHeading?_take_succ hpiece]
    cases headingOf? pieces[m] with
    | none => simp
    | some name' => simp
  · rintro ⟨-, h⟩
    cases h

theorem assigns_iff (h : pieces[n]? = some piece) {heading key value : String} :
    Assigns (pieces.map Text.trim) n heading key value ↔
      (∃ front back, SettingsLine.ofTrimmed (Text.trim piece) = .assignment front back ∧
        key = .ofList front ∧ value = .ofList back) ∧
      heading = (lastHeading? (pieces.take n)).getD "" ∧ heading ≠ "" := by
  have hn : n ≤ pieces.length := (List.getElem?_eq_some_iff.mp h).1.le
  rw [Assigns, getElem?_trimmed h, ← lastHeading?_eq_some_iff hn]
  simp only [Option.some.injEq, exists_eq_left', isAssignment_iff]
  refine and_congr_right fun _ => ?_
  -- No heading above is the heading without a name.
  cases lastHeading? (pieces.take n) with
  | none => simp
  | some name => simp [eq_comm]

theorem passedOver_iff (h : pieces[n]? = some piece) :
    PassedOver (pieces.map Text.trim) n ↔
      (∃ text, SettingsLine.ofTrimmed (Text.trim piece) = .invalid text) ∨
        ((∃ front back, SettingsLine.ofTrimmed (Text.trim piece) = .assignment front back) ∧
          (lastHeading? (pieces.take n)).getD "" = "") := by
  simp only [PassedOver, assigns_iff h, getElem?_trimmed h, Option.some.injEq, exists_eq_left',
    isSilent_iff, isHeading_iff]
  cases SettingsLine.ofTrimmed (Text.trim piece) <;> simp

/-- What loading makes of one more line. -/
theorem loadLines_take_succ (s : Settings) (h : pieces[n]? = some piece) :
    s.loadLines "" 1 (pieces.take (n + 1)) =
      let loaded := s.loadLines "" 1 (pieces.take n)
      let one := loaded.1.loadLines ((lastHeading? (pieces.take n)).getD "") (n + 1) [piece]
      (one.1, loaded.2 ++ one.2) := by
  have hn : (pieces.take n).length = n :=
    List.length_take_of_le (List.getElem?_eq_some_iff.mp h).1.le
  rw [List.take_add_one, h, Option.toList_some, loadLines_append, hn, Nat.add_comm 1 n]

/-- A line sets the keys that it assigns and leaves the others. -/
theorem get?_loadLines_take_succ (s : Settings) (h : pieces[n]? = some piece)
    {heading key value : String} :
    (s.loadLines "" 1 (pieces.take (n + 1))).1.get? heading key = some value ↔
      Assigns (pieces.map Text.trim) n heading key value ∨
        ((∀ v, ¬ Assigns (pieces.map Text.trim) n heading key v) ∧
          (s.loadLines "" 1 (pieces.take n)).1.get? heading key = some value) := by
  rw [loadLines_take_succ s h]
  simp only [assigns_iff h, loadLines]
  cases SettingsLine.ofTrimmed (Text.trim piece) with
  | blank => simp
  | heading name => simp
  | invalid text => simp
  | assignment front back =>
    dsimp only
    split
    · next hnone => simp [hnone]
    · next hsome =>
      rw [get?_assign]
      split
      · next hkey => simp [hkey, hsome, eq_comm]
      · next hkey => grind

/-- A line that is passed over is remarked on, and no other one is. -/
theorem warnings_of_line (s : Settings) (h : pieces[n]? = some piece) :
    let one := s.loadLines ((lastHeading? (pieces.take n)).getD "") (n + 1) [piece]
    (PassedOver (pieces.map Text.trim) n ∧
        ∃ warning, one.2 = [warning] ∧ Remarks (pieces.map Text.trim) n warning) ∨
      (¬ PassedOver (pieces.map Text.trim) n ∧ one.2 = []) := by
  simp only [passedOver_iff h, Remarks, getElem?_trimmed h, Option.some.injEq, exists_eq_left',
    loadLines]
  cases hline : SettingsLine.ofTrimmed (Text.trim piece) with
  | blank => simp
  | heading name => simp
  | invalid text =>
    obtain ⟨rfl, hfree⟩ := eq_of_ofTrimmed_eq_invalid hline
    simp [hfree]
  | assignment front back =>
    obtain ⟨-, -, key, value, hcut, -⟩ := isAssignment_iff.mpr ⟨front, back, hline, rfl, rfl⟩
    have hmem : '=' ∈ Text.trim piece := by simp [hcut]
    dsimp only
    split
    · next hnone => simp [hnone, hmem]
    · next hsome => simp [hsome]

end

/-! ## Whole texts -/

theorem get?_loadLines_iff (s : Settings) (pieces : List (List Char))
    {heading key value : String} :
    (s.loadLines "" 1 pieces).1.get? heading key = some value ↔
      LastBefore (fun n v => Assigns (pieces.map Text.trim) n heading key v) pieces.length value ∨
        ((∀ n < pieces.length, ∀ v, ¬ Assigns (pieces.map Text.trim) n heading key v) ∧
          s.get? heading key = some value) := by
  have hrun := eq_some_iff_lastBefore (p := pieces.length) (b := value)
    (fun m => (s.loadLines "" 1 (pieces.take m)).1.get? heading key)
    fun m hm _ => get?_loadLines_take_succ s (List.getElem?_eq_getElem hm)
  simp only [List.take_length] at hrun
  exact hrun

/-- Every line that is passed over is remarked on once, in order. The induction is on how many lines
have been loaded. -/
theorem exists_places_loadLines (s : Settings) (pieces : List (List Char)) {p : Nat}
    (hp : p ≤ pieces.length) :
    ∃ places : List Nat, places.Pairwise (· < ·) ∧
      (∀ n, n ∈ places ↔ n < p ∧ PassedOver (pieces.map Text.trim) n) ∧
      List.Forall₂ (Remarks (pieces.map Text.trim)) places
        (s.loadLines "" 1 (pieces.take p)).2 := by
  induction p with
  | zero => exact ⟨[], List.Pairwise.nil, by simp, .nil⟩
  | succ p ih =>
    obtain ⟨places, hsorted, hmem, hremarks⟩ := ih (Nat.le_of_succ_le hp)
    have hpiece : pieces[p]? = some pieces[p] := List.getElem?_eq_getElem hp
    rw [loadLines_take_succ s hpiece]
    rcases warnings_of_line (s.loadLines "" 1 (pieces.take p)).1 hpiece with
      ⟨hover, warning, hone, hremark⟩ | ⟨hover, hone⟩
    · refine ⟨places ++ [p], ?_, ?_, ?_⟩
      · refine List.pairwise_append.mpr ⟨hsorted, List.pairwise_singleton _ _, ?_⟩
        intro n hn m hm
        rw [List.mem_singleton.mp hm]
        exact ((hmem n).mp hn).1
      · intro n
        rw [List.mem_append, List.mem_singleton, hmem, Nat.lt_succ_iff_lt_or_eq, or_and_right]
        exact or_congr_right (iff_self_and.mpr fun hn => hn ▸ hover)
      · dsimp only
        rw [hone]
        exact List.rel_append hremarks (.cons hremark .nil)
    · refine ⟨places, hsorted, ?_, ?_⟩
      · intro n
        rw [hmem, Nat.lt_succ_iff_lt_or_eq, or_and_right]
        refine (or_iff_left ?_).symm
        rintro ⟨rfl, h⟩
        exact hover h
      · dsimp only
        rw [hone, List.append_nil]
        exact hremarks

/-! ## Texts one after the other -/

section

variable {texts : List String} {heading key value : String}

/-- A line that assigns something is one of the lines. -/
theorem Assigns.lt_length {lines : List (List Char)} {n : Nat}
    (h : Assigns lines n heading key value) : n < lines.length := by
  obtain ⟨⟨line, hline, -⟩, -⟩ := h
  exact (List.getElem?_eq_some_iff.mp hline).1

/-- What a text assigns to a key in the end. -/
def LastIn (text : String) (heading key value : String) : Prop :=
  LastBefore (fun n v => Assigns (linesOf text) n heading key v) (linesOf text).length value

theorem get?_load_iff (s : Settings) (text : String) :
    (s.load text).1.get? heading key = some value ↔
      LastIn text heading key value ∨
        ((∀ v, ¬ LastIn text heading key v) ∧ s.get? heading key = some value) := by
  have hlength : (text.toList.splitOn '\n').length = (linesOf text).length :=
    (List.length_map _).symm
  rw [load_eq_loadLines_splitOn, get?_loadLines_iff, hlength]
  refine or_congr_right (and_congr_left' ?_)
  rw [← not_exists (p := fun v => LastIn text heading key v)]
  simp only [LastIn, exists_lastBefore_iff]
  push Not
  rfl

theorem ofTexts_take_succ {i : Nat} {text : String} (h : texts[i]? = some text) :
    ofTexts (texts.take (i + 1)) = ((ofTexts (texts.take i)).load text).1 := by
  rw [ofTexts, List.take_add_one, h, List.foldl_append]
  rfl

theorem get?_ofTexts_iff_lastBefore :
    (ofTexts texts).get? heading key = some value ↔
      LastBefore (fun i v => ∃ text, texts[i]? = some text ∧ LastIn text heading key v)
        texts.length value := by
  have hstep : ∀ i < texts.length, ∀ v,
      (ofTexts (texts.take (i + 1))).get? heading key = some v ↔
        (∃ text, texts[i]? = some text ∧ LastIn text heading key v) ∨
          ((∀ c, ¬ ∃ text, texts[i]? = some text ∧ LastIn text heading key c) ∧
            (ofTexts (texts.take i)).get? heading key = some v) := by
    intro i hi v
    have htext : texts[i]? = some texts[i] := List.getElem?_eq_getElem hi
    simp only [ofTexts_take_succ htext, get?_load_iff, htext, Option.some.injEq, exists_eq_left']
  have hrun := eq_some_iff_lastBefore (b := value)
    (fun i => (ofTexts (texts.take i)).get? heading key) hstep
  simp only [List.take_length] at hrun
  refine hrun.trans (or_iff_left ?_)
  rintro ⟨-, h⟩
  cases h

/-- The last of the assignments in the last of the texts that have one is the last of all. -/
theorem get?_ofTexts_iff :
    (ofTexts texts).get? heading key = some value ↔ LastAssigned texts heading key value := by
  rw [get?_ofTexts_iff_lastBefore]
  constructor
  · rintro ⟨i, -, ⟨text, htext, n, -, hassigns, hlast⟩, hlater⟩
    refine ⟨i, n, ⟨text, htext, hassigns⟩, ?_⟩
    rintro j m value' ⟨text', htext', hassigns'⟩
    rcases Nat.lt_trichotomy j i with hji | rfl | hij
    · exact .inl hji
    · rw [htext] at htext'
      cases htext'
      refine .inr ⟨rfl, ?_⟩
      by_contra hnm
      exact hlast m (Nat.lt_of_not_le hnm) hassigns'.lt_length value' hassigns'
    · obtain ⟨v, hv⟩ : ∃ v, LastIn text' heading key v :=
        exists_lastBefore_iff.mpr ⟨m, hassigns'.lt_length, value', hassigns'⟩
      exact absurd ⟨text', htext', hv⟩ (hlater j hij (List.getElem?_eq_some_iff.mp htext').1 v)
  · rintro ⟨i, n, ⟨text, htext, hassigns⟩, hlast⟩
    refine ⟨i, (List.getElem?_eq_some_iff.mp htext).1,
      ⟨text, htext, n, hassigns.lt_length, hassigns, ?_⟩, ?_⟩
    · intro m hnm _ v hv
      have horder := hlast i m v ⟨text, htext, hv⟩
      omega
    · rintro j hij _ v ⟨text', htext', m, -, hv, -⟩
      have horder := hlast j m v ⟨text', htext', hv⟩
      omega

/-- Something is assigned last when something is assigned at all. -/
theorem exists_lastAssigned_iff :
    (∃ v, LastAssigned texts heading key v) ↔ ∃ i n v, Assigned texts i n heading key v := by
  constructor
  · rintro ⟨v, i, n, hassigned, -⟩
    exact ⟨i, n, v, hassigned⟩
  · rintro ⟨i, n, v, text, htext, hassigns⟩
    simp only [← get?_ofTexts_iff, get?_ofTexts_iff_lastBefore, exists_lastBefore_iff]
    obtain ⟨w, hw⟩ : ∃ w, LastIn text heading key w :=
      exists_lastBefore_iff.mpr ⟨n, hassigns.lt_length, v, hassigns⟩
    exact ⟨i, (List.getElem?_eq_some_iff.mp htext).1, w, text, htext, hw⟩

theorem hasKey_ofTexts_iff :
    (ofTexts texts).hasKey heading key = true ↔ ∃ i n v, Assigned texts i n heading key v := by
  simp only [hasKey_iff, get?_ofTexts_iff, exists_lastAssigned_iff]

theorem filled_ofTexts (texts : List String) : (ofTexts texts).Filled :=
  List.foldlRecOn texts _ filled_empty fun _ h _ _ => h.loadLines "" 1 _

end

/-- **Settings hold what was assigned last, and no line is lost without a warning.** Whatever texts
are loaded one after the other: a key is there exactly when some line of some text assigns it; its
value is the one that is assigned last, and the default when none is; a section is there exactly
when some line assigns a key in it. And whatever the settings were before, loading a text gives one
warning for each line that is passed over, in their order, and none for any other line. -/
theorem load_last_assignment (texts : List String) :
    (∀ heading key, (ofTexts texts).hasKey heading key = true ↔
      ∃ i n value, Assigned texts i n heading key value) ∧
    (∀ heading key value, (ofTexts texts).get? heading key = some value ↔
      LastAssigned texts heading key value) ∧
    (∀ heading key default,
      (∃ value, LastAssigned texts heading key value ∧
        (ofTexts texts).getD heading key default = value) ∨
      ((¬ ∃ i n value, Assigned texts i n heading key value) ∧
        (ofTexts texts).getD heading key default = default)) ∧
    (∀ heading, (ofTexts texts).hasSection heading = true ↔
      ∃ i n key value, Assigned texts i n heading key value) ∧
    ∀ (s : Settings) (text : String), ∃ places : List Nat, places.Pairwise (· < ·) ∧
      (∀ n, n ∈ places ↔ PassedOver (linesOf text) n) ∧
      List.Forall₂ (Remarks (linesOf text)) places (s.load text).2 := by
  refine ⟨fun _ _ => hasKey_ofTexts_iff, fun _ _ _ => get?_ofTexts_iff, ?_, ?_, ?_⟩
  · intro heading key default
    rw [← exists_lastAssigned_iff, getD]
    simp only [← get?_ofTexts_iff]
    cases (ofTexts texts).get? heading key with
    | none => simp
    | some value => simp
  · intro heading
    rw [(filled_ofTexts texts).hasSection_iff]
    simp only [hasKey_ofTexts_iff]
    constructor
    · rintro ⟨key, i, n, value, h⟩
      exact ⟨i, n, key, value, h⟩
    · rintro ⟨i, n, key, value, h⟩
      exact ⟨key, i, n, value, h⟩
  · intro s text
    rw [load_eq_loadLines_splitOn]
    obtain ⟨places, hsorted, hmem, hremarks⟩ :=
      exists_places_loadLines s (text.toList.splitOn '\n') (Nat.le_refl _)
    rw [List.take_length] at hremarks
    refine ⟨places, hsorted, fun n => (hmem n).trans (and_iff_right_of_imp ?_), hremarks⟩
    rintro ⟨⟨line, hline, -⟩, -⟩
    rw [List.getElem?_map] at hline
    obtain ⟨piece, hpiece, -⟩ := Option.map_eq_some_iff.mp hline
    exact (List.getElem?_eq_some_iff.mp hpiece).1

/-- A section that is opened again, a value with a mark and a comment in it, and keys under no
heading and under one without a name. -/
example :
    let texts := ["k = 0\n[a]\nk = 1 # one\n[ ]\nk = 2\n", "; again\r\n [ a ]\r\nk == 3 # 4 = 5\nk"]
    (ofTexts texts).get? "a" "k" = some "= 3" ∧
      (empty.load texts[0]).2 = [.keyWithoutSection 1, .keyWithoutSection 5] ∧
      (empty.load texts[1]).2 = [.invalidLine 4 "k"] := by
  decide +kernel

end Settings

end Metrology
