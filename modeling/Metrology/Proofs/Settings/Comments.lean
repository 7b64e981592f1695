import Mathlib
import Metrology.Proofs.Settings.Lines
import Metrology.Proofs.Text.Trim

/-!
# Metrology.Proofs.Settings.Comments -- comments behind lines

What a text adds to settings depends on what its lines say and not on how they are written; a line
that cannot be read says no more than an empty one (`load_editLine`). So a comment behind a line is
seen in the settings through what that one line says.

Behind an assignment a comment changes nothing, whatever is in it: the key ends before the comment
starts, and the value is what stands before the first mark (`IsAssignment.append_comment`). A
heading is told by the bracket at its end, and behind that bracket no comment is looked for. The
line is then another heading if the comment ends in a bracket too, and it is no heading otherwise:
what follows it goes to the heading above (`comment_behind_line`).
-/

namespace Metrology

namespace Settings

/-! ## What lines say -/

/-- What a line says to the settings. A line that cannot be read says as much as an empty one. -/
def meaning (piece : List Char) : SettingsLine :=
  match SettingsLine.ofTrimmed (Text.trim piece) with
  | .invalid _ => .blank
  | said => said

theorem loadLines_cons_fst (s : Settings) (heading : String) (number : Nat) (line : List Char)
    (lines : List (List Char)) :
    (s.loadLines heading number (line :: lines)).1 =
      match meaning line with
      | .heading name => (s.loadLines (.ofList name) (number + 1) lines).1
      | .assignment key value =>
        if heading = "" then
          (s.loadLines heading (number + 1) lines).1
        else
          ((s.assign heading (.ofList key) (.ofList value)).loadLines heading (number + 1) lines).1
      | _ => (s.loadLines heading (number + 1) lines).1 := by
  rw [loadLines, meaning]
  cases SettingsLine.ofTrimmed (Text.trim line) with
  | blank => rfl
  | heading name => rfl
  | invalid text => rfl
  | assignment key value =>
    dsimp only
    split <;> rfl

/-- Lines that say the same make the same settings, whatever is remarked on them. -/
theorem loadLines_fst_congr {lines lines' : List (List Char)}
    (h : lines.map meaning = lines'.map meaning) (s : Settings) (heading : String) (number : Nat) :
    (s.loadLines heading number lines).1 = (s.loadLines heading number lines').1 := by
  induction lines generalizing lines' s heading number with
  | nil =>
    rw [List.map_nil, eq_comm, List.map_eq_nil_iff] at h
    rw [h]
  | cons line lines ih =>
    obtain ⟨line', lines', rfl, hline, hlines⟩ := List.map_eq_cons_iff.mp h.symm
    simp only [loadLines_cons_fst, hline, ih hlines.symm]

/-! ## Edited texts -/

/-- The text with its line `n` written in another way. -/
def editLine (text : String) (n : Nat) (edit : List Char → List Char) : String :=
  .ofList (['\n'].intercalate ((text.toList.splitOn '\n').modify n edit))

/-- The text with a comment behind its line `n`. -/
def withComment (text : String) (n : Nat) (comment : String) : String :=
  editLine text n (· ++ ' ' :: '#' :: comment.toList)

section

variable {text : String} {n : Nat} {edit edit' : List Char → List Char}

/-- An edit that makes no new lines changes one line. -/
theorem splitOn_editLine (hedit : ∀ piece, '\n' ∉ piece → '\n' ∉ edit piece) :
    (editLine text n edit).toList.splitOn '\n' = (text.toList.splitOn '\n').modify n edit := by
  rw [editLine, String.toList_ofList]
  refine List.splitOn_intercalate _ ?_ (mt List.modify_eq_nil_iff.mp (List.splitOn_ne_nil _ _))
  intro line hline
  obtain ⟨m, hm⟩ := List.mem_iff_getElem?.mp hline
  rw [List.getElem?_modify] at hm
  obtain ⟨piece, hpiece, rfl⟩ := Option.map_eq_some_iff.mp hm
  have hfree : '\n' ∉ piece := Text.notMem_of_mem_splitOn (List.mem_of_getElem? hpiece)
  split
  · exact hedit piece hfree
  · exact hfree

theorem editLine_id : editLine text n id = text := by
  rw [editLine, List.modify_id, List.intercalate_splitOn, String.ofList_toList]

theorem exists_piece_of_linesOf {line : List Char} (h : (linesOf text)[n]? = some line) :
    ∃ piece, (text.toList.splitOn '\n')[n]? = some piece ∧ Text.trim piece = line := by
  rwa [linesOf, List.getElem?_map, Option.map_eq_some_iff] at h

/-- Two edits make the same settings if the line says the same after both. -/
theorem load_editLine {piece : List Char} (hpiece : (text.toList.splitOn '\n')[n]? = some piece)
    (hedit : ∀ line, '\n' ∉ line → '\n' ∉ edit line)
    (hedit' : ∀ line, '\n' ∉ line → '\n' ∉ edit' line)
    (h : meaning (edit piece) = meaning (edit' piece)) (s : Settings) :
    (s.load (editLine text n edit)).1 = (s.load (editLine text n edit')).1 := by
  rw [load_eq_loadLines_splitOn, load_eq_loadLines_splitOn, splitOn_editLine hedit,
    splitOn_editLine hedit']
  refine loadLines_fst_congr (List.ext_getElem? fun m => ?_) s "" 1
  simp only [List.getElem?_map, List.getElem?_modify]
  by_cases hm : n = m
  · subst hm
    simp [hpiece, h]
  · simp [hm]

/-- An edit that does not change what the line says does not change the settings. -/
theorem load_editLine_of_meaning_eq {piece : List Char}
    (hpiece : (text.toList.splitOn '\n')[n]? = some piece)
    (hedit : ∀ line, '\n' ∉ line → '\n' ∉ edit line)
    (h : meaning (edit piece) = meaning piece) (s : Settings) :
    (s.load (editLine text n edit)).1 = (s.load text).1 := by
  calc (s.load (editLine text n edit)).1
      = (s.load (editLine text n id)).1 := load_editLine hpiece hedit (fun _ hline => hline) h s
    _ = (s.load text).1 := by rw [editLine_id]

end

/-! ## A line with a comment -/

/-- Behind a line that is not blank there come to stand blanks, the mark, and what is not trimmed
off of the comment. -/
theorem exists_trim_append_comment {piece : List Char} (h : Text.trim piece ≠ [])
    (comment : List Char) :
    ∃ blanks rest, Text.AllBlank blanks ∧
      Text.trim (piece ++ ' ' :: '#' :: comment) = Text.trim piece ++ (blanks ++ '#' :: rest) ∧
      rest.getLast? = (Text.trim comment).getLast? := by
  obtain ⟨rest, hrest, hlast⟩ := Text.exists_trim_cons (c := '#') rfl comment
  have hpiece : Text.trim (piece ++ [' ']) = Text.trim piece :=
    Text.trim_append_of_isBlank rfl piece
  obtain ⟨blanks, hblanks, htrim⟩ := Text.exists_trim_append (s := piece ++ [' '])
    (by rwa [hpiece]) (Text.trim_cons_ne_nil (c := '#') rfl comment)
  refine ⟨blanks, rest, hblanks, ?_, hlast⟩
  rw [List.append_cons, htrim, hpiece, hrest]

section

variable {piece : List Char}

theorem meaning_of_isAssignment {key value : String}
    (h : IsAssignment (Text.trim piece) key value) :
    meaning piece = .assignment key.toList value.toList := by
  obtain ⟨front, back, hline, rfl, rfl⟩ := isAssignment_iff.mp h
  rw [meaning, hline, String.toList_ofList, String.toList_ofList]

theorem meaning_eq_blank (hheading : ∀ name, ¬ IsHeading (Text.trim piece) name)
    (hassign : '=' ∉ Text.trim piece) : meaning piece = .blank := by
  rcases ofTrimmed_cases (Text.trim piece) with ⟨-, h⟩ | ⟨-, written, hwritten, -⟩ |
    ⟨-, -, front, back, hcut, -⟩ | ⟨-, -, -, h⟩
  · rw [meaning, h]
  · exact absurd (isHeading_iff_heading?.mpr ⟨written, hwritten, rfl⟩) (hheading _)
  · rw [Text.cutAt?_eq_none_iff.mpr hassign] at hcut
    cases hcut
  · rw [meaning, h]

/-- A line that assigns a value does so with a comment behind it. -/
theorem IsAssignment.append_comment {key value : String}
    (h : IsAssignment (Text.trim piece) key value)
    (hbracket : (Text.trim piece).head? ≠ some '[') (comment : List Char) :
    IsAssignment (Text.trim (piece ++ ' ' :: '#' :: comment)) key value := by
  obtain ⟨hsilent, -, front, back, hline, hfree, hkey, hvalue⟩ := h
  have hne : Text.trim piece ≠ [] := fun h => hsilent (.inl h)
  obtain ⟨blanks, rest, hblanks, htrim, -⟩ := exists_trim_append_comment hne comment
  have hhead : (Text.trim piece ++ (blanks ++ '#' :: rest)).head? = (Text.trim piece).head? :=
    List.head?_append_of_ne_nil _ hne
  rw [htrim]
  refine ⟨?_, ?_, front, back ++ (blanks ++ '#' :: rest), ?_, hfree, hkey, hvalue.trans ?_⟩
  · rintro (hnil | hmark)
    · exact hne (List.append_eq_nil_iff.mp hnil).1
    · rw [hhead] at hmark
      exact hsilent (.inr hmark)
  · rintro name ⟨inner, hinner, -⟩
    rw [← hhead, hinner] at hbracket
    exact hbracket rfl
  · rw [hline, List.append_assoc, List.cons_append]
  · -- What the mark of the comment ends, at the latest, is all that the value is cut from.
    change _ = String.ofList (Text.trim (Text.before '#' _))
    rw [Text.trim_before_trim rfl, ← List.append_assoc, Text.before_append_cons,
      Text.trim_before_append_blanks hblanks, ← Text.trim_before_trim rfl]
    rfl

theorem exists_isAssignment_iff {line : List Char} :
    (∃ key value, IsAssignment line key value) ↔
      ¬ IsSilent line ∧ (∀ name, ¬ IsHeading line name) ∧ '=' ∈ line := by
  constructor
  · rintro ⟨_, _, hsilent, hheading, front, back, rfl, -⟩
    exact ⟨hsilent, hheading, by simp⟩
  · rintro ⟨hsilent, hheading, hmem⟩
    obtain ⟨front, back, hline, hfree⟩ := List.eq_append_cons_of_mem hmem
    exact ⟨_, _, hsilent, hheading, front, back, hline, hfree, rfl, rfl⟩

theorem exists_isHeading_iff {line : List Char} :
    (∃ name, IsHeading line name) ↔ ∃ rest, line = '[' :: rest ∧ rest.getLast? = some ']' := by
  constructor
  · rintro ⟨_, inner, rfl, -⟩
    exact ⟨_, rfl, List.getLast?_concat⟩
  · rintro ⟨rest, rfl, hlast⟩
    obtain ⟨inner, rfl⟩ := List.getLast?_eq_some_iff.mp hlast
    exact ⟨_, inner, rfl, rfl⟩

variable {name : String}

theorem IsHeading.exists_trim_append_comment (h : IsHeading (Text.trim piece) name)
    (comment : List Char) :
    ∃ inner blanks rest, name = .ofList (Text.trim inner) ∧
      Text.trim (piece ++ ' ' :: '#' :: comment) =
        '[' :: (inner ++ ']' :: (blanks ++ '#' :: rest)) ∧
      rest.getLast? = (Text.trim comment).getLast? := by
  obtain ⟨inner, hline, hname⟩ := h
  have hne : Text.trim piece ≠ [] := by simp [hline]
  obtain ⟨blanks, rest, -, htrim, hlast⟩ := Settings.exists_trim_append_comment hne comment
  refine ⟨inner, blanks, rest, hname, ?_, hlast⟩
  rw [htrim, hline, List.cons_append, List.append_assoc, List.singleton_append]

/-- With a comment behind it a heading is one exactly if the comment is closed by a bracket. -/
theorem IsHeading.exists_append_comment_iff (h : IsHeading (Text.trim piece) name)
    (comment : List Char) :
    (∃ name', IsHeading (Text.trim (piece ++ ' ' :: '#' :: comment)) name') ↔
      (Text.trim comment).getLast? = some ']' := by
  obtain ⟨inner, blanks, rest, -, htrim, hlast⟩ := h.exists_trim_append_comment comment
  rw [exists_isHeading_iff, htrim, ← hlast]
  have hend : (inner ++ ']' :: (blanks ++ '#' :: rest)).getLast? =
      some (rest.getLast?.getD '#') := by
    rw [List.append_cons, ← List.append_assoc, List.getLast?_append_of_ne_nil _ (by simp),
      List.getLast?_cons]
  cases hrest : rest.getLast? with
  | none => simp [hend, hrest]
  | some c => simp [hend, hrest]

/-- And otherwise it is an assignment if there is an `=` in it. -/
theorem IsHeading.exists_assignment_append_comment_iff (h : IsHeading (Text.trim piece) name)
    (comment : List Char) :
    (∃ key value, IsAssignment (Text.trim (piece ++ ' ' :: '#' :: comment)) key value) ↔
      (Text.trim comment).getLast? ≠ some ']' ∧ ('=' ∈ Text.trim piece ∨ '=' ∈ comment) := by
  obtain ⟨inner, blanks, rest, -, htrim, -⟩ := h.exists_trim_append_comment comment
  have hsilent : ¬ IsSilent (Text.trim (piece ++ ' ' :: '#' :: comment)) := by
    rw [htrim]
    simp [IsSilent]
  rw [exists_isAssignment_iff, ← not_exists, h.exists_append_comment_iff, Text.mem_trim_iff rfl,
    Text.mem_trim_iff rfl, and_iff_right hsilent]
  simp

/-- With a comment behind it a heading names another section, if any: the name goes on behind the
bracket. -/
theorem IsHeading.not_append_comment (h : IsHeading (Text.trim piece) name)
    (comment : List Char) : ¬ IsHeading (Text.trim (piece ++ ' ' :: '#' :: comment)) name := by
  obtain ⟨inner, blanks, rest, hname, htrim, -⟩ := h.exists_trim_append_comment comment
  rintro ⟨inner', hline', hname'⟩
  rw [htrim, List.cons.injEq, and_iff_right rfl] at hline'
  obtain ⟨more, rfl⟩ : ∃ more, inner' = inner ++ ']' :: more := by
    obtain ⟨more, c, hmore⟩ :=
      (List.eq_nil_or_concat (blanks ++ '#' :: rest)).resolve_left (by simp)
    refine ⟨more, ?_⟩
    rw [hmore, List.concat_eq_append, ← List.cons_append, ← List.append_assoc] at hline'
    exact (List.append_inj' hline' rfl).1.symm
  have hlength : (Text.trim inner).length < (Text.trim (inner ++ ']' :: more)).length :=
    Text.length_trim_lt rfl inner more
  rw [String.ofList_injective (hname.symm.trans hname')] at hlength
  exact Nat.lt_irrefl _ hlength

/-- If it is not one and assigns nothing either, it cannot be read. -/
theorem IsHeading.meaning_append_comment (h : IsHeading (Text.trim piece) name)
    {comment : List Char} (hassign : '=' ∉ Text.trim piece) (hcomment : '=' ∉ comment)
    (hlast : (Text.trim comment).getLast? ≠ some ']') :
    meaning (piece ++ ' ' :: '#' :: comment) = .blank := by
  refine meaning_eq_blank (not_exists.mp (mt (h.exists_append_comment_iff comment).mp hlast)) ?_
  rw [Text.mem_trim_iff rfl] at hassign ⊢
  simp [hassign, hcomment]

end

/-! ## Comments in texts -/

/-- **Comments behind assignments are not seen, and headings are lost before them.** Whatever is in
a comment, behind a line that assigns something and does not start with a bracket it leaves the
settings that a text makes as they were. Behind a heading it does not. The line no longer names the
section that it named: if the comment is closed by a bracket it is a heading of another name, and if
it is not but there is an `=` somewhere the line is an assignment. If there is none either, the
settings are those that the text makes without the heading. -/
theorem comment_behind_line (s : Settings) (text comment : String) (n : Nat) (line : List Char)
    (hcomment : '\n' ∉ comment.toList) (hline : (linesOf text)[n]? = some line) :
    ((∃ key value, IsAssignment line key value) → line.head? ≠ some '[' →
      (s.load (withComment text n comment)).1 = (s.load text).1) ∧
    ∀ name, IsHeading line name →
      (∃ line', (linesOf (withComment text n comment))[n]? = some line' ∧
        ¬ IsHeading line' name ∧
        ((∃ name', IsHeading line' name') ↔ (Text.trim comment.toList).getLast? = some ']') ∧
        ((∃ key value, IsAssignment line' key value) ↔
          (Text.trim comment.toList).getLast? ≠ some ']' ∧ ('=' ∈ line ∨ '=' ∈ comment.toList))) ∧
      ('=' ∉ line → '=' ∉ comment.toList → (Text.trim comment.toList).getLast? ≠ some ']' →
        (s.load (withComment text n comment)).1 = (s.load (editLine text n fun _ => [])).1) := by
  obtain ⟨piece, hpiece, rfl⟩ := exists_piece_of_linesOf hline
  have hfree : ∀ p : List Char, '\n' ∉ p → '\n' ∉ p ++ ' ' :: '#' :: comment.toList :=
    fun p hp => by simp [hp, hcomment]
  refine ⟨?_, fun name hheading => ⟨?_, ?_⟩⟩
  · rintro ⟨key, value, hassign⟩ hbracket
    have hcommented := hassign.append_comment hbracket comment.toList
    exact load_editLine_of_meaning_eq hpiece hfree
      ((meaning_of_isAssignment hcommented).trans (meaning_of_isAssignment hassign).symm) s
  · refine ⟨Text.trim (piece ++ ' ' :: '#' :: comment.toList), ?_,
      hheading.not_append_comment _, hheading.exists_append_comment_iff _,
      hheading.exists_assignment_append_comment_iff _⟩
    rw [linesOf, withComment, splitOn_editLine hfree, List.getElem?_map, List.getElem?_modify,
      hpiece]
    simp
  · intro hassign hcomment' hlast
    exact load_editLine hpiece hfree (fun _ _ => List.not_mem_nil)
      (hheading.meaning_append_comment hassign hcomment' hlast) s

/-- An assignment with a bracket, a mark and another `=` in the comment behind it, and a heading
with a comment that is not closed. -/
theorem comment_behind_line_open :
    let text := "[a]\nk = 1\n[b]\nk = 2\n"
    (empty.load (withComment text 1 "[ 3 = #]")).1 = (empty.load text).1 ∧
      (empty.load (withComment text 2 " note")).1 =
        (empty.load (editLine text 2 fun _ => [])).1 := by
  intro text
  have hassign : IsAssignment "k = 1".toList "k" "1" :=
    isAssignment_iff.mpr ⟨['k'], ['1'], by decide, rfl, rfl⟩
  have hheading : IsHeading "[b]".toList "b" := ⟨['b'], rfl, rfl⟩
  refine ⟨?_, ?_⟩
  · exact (comment_behind_line empty text "[ 3 = #]" 1 "k = 1".toList (by decide)
      (by decide +kernel)).1 ⟨_, _, hassign⟩ (by decide)
  · exact ((comment_behind_line empty text " note" 2 "[b]".toList (by decide)
      (by decide +kernel)).2 "b" hheading).2 (by decide) (by decide) (by decide)

/-- A comment behind a heading takes its section away and gives the keys in it to another one. -/
theorem section_lost_before_comment :
    let text := "[a]\nk = 1\n[b]\nk = 2\n"
    let commented := withComment text 2 " note"
    commented = "[a]\nk = 1\n[b] # note\nk = 2\n" ∧
      (∃ line, (linesOf text)[2]? = some line ∧ IsHeading line "b") ∧
      (empty.load text).1.get? "a" "k" = some "1" ∧
      (empty.load text).1.get? "b" "k" = some "2" ∧
      (empty.load commented).1.get? "a" "k" = some "2" ∧
      (empty.load commented).1.hasSection "b" = false :=
  ⟨by decide +kernel, ⟨"[b]".toList, by decide +kernel, ['b'], rfl, rfl⟩, by decide +kernel,
    by decide +kernel, by decide +kernel, by decide +kernel⟩

end Settings

end Metrology
