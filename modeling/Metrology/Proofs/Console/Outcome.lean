import Mathlib
import Metrology.Proofs.Console.Commands
import Metrology.Proofs.Settings.Families
import Metrology.Proofs.Settings.Lines

/-!
# Metrology.Proofs.Console.Outcome -- what the converter leaves behind

The converter reads the settings files of the leading `--config` options one after the other, and
then follows a command (`Configures.runWith_eq`). When a file cannot be opened or its families cannot
be read, the rest is not looked at (`exists_runWith_of_not_configures`). What has been written to the
error stream before are the warnings about the files, each of which is a line of its own
(`Warning.exists_terminated_log`).

So there are three ways for a run to end (`run_outcome`): an answer and nothing but warnings, an
error line and no answer, or an error line and the help where the arguments are miscounted.
-/

namespace Metrology

/-! ## Warnings -/

namespace Warning

theorem log_cons (w : Warning) (ws : List Warning) : log (w :: ws) = w.line ++ log ws := by
  apply String.toList_injective
  rw [log, List.map_cons, Text.toList_join_empty, String.toList_append, log]

theorem log_append (first second : List Warning) :
    log (first ++ second) = log first ++ log second := by
  induction first with
  | nil => exact String.empty_append.symm
  | cons w first ih => rw [List.cons_append, log_cons, ih, log_cons, String.append_assoc]

/-- Whether a warning writes one line, and says at its start what it is. -/
def IsLine (w : Warning) : Prop :=
  ∃ text : String, w.line = text ++ "\n" ∧ '\n' ∉ text.toList ∧ "Warning:".toList <+: text.toList

/-- Warnings that write one line each write as many lines before whatever follows. -/
theorem exists_terminated_log {ws : List Warning} (h : ∀ w ∈ ws, w.IsLine) (t : List Char) :
    ∃ lines, Text.terminated '\n' ((log ws).toList ++ t) = lines ++ Text.terminated '\n' t ∧
      ∀ line ∈ lines, "Warning:".toList <+: line := by
  induction ws with
  | nil => exact ⟨[], rfl, by simp⟩
  | cons w ws ih =>
    rw [List.forall_mem_cons] at h
    obtain ⟨⟨text, hline, hfree, hstart⟩, hrest⟩ := h
    obtain ⟨lines, hlines, hstarts⟩ := ih hrest
    refine ⟨text.toList :: lines, ?_, List.forall_mem_cons.mpr ⟨hstart, hstarts⟩⟩
    have hended : (text ++ "\n").toList = text.toList ++ ['\n'] := String.toList_append
    rw [log_cons, String.toList_append, hline, hended, List.append_assoc, List.append_assoc,
      List.singleton_append, Text.terminated_append hfree, hlines, List.cons_append]

theorem isLine_invalidLine (number : Nat) {text : String} (h : '\n' ∉ text.toList) :
    (invalidLine number text).IsLine := by
  refine ⟨"Warning: Invalid line " ++ Text.ofInt number ++ ": " ++ text, rfl, ?_, ?_⟩
  · have hnumber : '\n' ∉ ("Warning: Invalid line " ++ Text.ofInt number).toList :=
      Text.notMem_toList_append (by decide) (Text.notMem_ofInt (by decide) (by decide) number)
    exact Text.notMem_toList_append (Text.notMem_toList_append hnumber (by decide)) h
  · have hstart : "Warning:".toList <+: "Warning: Invalid line ".toList := by decide
    exact Text.prefix_toList_append
      (Text.prefix_toList_append (Text.prefix_toList_append hstart _) _) _

theorem isLine_keyWithoutSection (number : Nat) : (keyWithoutSection number).IsLine := by
  refine ⟨"Warning: Key without section at line " ++ Text.ofInt number, rfl, ?_, ?_⟩
  · exact Text.notMem_toList_append (by decide) (Text.notMem_ofInt (by decide) (by decide) number)
  · exact Text.prefix_toList_append (by decide) _

end Warning

namespace Settings

/-- A warning about lines that have no line feed in them is one line. -/
theorem isLine_of_mem_loadLines {lines : List (List Char)} (h : ∀ line ∈ lines, '\n' ∉ line) :
    ∀ (s : Settings) (heading : String) (number : Nat),
      ∀ w ∈ (s.loadLines heading number lines).2, w.IsLine := by
  induction lines with
  | nil => simp [loadLines]
  | cons line lines ih =>
    rw [List.forall_mem_cons] at h
    intro s heading number
    rw [loadLines]
    cases hline : SettingsLine.ofTrimmed (Text.trim line) with
    | blank => exact ih h.2 _ _ _
    | heading name => exact ih h.2 _ _ _
    | invalid text =>
      obtain ⟨rfl, -⟩ := eq_of_ofTrimmed_eq_invalid hline
      have hfree : '\n' ∉ (String.ofList (Text.trim line)).toList := by
        rw [String.toList_ofList]
        exact fun hmem => h.1 (Text.trim_subset line hmem)
      exact List.forall_mem_cons.mpr ⟨Warning.isLine_invalidLine _ hfree, ih h.2 _ _ _⟩
    | assignment key value =>
      dsimp only
      split
      · exact List.forall_mem_cons.mpr ⟨Warning.isLine_keyWithoutSection _, ih h.2 _ _ _⟩
      · exact ih h.2 _ _ _

theorem isLine_of_mem_load (s : Settings) (text : String) : ∀ w ∈ (s.load text).2, w.IsLine :=
  isLine_of_mem_loadLines (Text.notMem_of_mem_terminated text.toList) s "" 1

end Settings

namespace Console

open Program

/-! ## Settings files -/

variable {files : String → Option String}

/-- The arguments after the leading `--config` options. -/
def remaining : List String → List String
  | option :: file :: rest => if option = "--config" then remaining rest else option :: file :: rest
  | args => args

/-- The arguments are the `--config` options for the files that they name, and what remains. -/
theorem options_append_remaining (args : List String) :
    (configFiles args).flatMap (fun file => ["--config", file]) ++ remaining args = args := by
  fun_induction configFiles args with
  | case1 file rest ih =>
    rw [List.flatMap_cons, remaining, if_pos rfl, List.append_assoc, ih]
    rfl
  | case2 option file rest h =>
    rw [remaining, if_neg h]
    rfl
  | case3 args h =>
    rw [remaining]
    · rfl
    · exact h

theorem configFiles_remaining (args : List String) : configFiles (remaining args) = [] := by
  fun_induction remaining args with
  | case1 file rest ih => exact ih
  | case2 option file rest h => rw [configFiles, if_neg h]
  | case3 args h =>
    rw [configFiles]
    exact h

/-- Settings files that can be opened, and whose families can be read and added, one after the other:
the registry before, and the registry after them. -/
inductive Configures (files : String → Option String) : Registry → List String → Registry → Prop
  | nil (registry : Registry) : Configures files registry [] registry
  | cons {registry extended final : Registry} {file text : String} {rest : List String}
      {families : List Family} (opened : files file = some text)
      (read : (Settings.empty.load text).1.families = .ok families)
      (added : registry.addAll families = (extended, none))
      (others : Configures files extended rest final) :
      Configures files registry (file :: rest) final

/-- The warnings about a file. -/
def warnings (files : String → Option String) (file : String) : List Warning :=
  (files file).elim [] fun text => (Settings.empty.load text).2

/-- Whether a text is an error line, possibly with more lines after it. -/
def IsComplaint (text : String) : Prop := "Error:".toList <+: text.toList

instance (text : String) : Decidable (IsComplaint text) :=
  inferInstanceAs (Decidable (_ <+: _))

theorem IsComplaint.append {text : String} (h : IsComplaint text) (rest : String) :
    IsComplaint (text ++ rest) :=
  Text.prefix_toList_append h rest

theorem isComplaint_error : IsComplaint "Error: " := by decide

theorem configure_of_read {registry extended : Registry} {file text : String}
    {families : List Family} (hopened : files file = some text)
    (hread : (Settings.empty.load text).1.families = .ok families)
    (hadded : registry.addAll families = (extended, none)) :
    configure files registry file =
      ⟨"", Warning.log (warnings files file), .ok (some extended)⟩ := by
  rw [configure, warnings, hopened]
  simp [hread, extend, hadded, pure_eq, Except.mapError]

/-- A settings file is read after its warnings have been written, and all of its families are added;
or an error is written. -/
theorem configure_cases (files : String → Option String) (registry : Registry) (file : String) :
    (∃ text families extended, files file = some text ∧
      (Settings.empty.load text).1.families = .ok families ∧
      registry.addAll families = (extended, none) ∧
      configure files registry file =
        ⟨"", Warning.log (warnings files file), .ok (some extended)⟩) ∨
    ((∀ text, files file = some text →
        ¬ ∃ families, (Settings.empty.load text).1.families = .ok families) ∧
      ∃ complaint, IsComplaint complaint ∧ configure files registry file =
        ⟨"", Warning.log (warnings files file) ++ complaint, .ok none⟩) := by
  cases hopened : files file with
  | none =>
    have hstart : IsComplaint "Error: Cannot open configuration file: " := by decide
    refine .inr ⟨by simp, _, (hstart.append file).append "\n", ?_⟩
    simp [configure, warnings, hopened, pure_eq, Warning.log, Text.join]
  | some text =>
    cases hfamilies : (Settings.empty.load text).1.families with
    | error e =>
      refine .inr ⟨by simp [hfamilies], _, (((isComplaint_error.append file).append ": ").append
        (Error.settings e).message).append "\n", ?_⟩
      simp [configure, warnings, hopened, hfamilies, Except.mapError, pure_eq]
    | ok families =>
      have hadd := Registry.addAll_of_isComplete (Settings.isComplete_of_mem_families hfamilies)
        registry
      exact .inl ⟨text, families, _, rfl, hfamilies, hadd,
        configure_of_read hopened hfamilies hadd⟩

theorem configures_cons_iff {registry extended final : Registry} {file text : String}
    {rest : List String} {families : List Family} (hopened : files file = some text)
    (hread : (Settings.empty.load text).1.families = .ok families)
    (hadded : registry.addAll families = (extended, none)) :
    Configures files registry (file :: rest) final ↔ Configures files extended rest final := by
  refine ⟨?_, .cons hopened hread hadded⟩
  rintro (_ | ⟨hopened', hread', hadded', hothers⟩)
  rw [hopened] at hopened'
  cases hopened'
  rw [hread] at hread'
  cases hread'
  rw [hadded] at hadded'
  cases hadded'
  exact hothers

section

variable {registry extended : Registry} {file log : String}

/-- After a file that has been read the rest is run with what the file adds. -/
theorem runWith_of_configure (h : configure files registry file = ⟨"", log, .ok (some extended)⟩)
    (rest : List String) :
    runWith files registry ("--config" :: file :: rest) =
      (do complain log; runWith files extended rest) := by
  rw [runWith, if_pos rfl, h, mk_ok_bind, complain_bind, String.empty_append]

/-- After a file at fault nothing is run. -/
theorem runWith_of_configure_none (h : configure files registry file = ⟨"", log, .ok none⟩)
    (rest : List String) :
    runWith files registry ("--config" :: file :: rest) = ⟨"", log, .ok 1⟩ := by
  rw [runWith, if_pos rfl, h, mk_ok_bind]
  simp [pure_eq]

end

theorem runWith_of_configFiles_eq_nil {args : List String} (h : configFiles args = [])
    (registry : Registry) : runWith files registry args = command registry args := by
  match args with
  | [] => rfl
  | [_] => rfl
  | option :: file :: rest =>
    rw [runWith, if_neg]
    rintro rfl
    rw [configFiles, if_pos rfl] at h
    cases h

/-- After files that are all read the other arguments are a command. The induction is on the files.
-/
theorem Configures.runWith_eq {registry final : Registry} {names : List String}
    (h : Configures files registry names final) {args : List String}
    (hargs : configFiles args = []) :
    runWith files registry (names.flatMap (fun file => ["--config", file]) ++ args) =
      (do complain (Warning.log (names.flatMap (warnings files)))
          command final args) := by
  induction h with
  | nil registry =>
    rw [List.flatMap_nil, List.nil_append, runWith_of_configFiles_eq_nil hargs]
    simp [Warning.log, Text.join]
  | @cons registry extended final file text rest families opened read added others ih =>
    have hrest := runWith_of_configure (configure_of_read opened read added)
      (rest.flatMap (fun file => ["--config", file]) ++ args)
    rw [ih] at hrest
    rw [List.flatMap_cons, List.flatMap_cons, Warning.log_append, List.append_assoc]
    refine hrest.trans ?_
    simp only [complain_bind, String.append_assoc]

/-- Where not all files are read, the first one at fault ends the run. The induction is on the
leading options. -/
theorem exists_runWith_of_not_configures {args : List String} {registry : Registry}
    (h : ¬ ∃ final, Configures files registry (configFiles args) final) :
    ∃ opened complaint, opened <+: configFiles args ∧ IsComplaint complaint ∧
      runWith files registry args =
        ⟨"", Warning.log (opened.flatMap (warnings files)) ++ complaint, .ok 1⟩ := by
  fun_induction configFiles args generalizing registry with
  | case1 file rest ih =>
    obtain ⟨text, families, extended, hopened, hread, hadded, hconfigure⟩ |
      ⟨-, complaint, hcomplaint, hconfigure⟩ := configure_cases files registry file
    · simp only [configures_cons_iff hopened hread hadded] at h
      obtain ⟨opened, complaint, hopened', hcomplaint, hrun⟩ := ih h
      refine ⟨file :: opened, complaint, by simpa using hopened', hcomplaint, ?_⟩
      rw [runWith_of_configure hconfigure, hrun, List.flatMap_cons, Warning.log_append,
        complain_bind, String.append_assoc]
    · refine ⟨[file], complaint, by simp, hcomplaint, ?_⟩
      rw [runWith_of_configure_none hconfigure, List.flatMap_cons, List.flatMap_nil,
        List.append_nil]
  | case2 option file rest hne => exact absurd ⟨registry, .nil registry⟩ h
  | case3 args hshort => exact absurd ⟨registry, .nil registry⟩ h

/-! ## Outcomes -/

theorem isLine_of_mem_warnings {names : List String} :
    ∀ w ∈ names.flatMap (warnings files), w.IsLine := by
  intro w hmem
  obtain ⟨name, -, hw⟩ := List.mem_flatMap.mp hmem
  rw [warnings] at hw
  cases hfile : files name with
  | none => simp [hfile] at hw
  | some text => exact Settings.isLine_of_mem_load _ text w (by simpa [hfile] using hw)

/-- Behind warnings an error line is still a line. -/
theorem exists_error_line {ws : List Warning} (h : ∀ w ∈ ws, w.IsLine) {complaint : String}
    (hcomplaint : IsComplaint complaint) :
    ∃ line ∈ Text.terminated '\n' (Warning.log ws ++ complaint).toList,
      "Error:".toList <+: line := by
  obtain ⟨rest, hrest⟩ := hcomplaint
  obtain ⟨lines, hlines, -⟩ := Warning.exists_terminated_log h complaint.toList
  have hfree : '\n' ∉ "Error:".toList := by decide
  obtain ⟨line, hmem, hstart⟩ := Text.exists_mem_terminated_append (by decide) hfree rest
  refine ⟨line, ?_, hstart⟩
  rw [String.toList_append, hlines, ← hrest]
  exact List.mem_append_right _ hmem

theorem run_eq {args : List String} {out err : String} {code : UInt32}
    (h : runWith files Registry.builtin args = ⟨out, err, .ok code⟩) :
    run files args = ⟨code, out, err⟩ := by
  rw [run, h]
  rfl

/-- **A run answers or fails, and never does a part of both.** Whatever the arguments and the settings
files, the converter ends with exit code 0 or 1, and no error escapes it. With 0 it has answered, and
all that it has written to the error stream are the warnings about the settings files, each line of
which says so. With 1 it has written a line that starts with `Error:`, and it has answered nothing;
except where all files could be read and the remaining arguments are miscounted, where it has
answered with the help. -/
theorem run_outcome (files : String → Option String) (args : List String) :
    let outcome := run files args
    let miscounted :=
      (∃ registry, Configures files Registry.builtin (configFiles args) registry) ∧
        Miscounted (remaining args)
    (¬ miscounted ∧ outcome.exitCode = 0 ∧ outcome.out ≠ "" ∧
      outcome.err = Warning.log ((configFiles args).flatMap (warnings files)) ∧
      ∀ line ∈ Text.terminated '\n' outcome.err.toList, "Warning:".toList <+: line) ∨
    (outcome.exitCode = 1 ∧
      (∃ line ∈ Text.terminated '\n' outcome.err.toList, "Error:".toList <+: line) ∧
      (miscounted → outcome.out = help) ∧ (¬ miscounted → outcome.out = "")) := by
  intro outcome miscounted
  by_cases hconfigures : ∃ registry, Configures files Registry.builtin (configFiles args) registry
  · obtain ⟨registry, hregistry⟩ := hconfigures
    have hrun := hregistry.runWith_eq (configFiles_remaining args)
    rw [options_append_remaining] at hrun
    have hwarnings : ∀ w ∈ (configFiles args).flatMap (warnings files), w.IsLine :=
      isLine_of_mem_warnings
    by_cases hcount : Miscounted (remaining args)
    · rw [command_of_miscounted registry hcount, complain_bind] at hrun
      have hmiscounted : miscounted := ⟨⟨registry, hregistry⟩, hcount⟩
      have hcomplaint : IsComplaint "Error: Invalid number of arguments\n" := by decide
      have houtcome : outcome = _ := run_eq hrun
      rw [houtcome]
      exact .inr ⟨rfl, exists_error_line hwarnings hcomplaint, fun _ => rfl,
        fun hnot => absurd hmiscounted hnot⟩
    · have hnot : ¬ miscounted := fun h => hcount h.2
      obtain ⟨text, htext, heq⟩ | ⟨complaint, heq⟩ := settles_command registry hcount
      · rw [heq, complain_bind, String.append_empty] at hrun
        have houtcome : outcome = _ := run_eq hrun
        obtain ⟨lines, hlines, hstarts⟩ := Warning.exists_terminated_log hwarnings []
        rw [List.append_nil, Text.terminated, List.append_nil] at hlines
        rw [houtcome]
        refine .inl ⟨hnot, rfl, htext, rfl, ?_⟩
        rw [hlines]
        exact hstarts
      · have hcomplaint := (isComplaint_error.append complaint).append "\n"
        rw [heq, refuse_eq, complain_bind] at hrun
        have houtcome : outcome = _ := run_eq hrun
        rw [houtcome]
        exact .inr ⟨rfl, exists_error_line hwarnings hcomplaint, fun h => absurd h hnot,
          fun _ => rfl⟩
  · have hnot : ¬ miscounted := fun h => hconfigures h.1
    obtain ⟨opened, complaint, -, hcomplaint, hrun⟩ := exists_runWith_of_not_configures hconfigures
    have houtcome : outcome = _ := run_eq hrun
    rw [houtcome]
    exact .inr ⟨rfl, exists_error_line isLine_of_mem_warnings hcomplaint,
      fun h => absurd h hnot, fun _ => rfl⟩

end Console

end Metrology
