import Mathlib
import Metrology.Console
import Metrology.Proofs.Family
import Metrology.Proofs.Program
import Metrology.Proofs.Registry.History
import Metrology.Proofs.Text

/-!
# Metrology.Proofs.Console.Commands -- what the commands of the converter come to

Each command answers or refuses, and a refusal has answered nothing (`Settles`). For a listing and a
rendering that is because nothing they compute on the way can fail any more once they have begun to
write: the names that are listed are those of the registry. A report of a conversion computes its
factor last, after most of it has been written; but whether a conversion fails is a matter of the
names alone, so the factor is there as soon as the converted value is (`report_cases`).

Only arguments that are no command at all are both answered and refused: where there are too few or
too many for a conversion (`Miscounted`), the help follows the error (`command_of_miscounted`).
-/

namespace Metrology

namespace Console

open Program

/-- Whether a program answers and is successful, or refuses and answers nothing. -/
def Settles (p : Program UInt32) : Prop :=
  (∃ text, text ≠ "" ∧ p = ⟨text, "", .ok 0⟩) ∨ ∃ complaint, p = refuse complaint

theorem refuse_eq (complaint : String) :
    refuse complaint = ⟨"", "Error: " ++ complaint ++ "\n", .ok 1⟩ := by
  rw [refuse, complain_bind, pure_eq, String.append_empty]

theorem settles_refuse (complaint : String) : Settles (refuse complaint) :=
  .inr ⟨complaint, rfl⟩

theorem handle_refuse (complaint : String) (f : Error → Program UInt32) :
    handle (refuse complaint) f = refuse complaint := by
  rw [refuse_eq, handle_ok]

/-! ## Listing -/

/-- The families of a registry are listed without an error. The induction is on the names still to
be listed, each of which the registry knows. -/
theorem exists_forM_listFamily {registry : Registry} {names : List String}
    (h : ∀ name ∈ names, ∃ chart, registry.get? name = some chart) :
    ∃ text, names.forM (listFamily registry) = ⟨text, "", .ok ()⟩ := by
  induction names with
  | nil => exact ⟨"", rfl⟩
  | cons name names ih =>
    rw [List.forall_mem_cons] at h
    obtain ⟨⟨chart, hchart⟩, hrest⟩ := h
    obtain ⟨text, htext⟩ := ih hrest
    refine ⟨familyLine name chart.family ++ text, ?_⟩
    rw [List.forM, listFamily, chartOf, Registry.chart_eq_ok_iff.mpr hchart]
    simp [htext, Except.mapError, print]

theorem exists_list_eq (registry : Registry) (name : String) :
    ∃ text, list registry name = ⟨"\n" ++ text, "", .ok ()⟩ := by
  rw [list, print_bind]
  split_ifs with hname hknown
  · have hnames : ∀ name ∈ registry.names, ∃ chart, registry.get? name = some chart :=
      fun name hmem => Table.mem_names_iff.mp hmem
    obtain ⟨text, htext⟩ := exists_forM_listFamily hnames
    simp [listFamilies, htext, print]
  · obtain ⟨chart, hchart⟩ := Table.contains_iff.mp hknown
    rw [chartOf, Registry.chart_eq_ok_iff.mpr hchart]
    simp [Except.mapError, print]
  · simp [print]

/-! ## Rendering -/

theorem settles_render (expression : String) : Settles (render expression) := by
  rw [render]
  cases Units.parse expression with
  | error cause =>
    simp only [Except.mapError, ofResult_error_bind, handle_fail]
    exact settles_refuse _
  | ok units =>
    simp only [Except.mapError, ofResult_ok_bind, print_bind, pure_eq, handle_ok]
    exact .inl ⟨_, by simp, rfl⟩

/-! ## Converting -/

/-- A report is written in full, or it fails before anything is written. -/
theorem report_cases (family : String) (chart : Chart) (value : Binary64) (source target : String) :
    (∃ result standard factor, chart.convert value source target = .ok result ∧
      Quantity.ofFamily chart value source ⟨.fractional, false⟩ = .ok standard ∧
      chart.convert 1 source target = .ok factor ∧
      report family chart value source target =
        ⟨conversionText family value source target result standard ++
          factorText source target factor, "", .ok 0⟩) ∨
    (¬ ((∃ result, chart.convert value source target = .ok result) ∧
        ∃ standard, Quantity.ofFamily chart value source ⟨.fractional, false⟩ = .ok standard) ∧
      ∃ e, report family chart value source target = fail e) := by
  rw [report]
  cases hresult : chart.convert value source target with
  | error e => exact .inr ⟨by simp, .conversion e, by simp [Except.mapError]⟩
  | ok result =>
    cases hstandard : Quantity.ofFamily chart value source ⟨.fractional, false⟩ with
    | error e => exact .inr ⟨by simp, e, by simp [Except.mapError]⟩
    | ok standard =>
      have hnames := (Chart.exists_convert_iff value).mp ⟨result, hresult⟩
      obtain ⟨factor, hfactor⟩ := (Chart.exists_convert_iff (1 : Binary64)).mpr hnames
      refine .inl ⟨result, standard, factor, rfl, rfl, hfactor, ?_⟩
      simp [hfactor, Except.mapError, pure_eq]

/-- Within a family a value is converted and reported when the family is there, knows the target,
and both conversions can be made. -/
theorem convertIn_cases (registry : Registry) (family : String) (value : Binary64)
    (source target : String) :
    (∃ chart result standard factor, registry.chart family = .ok chart ∧
      chart.has target = true ∧ chart.convert value source target = .ok result ∧
      Quantity.ofFamily chart value source ⟨.fractional, false⟩ = .ok standard ∧
      chart.convert 1 source target = .ok factor ∧
      convertIn registry family value source target =
        ⟨conversionText family value source target result standard ++
          factorText source target factor, "", .ok 0⟩) ∨
    ((∀ chart, registry.chart family = .ok chart → chart.has target = true →
        ¬ ((∃ result, chart.convert value source target = .ok result) ∧
          ∃ standard, Quantity.ofFamily chart value source ⟨.fractional, false⟩ = .ok standard)) ∧
      ∃ complaint, convertIn registry family value source target = refuse complaint) := by
  rw [convertIn, chartOf]
  cases hchart : registry.chart family with
  | error e =>
    refine .inr ⟨by simp, (Error.conversion e).message, ?_⟩
    rw [Except.mapError, ofResult_error_bind, handle_fail]
  | ok chart =>
    rw [Except.mapError, ofResult_ok_bind]
    by_cases htarget : chart.has target = true
    · rw [if_pos htarget]
      obtain ⟨result, standard, factor, hresult, hstandard, hfactor, hreport⟩ |
        ⟨hnone, e, hreport⟩ := report_cases family chart value source target
      · exact .inl ⟨chart, result, standard, factor, rfl, htarget, hresult, hstandard, hfactor,
          by rw [hreport, handle_ok]⟩
      · refine .inr ⟨?_, e.message, by rw [hreport, handle_fail]⟩
        rintro _ ⟨⟩ -
        exact hnone
    · rw [if_neg htarget, handle_refuse]
      refine .inr ⟨?_, _, rfl⟩
      rintro _ ⟨⟩ hhas
      exact absurd hhas htarget

theorem settles_convertIn (registry : Registry) (family : String) (value : Binary64)
    (source target : String) : Settles (convertIn registry family value source target) := by
  obtain ⟨chart, result, standard, factor, -, -, -, -, -, heq⟩ | ⟨-, hrefuse⟩ :=
    convertIn_cases registry family value source target
  · have hfactor : factorText source target factor ≠ "" := Text.append_ne_empty _ (by decide)
    exact .inl ⟨_, Text.append_ne_empty _ hfactor, heq⟩
  · exact .inr hrefuse

theorem settles_convert (registry : Registry) (value source target family : String) :
    Settles (convert registry value source target family) := by
  rw [convert]
  split
  · exact settles_refuse _
  · rw [convertValue]
    split_ifs
    · exact settles_refuse _
    · exact settles_convertIn _ _ _ _ _
    · exact settles_refuse _

/-! ## Commands -/

/-- Whether arguments are no other command, and too few or too many for a conversion. -/
def Miscounted (args : List String) : Prop :=
  args ≠ [] ∧ args ≠ ["--help"] ∧ args.head? ≠ some "--list" ∧ args.head? ≠ some "--render" ∧
    args.length ≠ 3 ∧ args.length ≠ 4

theorem command_of_miscounted (registry : Registry) {args : List String} (h : Miscounted args) :
    command registry args = ⟨help, "Error: Invalid number of arguments\n", .ok 1⟩ := by
  obtain ⟨hnil, hhelp, hlist, hrender, hthree, hfour⟩ := h
  unfold command
  rw [if_neg (not_or.mpr ⟨hnil, hhelp⟩), if_neg hlist, if_neg hrender]
  split
  · exact absurd rfl hthree
  · exact absurd rfl hfour
  · rw [refuse_eq, mk_ok_bind, print_bind, pure_eq]
    simp

theorem settles_command (registry : Registry) {args : List String} (h : ¬ Miscounted args) :
    Settles (command registry args) := by
  unfold command
  split_ifs with hhelp hlist hrender
  · rw [print_bind, pure_eq]
    exact .inl ⟨help ++ "", by decide, rfl⟩
  · obtain ⟨text, htext⟩ := exists_list_eq registry (args.tail.headD "")
    rw [htext, mk_ok_bind, pure_eq]
    exact .inl ⟨_, by simp, rfl⟩
  · split
    · exact settles_render _
    · exact settles_refuse _
  · split
    · exact settles_convert _ _ _ _ _
    · exact settles_convert _ _ _ _ _
    · next hthree hfour =>
      refine absurd ⟨fun hnil => hhelp (.inl hnil), fun hone => hhelp (.inr hone), hlist, hrender,
        fun hlength => ?_, fun hlength => ?_⟩ h
      · obtain ⟨value, source, target, rfl⟩ := List.length_eq_three.mp hlength
        exact hthree _ _ _ rfl
      · match args, hlength with
        | [value, source, target, family], _ => exact hfour _ _ _ _ rfl

end Console

end Metrology
