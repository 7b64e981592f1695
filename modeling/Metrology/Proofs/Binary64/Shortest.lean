import Mathlib
import Metrology.Proofs.Binary64.Written
import Metrology.Quantity.Basic

/-!
# Metrology.Proofs.Binary64.Shortest -- the fewest digits that read back

The value of a quantity is written with fifteen, sixteen or seventeen significant digits, the fewest
of these that read back as the same number. Whether a count of digits does is a question about exact
numbers only: whether the value, rounded to so many digits, is a decimal number whose nearest binary
number is the value (`Magnitude.ReadsBack`). The reader finds out just that
(`readsBackAs_written_iff`), also where the digits round up to a number that is beyond the format.
Since seventeen digits always read back, there is such a count, and no text is written that does not
(`text_shortest`).
-/

namespace Metrology

/- A power of naturals is the core one, whatever else is imported beside this module. -/
attribute [local instance (high)] instPowNat

namespace Magnitude

/-- Whether a magnitude reads back from a count of significant digits: it is the nearest to its own
value rounded to these digits. Nothing else than the magnitude is, so none beyond the format. -/
def ReadsBack (m : Magnitude) (digits : ℕ) : Prop :=
  ∃ d : ℚ, IsRounding digits (valueOf m.steps) d ∧ IsNearest (d * stepsPerUnit) m.steps

end Magnitude

namespace Binary64

open Magnitude Numeral

/-! ## Decimal numerals -/

theorem nearest_decimalRatio_eq_iff {n : ℕ} (k : ℕ) {e : ℤ} (hlow : -400 ≤ e) (hhigh : e ≤ 400) :
    nearest (decimalRatio k e).1 (decimalRatio k e).2 = n ↔
      IsNearest (k * 10 ^ e * stepsPerUnit) n := by
  have hden : 0 < 10 ^ (-e).toNat := Nat.pow_pos (by decide)
  have hvalue : ((k * 10 ^ e.toNat * stepsPerUnit : ℕ) : ℚ) / (10 ^ (-e).toNat : ℕ) =
      k * 10 ^ e * stepsPerUnit := by
    push_cast
    rw [ten_zpow_eq e]
    ring
  rw [decimalRatio_eq k hlow hhigh, nearest_eq_iff hden, hvalue]

/-- What is rounded to a finite number equal to another of its sign is rounded to its steps. -/
theorem ofRatio_equals_iff (negative : Bool) (m : Magnitude) (n d : ℕ) :
    ((ofRatio negative n d).isFinite && (ofRatio negative n d).equals (.finite negative m)) = true ↔
      nearest n d = m.steps := by
  rw [ofRatio]
  split_ifs with hlimit
  · show decide (signedSteps negative _ = signedSteps negative m) = true ↔ _
    rw [decide_eq_true_eq]
    cases negative with
    | false => exact Int.natCast_inj
    | true => exact Int.neg_inj.trans Int.natCast_inj
  · refine iff_of_false Bool.false_ne_true fun heq => hlimit ?_
    rw [heq]
    exact m.representable.1

/-! ## Texts that read back -/

/-- The reader finds out whether the digits read back, since it reads all of them and rounds once. -/
theorem readsBackAs_written_iff (negative : Bool) (m : Magnitude) {digits : ℕ} (hpos : 0 < digits)
    (hle : digits ≤ 17) :
    readsBackAs (.finite negative m) ((Binary64.finite negative m).written (.general digits)) = true ↔
      m.ReadsBack digits := by
  obtain ⟨k, e, hread, hround, hlow, hhigh⟩ := exists_read?_written negative m hpos
  rw [readsBackAs, hread]
  dsimp only
  rw [value, ofRatio_equals_iff, nearest_decimalRatio_eq_iff k (by omega) (by omega)]
  constructor
  · exact fun hnearest => ⟨_, hround, hnearest⟩
  · rintro ⟨d, hd, hnearest⟩
    rwa [hd.unique hround] at hnearest

theorem readsBack_seventeen (m : Magnitude) : m.ReadsBack 17 := by
  obtain ⟨k, e, -, hround, -⟩ := exists_read?_written false m (show 0 < 17 by decide)
  exact ⟨_, hround, isNearest_of_isRounding m.representable.2 hround⟩

/-- The counts of digits are tried from the smallest on, and the last one reads back. -/
theorem shortText_eq (negative : Bool) (m : Magnitude) :
    ∃ digits ∈ [15, 16, 17], m.ReadsBack digits ∧
      (∀ fewer ∈ [15, 16, 17], fewer < digits → ¬ m.ReadsBack fewer) ∧
      (Binary64.finite negative m).shortText =
        (Binary64.finite negative m).written (.general digits) := by
  let text := fun digits => (Binary64.finite negative m).written (.general digits)
  have hreads : ∀ digits ∈ [15, 16, 17],
      readsBackAs (.finite negative m) (text digits) = true ↔ m.ReadsBack digits := by
    intro digits hmem
    have hbounds : 0 < digits ∧ digits ≤ 17 := by
      simp only [List.mem_cons, List.not_mem_nil, or_false] at hmem
      omega
    exact readsBackAs_written_iff negative m hbounds.1 hbounds.2
  have hsome : ([15, 16, 17].find? fun digits =>
      readsBackAs (.finite negative m) (text digits)).isSome = true := by
    rw [List.find?_isSome]
    exact ⟨17, by decide, (hreads 17 (by decide)).mpr (readsBack_seventeen m)⟩
  obtain ⟨digits, hfind⟩ := Option.isSome_iff_exists.mp hsome
  obtain ⟨hfound, before, behind, hcut, hbefore⟩ := List.find?_eq_some_iff_append.mp hfind
  have hmem := List.mem_of_find?_eq_some hfind
  refine ⟨digits, hmem, (hreads digits hmem).mp hfound, fun fewer hfewer hlt hback => ?_, ?_⟩
  · -- The counts increase, so a smaller one has been tried.
    have hsorted : [15, 16, 17].Pairwise (· < ·) := by decide
    have htried : fewer ∈ before := by
      rw [hcut] at hsorted hfewer
      have hlarger := (List.pairwise_cons.mp (List.pairwise_append.mp hsorted).2.1).1
      rcases List.mem_append.mp hfewer with h | h
      · exact h
      · rcases List.mem_cons.mp h with rfl | h
        · omega
        · have hge := hlarger fewer h
          omega
    have hnot := hbefore fewer htried
    rw [(hreads fewer hfewer).mpr hback] at hnot
    cases hnot
  · rw [shortText]
    show ((([15, 16, 17].map text).find? _).getD _ = _)
    rw [List.find?_map]
    show ((([15, 16, 17].find? fun digits =>
      readsBackAs (.finite negative m) (text digits)).map text).getD _ = _)
    rw [hfind]
    rfl

/-- Fewer digits of the largest number round up to one beyond the format. -/
example : (ofBits 0x7fefffffffffffff).shortText = "1.7976931348623157e+308" := by decide +kernel

end Binary64

namespace Quantity

open Magnitude

/-- **A finite value is written with the fewest digits that read back.** One of fifteen, sixteen and
seventeen significant digits reads back as the value, and the fewest that do are those that a
quantity writes, before its units. All of their text is a decimal numeral with the sign of the value,
and it says what the value is when it is rounded to so many digits. -/
theorem text_shortest (negative : Bool) (m : Magnitude) (units : Units) (options : Options) :
    let value := Binary64.finite negative m
    let q : Quantity := ⟨value, units, options⟩
    ∃ digits ∈ [15, 16, 17],
      m.ReadsBack digits ∧ (∀ fewer ∈ [15, 16, 17], fewer < digits → ¬ m.ReadsBack fewer) ∧
      q.text = value.written (.general digits) ++ " " ++ q.unitText ∧
      ∃ (k : ℕ) (e : ℤ),
        Numeral.read? (value.written (.general digits)).toList = some (.decimal negative k e, []) ∧
        IsRounding digits (valueOf m.steps) (k * 10 ^ e) := by
  intro value q
  obtain ⟨digits, hdigits, hreads, hfewest, htext⟩ := Binary64.shortText_eq negative m
  have hpositive : 0 < digits := by
    simp only [List.mem_cons, List.not_mem_nil, or_false] at hdigits
    omega
  obtain ⟨k, e, hread, hround, -⟩ := Binary64.exists_read?_written negative m hpositive
  refine ⟨digits, hdigits, hreads, hfewest, ?_, k, e, hread, hround⟩
  rw [text, htext]

end Quantity

end Metrology
