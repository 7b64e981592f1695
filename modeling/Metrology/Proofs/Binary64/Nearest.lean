import Mathlib
import Metrology.Proofs.Binary64.Whole
import Metrology.Proofs.Rounding

/-!
# Metrology.Proofs.Binary64.Nearest -- the nearest number with 53 bits

Rounding goes to the nearest count of steps that 53 bits can hold, and in a tie to the one whose
last bit is zero. That is said of a rational count of steps, with no bound on the result
(`IsNearest`). There is at most one such count (`IsNearest.unique`), and `nearest` gives it
(`nearest_eq_iff`); so a number is rounded to infinity where its count is beyond the format.

Two counts that 53 bits can hold are at least `2⁻⁵³` of either apart (`le_mul_sub`). So whatever is
nearer to such a count than half of that rounds to it (`isNearest_of_near`).
-/

namespace Metrology

/- A power of naturals is the core one, whatever else is imported beside this module. -/
attribute [local instance (high)] instPowNat

namespace Magnitude

/-! ## Gaps -/

/-- Whether 53 bits can hold a count of steps, which may be beyond the format. -/
def Precise (n : ℕ) : Prop := gap n ∣ n

/-- Whether the last of the 53 bits is zero. -/
def EndsEven (n : ℕ) : Prop := 2 * gap n ∣ n

variable {j k n q : ℕ}

theorem gap_pos (n : ℕ) : 0 < gap n := Nat.pow_pos (by decide)

theorem gap_dvd_gap (h : j ≤ k) : gap j ∣ gap k := by
  have hlog : j.log2 ≤ k.log2 := by
    rw [Nat.log2_eq_log_two, Nat.log2_eq_log_two]
    exact Nat.log_mono_right h
  exact Nat.pow_dvd_pow 2 (by omega)

theorem gap_dvd_two_pow (h : n < 2 ^ (precision + k)) : gap n ∣ 2 ^ k := by
  by_cases hn : n = 0
  · subst hn
    exact Nat.one_dvd _
  · have hlog : n.log2 < precision + k := (Nat.log2_lt hn).mpr h
    exact Nat.pow_dvd_pow 2 (by omega)

theorem gap_two_pow (k : ℕ) : gap (2 ^ k) = 2 ^ (k + 1 - precision) := by
  rw [gap, Nat.log2_two_pow]

theorem lt_mul_gap (n : ℕ) : n < 2 ^ precision * gap n := by
  rw [← Nat.div_lt_iff_lt_mul (gap_pos n)]
  exact div_gap_lt n

/-- A gap of more than one stands 52 places behind the leading one. -/
theorem gap_eq_one_or (n : ℕ) : gap n = 1 ∨ 2 ^ 52 * gap n ≤ n := by
  have hbits : precision = 53 := rfl
  by_cases hlog : n.log2 + 1 ≤ precision
  · left
    rw [gap, Nat.sub_eq_zero_of_le hlog, Nat.pow_zero]
  · right
    have hn : n ≠ 0 := by
      rintro rfl
      exact hlog (by decide)
    rw [gap, ← Nat.pow_add, show 52 + (n.log2 + 1 - precision) = n.log2 by omega]
    exact Nat.log2_self_le hn

/-- What is above 53 bits is a multiple of the gap there. -/
theorem dvd_of_le (hj : Precise j) (h : gap q = 1 ∨ 2 ^ 52 * gap q ≤ j) : gap q ∣ j := by
  rcases h with h | h
  · rw [h]
    exact Nat.one_dvd _
  · have hgap : gap (2 ^ 52 * gap q) = gap q := by
      have hbits : precision = 53 := rfl
      have hpow : 2 ^ 52 * gap q = 2 ^ (52 + (q.log2 + 1 - precision)) := by
        rw [gap, ← Nat.pow_add]
      have hplaces : 52 + (q.log2 + 1 - precision) + 1 - precision = q.log2 + 1 - precision := by
        omega
      rw [hpow, gap_two_pow, hplaces, gap]
    have hdvd := gap_dvd_gap h
    rw [hgap] at hdvd
    exact hdvd.trans hj

/-- A count is followed by the one a gap above it. Between the two stands no other. -/
theorem le_or_le_of_precise (hj : Precise j) (q : ℕ) :
    j ≤ q / gap q * gap q ∨ (q / gap q + 1) * gap q ≤ j := by
  have hpos := gap_pos q
  by_cases hjq : j ≤ q
  · by_cases hlow : j ≤ q / gap q * gap q
    · exact .inl hlow
    · have hhigh : gap q = 1 ∨ 2 ^ 52 * gap q ≤ j := by
        refine (gap_eq_one_or q).imp_right fun h => ?_
        have hquotient : 2 ^ 52 ≤ q / gap q := (Nat.le_div_iff_mul_le hpos).mpr h
        exact (Nat.mul_le_mul_right _ hquotient).trans (Nat.le_of_not_le hlow)
      obtain ⟨c, rfl⟩ := dvd_of_le hj hhigh
      have hc : c ≤ q / gap q := (Nat.le_div_iff_mul_le hpos).mpr (by rwa [Nat.mul_comm])
      rw [Nat.mul_comm]
      exact .inl (Nat.mul_le_mul_right _ hc)
  · obtain ⟨c, hc⟩ := (gap_dvd_gap (Nat.le_of_not_le hjq)).trans hj
    have hlt : q / gap q < c := by
      rw [Nat.div_lt_iff_lt_mul hpos, Nat.mul_comm, ← hc]
      exact Nat.lt_of_not_le hjq
    right
    rw [hc, Nat.mul_comm (gap q)]
    exact Nat.mul_le_mul_right _ hlt

theorem precise_add_gap (hk : Precise k) : Precise (k + gap k) := by
  obtain ⟨c, hc⟩ := hk
  have hlt : c < 2 ^ precision := by
    rw [← Nat.mul_lt_mul_left (gap_pos k), ← hc, Nat.mul_comm]
    exact lt_mul_gap k
  have hnext : k + gap k = (c + 1) * gap k := by rw [Nat.succ_mul, Nat.mul_comm c, ← hc]
  rw [hnext]
  exact gap_dvd_mul_pow hlt

/-- Two counts that 53 bits can hold are at least `2⁻⁵³` of the larger apart. -/
theorem le_mul_sub (hj : Precise j) (hk : Precise k) (h : j < k) :
    k ≤ 2 ^ precision * (k - j) := by
  have hapart : gap j ≤ k - j :=
    Nat.le_of_dvd (by omega) (Nat.dvd_sub ((gap_dvd_gap h.le).trans hk) hj)
  obtain ⟨c, hc⟩ := hj
  have hlt : c + 1 ≤ 2 ^ precision := by
    rw [Nat.succ_le_iff, ← Nat.mul_lt_mul_left (gap_pos j), ← hc, Nat.mul_comm]
    exact lt_mul_gap j
  have hfollow : j + gap j ≤ 2 ^ precision * gap j := by
    calc j + gap j = (c + 1) * gap j := by rw [Nat.succ_mul, Nat.mul_comm c, ← hc]
      _ ≤ 2 ^ precision * gap j := Nat.mul_le_mul_right _ hlt
  rw [precision] at hfollow ⊢
  omega

/-- An even count of at most 53 bits, shifted, has a zero as its last bit. -/
theorem endsEven_mul_pow {t e : ℕ} (ht : t ≤ 2 ^ precision) (heven : Even t) :
    EndsEven (t * 2 ^ e) := by
  unfold EndsEven
  by_cases htop : t = 2 ^ precision
  · rw [htop, ← Nat.pow_add, gap_two_pow, ← Nat.pow_succ']
    exact Nat.pow_dvd_pow 2 (by rw [precision]; omega)
  · have hlt : t * 2 ^ e < 2 ^ (precision + e) := by
      rw [Nat.pow_add]
      exact Nat.mul_lt_mul_of_pos_right (Nat.lt_of_le_of_ne ht htop) (Nat.pow_pos (by decide))
    exact Nat.mul_dvd_mul heven.two_dvd (gap_dvd_two_pow hlt)

/-! ## The nearest count -/

/-- Whether `k` is the count of steps nearest to `r` among all that 53 bits can hold, however large,
the one with a zero as its last bit in a tie. -/
structure IsNearest (r : ℚ) (k : ℕ) : Prop where
  precise : Precise k
  closest : ∀ j, Precise j → |(k : ℚ) - r| ≤ |(j : ℚ) - r|
  endsEven : ∀ j, Precise j → j ≠ k → |(k : ℚ) - r| = |(j : ℚ) - r| → EndsEven k

theorem IsNearest.le {r : ℚ} (h : IsNearest r j) (h' : IsNearest r k) : k ≤ j := by
  by_contra hlt
  rw [Nat.not_le] at hlt
  have heq : |(j : ℚ) - r| = |(k : ℚ) - r| :=
    le_antisymm (h.closest k h'.precise) (h'.closest j h.precise)
  have hj : EndsEven j := h.endsEven k h'.precise hlt.ne' heq
  have hk : EndsEven k := h'.endsEven j h.precise hlt.ne heq.symm
  have hpos := gap_pos j
  by_cases hnext : j + gap j < k
  · -- The next count is nearer to the middle than its two ends.
    have hclose := h.closest _ (precise_add_gap h.precise)
    have hjk : (j : ℚ) + gap j < k := by exact_mod_cast hnext
    have hgap : (0 : ℚ) < gap j := by exact_mod_cast hpos
    rcases abs_eq_abs.mp heq with hsame | hmiddle
    · linarith
    · have hinside : |((j + gap j : ℕ) : ℚ) - r| < |(j : ℚ) - r| := by
        rw [abs_of_neg (a := (j : ℚ) - r) (by linarith), abs_lt, Nat.cast_add]
        constructor <;> linarith
      linarith
  · -- Neighbours do not both end in a zero.
    have hdvd : 2 * gap j ∣ k - j :=
      Nat.dvd_sub ((Nat.mul_dvd_mul_left 2 (gap_dvd_gap hlt.le)).trans hk) hj
    have hfar := Nat.le_of_dvd (by omega) hdvd
    omega

theorem IsNearest.unique {r : ℚ} (h : IsNearest r j) (h' : IsNearest r k) : j = k :=
  Nat.le_antisymm (h'.le h) (h.le h')

/-- Rounding in units of a gap. The whole numbers next to the quotient in these units are those that
the other counts are compared with. -/
theorem isNearest_mul_gap {t : ℕ} {x : ℚ} (hx : 0 ≤ x) (hfloor : ⌊x⌋₊ = q / gap q)
    (ht : IsHalfEven x t) (hbits : t ≤ 2 ^ precision) : IsNearest (x * gap q) (t * gap q : ℕ) := by
  have hgap : (0 : ℚ) < gap q := by exact_mod_cast gap_pos q
  have hlow : (⌊x⌋₊ : ℚ) ≤ x := Nat.floor_le hx
  have hhigh : x < ⌊x⌋₊ + 1 := Nat.lt_floor_add_one x
  have hdist : ∀ i : ℕ, |((i * gap q : ℕ) : ℚ) - x * gap q| = |(i : ℚ) - x| * gap q := by
    intro i
    rw [Nat.cast_mul, ← sub_mul, abs_mul, abs_of_pos hgap]
  have hnext : ∀ j, Precise j → ∃ i : ℕ, (j ≠ i * gap q →
      |(i : ℚ) - x| * gap q < |(j : ℚ) - x * gap q|) := by
    intro j hj
    rcases le_or_le_of_precise hj q with h | h
    · refine ⟨⌊x⌋₊, fun hne => ?_⟩
      rw [← hfloor] at h
      have hlt : (j : ℚ) < ⌊x⌋₊ * gap q := by exact_mod_cast Nat.lt_of_le_of_ne h hne
      rw [abs_of_nonpos (by linarith), abs_of_neg (by nlinarith)]
      linarith
    · refine ⟨⌊x⌋₊ + 1, fun hne => ?_⟩
      rw [← hfloor] at h
      have hlt : ((⌊x⌋₊ : ℚ) + 1) * gap q < j := by
        exact_mod_cast Nat.lt_of_le_of_ne h (Ne.symm hne)
      rw [Nat.cast_add, Nat.cast_one, abs_of_pos (by linarith), abs_of_pos (by nlinarith)]
      linarith
  have hbest : ∀ i : ℕ, |(t : ℚ) - x| * gap q ≤ |(i : ℚ) - x| * gap q :=
    fun i => mul_le_mul_of_nonneg_right (ht.closest i) hgap.le
  refine ⟨gap_dvd_mul_pow hbits, fun j hj => ?_, fun j hj hne heq => ?_⟩
  · obtain ⟨i, hi⟩ := hnext j hj
    rw [hdist]
    by_cases hji : j = i * gap q
    · rw [hji, hdist]
      exact hbest i
    · exact (hbest i).trans (hi hji).le
  · obtain ⟨i, hi⟩ := hnext j hj
    rw [hdist] at heq
    by_cases hji : j = i * gap q
    · -- A tie between two counts is one between whole numbers of gaps.
      rw [hji, hdist] at heq
      have hit : i ≠ t := by
        rintro rfl
        exact hne hji
      exact endsEven_mul_pow hbits (ht.even_of_abs_eq hit (mul_right_cancel₀ hgap.ne' heq))
    · exact absurd heq ((hbest i).trans_lt (hi hji)).ne

theorem isNearest_nearest (n : ℕ) {d : ℕ} (hd : 0 < d) :
    IsNearest ((n : ℚ) / d) (nearest n d) := by
  have hgap := gap_pos (n / d)
  have hscale : (n : ℚ) / d = (n : ℚ) / (d * gap (n / d) : ℕ) * gap (n / d) := by
    have hne : (gap (n / d) : ℚ) ≠ 0 := by exact_mod_cast hgap.ne'
    rw [Nat.cast_mul, ← div_div, div_mul_cancel₀ _ hne]
  have hbits : roundDiv n (d * gap (n / d)) ≤ 2 ^ precision := by
    have hup := roundDiv_le_succ n (d * gap (n / d))
    rw [← Nat.div_div_eq_div_mul] at hup
    have hlt := div_gap_lt (n / d)
    omega
  rw [hscale, nearest]
  refine isNearest_mul_gap (div_nonneg (Nat.cast_nonneg _) (Nat.cast_nonneg _)) ?_
    (isHalfEven_roundDiv n (Nat.mul_pos hd hgap)) hbits
  rw [Nat.floor_div_eq_div, Nat.div_div_eq_div_mul]

theorem nearest_eq_iff {d : ℕ} (hd : 0 < d) : nearest n d = k ↔ IsNearest ((n : ℚ) / d) k := by
  constructor
  · rintro rfl
    exact isNearest_nearest n hd
  · exact (isNearest_nearest n hd).unique

/-! ## What rounds to a count -/

/-- A count that 53 bits can hold is kept. -/
theorem isNearest_natCast (hk : Precise k) : IsNearest k k := by
  have hself : |(k : ℚ) - k| = 0 := by rw [sub_self, abs_zero]
  refine ⟨hk, fun j _ => ?_, fun j _ hne heq => ?_⟩
  · rw [hself]
    exact abs_nonneg _
  · rw [hself, eq_comm, abs_eq_zero, sub_eq_zero] at heq
    exact absurd (by exact_mod_cast heq) hne

theorem isNearest_of_near {r : ℚ} (hk : Precise k)
    (h : (2 : ℚ) ^ (precision + 1) * |(k : ℚ) - r| < k) : IsNearest r k := by
  have hcloser : ∀ j, Precise j → j ≠ k → |(k : ℚ) - r| < |(j : ℚ) - r| := by
    intro j hj hne
    have hfar : (k : ℚ) ≤ 2 ^ precision * |(j : ℚ) - k| := by
      rcases Nat.lt_or_gt_of_ne hne with hlt | hlt
      · have hle : (j : ℚ) < k := by exact_mod_cast hlt
        rw [abs_of_neg (by linarith), neg_sub, ← Nat.cast_sub hlt.le]
        exact_mod_cast le_mul_sub hj hk hlt
      · have hle : (k : ℚ) < j := by exact_mod_cast hlt
        rw [abs_of_pos (by linarith), ← Nat.cast_sub hlt.le]
        exact_mod_cast hlt.le.trans (le_mul_sub hk hj hlt)
    have htriangle : |(j : ℚ) - k| ≤ |(j : ℚ) - r| + |(k : ℚ) - r| := by
      rw [abs_sub_comm (k : ℚ) r]
      exact abs_sub_le _ _ _
    rw [pow_succ] at h
    have hpow : (0 : ℚ) < 2 ^ precision := by positivity
    nlinarith
  refine ⟨hk, fun j hj => ?_, fun j hj hne heq => absurd heq (hcloser j hj hne).ne⟩
  by_cases hne : j = k
  · rw [hne]
  · exact (hcloser j hj hne).le

end Magnitude

end Metrology
