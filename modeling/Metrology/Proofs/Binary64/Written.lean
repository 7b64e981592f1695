import Mathlib
import Metrology.Proofs.Binary64.Digits
import Metrology.Proofs.Binary64.Longest
import Metrology.Proofs.Text

/-!
# Metrology.Proofs.Binary64.Written -- the number that a text of significant digits shows

A number that is written with a count of significant digits is read back as a decimal numeral, and
all of its text is (`exists_read?_written`). The numeral stands for the digits at their place,
whether or not there is a power of ten in the text: the zeros that are left out at the end of a
fraction only move the exponent of the numeral. And that is the number rounded to its significant
digits.
-/

namespace Metrology

/- A power of naturals is the core one, whatever else is imported beside this module. -/
attribute [local instance (high)] instPowNat

namespace Numeral

/-! ## Runs of digits -/

/-- Whether a text has only decimal digits in it. -/
def AllDigits (s : List Char) : Prop := ∀ c ∈ s, c.isDigit = true

variable {s t : List Char}

theorem AllDigits.append (hs : AllDigits s) (ht : AllDigits t) : AllDigits (s ++ t) :=
  List.forall_mem_append.mpr ⟨hs, ht⟩

theorem AllDigits.digitsValue_eq (h : AllDigits s) :
    digitsValue 10 s = Nat.ofDigitChars 10 s 0 :=
  Text.foldl_digitValue h 0

/-- Digits behind others move these up by as many places. -/
theorem digitsValue_append (hs : AllDigits s) (ht : AllDigits t) :
    digitsValue 10 (s ++ t) = digitsValue 10 s * 10 ^ t.length + digitsValue 10 t := by
  rw [(hs.append ht).digitsValue_eq, hs.digitsValue_eq, ht.digitsValue_eq, Nat.ofDigitChars_append,
    Nat.ofDigitChars_eq_ofDigitChars_zero, Nat.mul_comm]

theorem allDigits_replicate_zero (n : ℕ) : AllDigits (List.replicate n '0') := by
  intro c hc
  rw [List.eq_of_mem_replicate hc]
  rfl

theorem digitsValue_replicate_zero (n : ℕ) : digitsValue 10 (List.replicate n '0') = 0 := by
  rw [(allDigits_replicate_zero n).digitsValue_eq, Nat.ofDigitChars_replicate_zero, Nat.mul_zero]

theorem allDigits_toDigits (n : ℕ) : AllDigits (Nat.toDigits 10 n) :=
  fun _ => Text.isDigit_of_mem_toDigits

/-! ## Texts that start with a digit -/

theorem isSpace_eq_false_of_isDigit {c : Char} (h : c.isDigit = true) : isSpace c = false := by
  rw [Bool.eq_false_iff]
  intro hspace
  simp only [isSpace, Char.isDigit, Bool.or_eq_true, Bool.and_eq_true, decide_eq_true_eq] at h hspace
  rcases hspace with rfl | ⟨-, hle⟩
  · exact absurd h.1 (by decide)
  · exact absurd (UInt32.le_trans h.1 hle) (by decide)

/-- Behind a sign, a text that starts with a digit and has no `x` in it is read as a decimal. -/
theorem read?_sign_append (negative : Bool) (hstart : ∃ c t, s = c :: t ∧ c.isDigit = true)
    (hplain : ∀ c ∈ s, c.toLower ≠ 'x') :
    read? ((if negative then ['-'] else []) ++ s) = readDecimal? negative s := by
  obtain ⟨c, t, rfl, hc⟩ := hstart
  have hspace : ¬ isSpace c = true := by rw [isSpace_eq_false_of_isDigit hc]; exact Bool.false_ne_true
  have hsigned : readSign (((if negative then ['-'] else []) ++ c :: t).dropWhile isSpace) =
      (negative, c :: t) := by
    cases negative with
    | true => rfl
    | false =>
      show readSign ((c :: t).dropWhile isSpace) = _
      rw [List.dropWhile_cons_of_neg hspace]
      unfold readSign
      split
      · next heq =>
        cases heq
        cases hc
      · next heq =>
        cases heq
        cases hc
      · rfl
  have hnamed : readNamed? negative (c :: t) = none := by
    cases hread : readNamed? negative (c :: t) with
    | none => rfl
    | some taken =>
      obtain ⟨d, u, heq, hd⟩ := startsWithLetter_of_readNamed? hread
      cases heq
      rw [isDigit_eq_false_of_isAlpha hd] at hc
      cases hc
  have hhex : readHexadecimal? negative (c :: t) = none := by
    cases hread : readWord? ['0', 'x'] (c :: t) with
    | none =>
      rw [readHexadecimal?_eq, hread]
      rfl
    | some rest =>
      obtain ⟨front, heq, hfront⟩ := readWord?_eq_some_iff.mp hread
      have hx : 'x' ∈ front.map Char.toLower := by
        rw [hfront]
        decide
      obtain ⟨d, hd, hlower⟩ := List.mem_map.mp hx
      refine absurd hlower (hplain d ?_)
      rw [heq]
      exact List.mem_append_left _ hd
  rw [read?, hsigned]
  dsimp only
  rw [hnamed, hhex]
  rfl

end Numeral

namespace Binary64.Decimal

open Numeral

/-! ## Digits of a fraction -/

theorem allDigits_padded (width n : ℕ) : AllDigits (padded width n) :=
  (allDigits_replicate_zero _).append (allDigits_toDigits n)

theorem digitsValue_padded (width n : ℕ) : digitsValue 10 (padded width n) = n := by
  rw [padded, digitsValue_append (allDigits_replicate_zero _) (allDigits_toDigits n),
    digitsValue_replicate_zero, Nat.zero_mul, Nat.zero_add, Text.digitsValue_toDigits]

theorem length_padded {width n : ℕ} (hwidth : 0 < width) (h : n < 10 ^ width) :
    (padded width n).length = width := by
  have hle := (Nat.length_toDigits_le_iff (by decide) hwidth).mpr h
  rw [padded, List.length_append, List.length_replicate]
  omega

theorem allDigits_fraction (n places : ℕ) : AllDigits (fraction n places) := by
  unfold fraction
  split_ifs
  · exact fun c hc => absurd hc List.not_mem_nil
  · exact allDigits_padded _ _

theorem length_fraction (n places : ℕ) : (fraction n places).length = places := by
  unfold fraction
  split_ifs with hplaces
  · exact hplaces.symm
  · exact length_padded (Nat.pos_of_ne_zero hplaces) (Nat.mod_lt _ (Nat.pow_pos (by decide)))

theorem digitsValue_fraction (n places : ℕ) :
    digitsValue 10 (fraction n places) = n % 10 ^ places := by
  unfold fraction
  split_ifs with hplaces
  · rw [hplaces, Nat.pow_zero, Nat.mod_one]
    rfl
  · exact digitsValue_padded _ _

/-- The digits before and after the point are those of the number. -/
theorem digitsValue_pointed (n places : ℕ) :
    digitsValue 10 (Nat.toDigits 10 (n / 10 ^ places) ++ fraction n places) = n := by
  rw [digitsValue_append (allDigits_toDigits _) (allDigits_fraction _ _), Text.digitsValue_toDigits,
    digitsValue_fraction, length_fraction, Nat.mul_comm, Nat.div_add_mod]

theorem exists_withoutTrailingZeros_append (digits : List Char) :
    ∃ zeros, digits = withoutTrailingZeros digits ++ List.replicate zeros '0' := by
  refine ⟨(digits.reverse.takeWhile fun c => c = '0').length, ?_⟩
  have hzeros : digits.reverse.takeWhile (fun c => c = '0') =
      List.replicate (digits.reverse.takeWhile fun c => c = '0').length '0' :=
    List.eq_replicate_of_mem fun c hc => by simpa using List.mem_takeWhile_imp hc
  rw [withoutTrailingZeros, ← List.reverse_replicate, ← hzeros, ← List.reverse_append,
    List.takeWhile_append_dropWhile, List.reverse_reverse]

/-- Without the zeros at its end a fraction shows the number in smaller places. -/
theorem exists_kept (n places : ℕ) :
    AllDigits (withoutTrailingZeros (fraction n places)) ∧
      ∃ zeros, (withoutTrailingZeros (fraction n places)).length + zeros = places ∧
        digitsValue 10 (Nat.toDigits 10 (n / 10 ^ places) ++ withoutTrailingZeros (fraction n places)) *
          10 ^ zeros = n := by
  obtain ⟨zeros, hcut⟩ := exists_withoutTrailingZeros_append (fraction n places)
  have hall := allDigits_fraction n places
  have hlength := length_fraction n places
  have hvalue := digitsValue_pointed n places
  generalize withoutTrailingZeros (fraction n places) = kept at hcut ⊢
  rw [hcut] at hall hlength hvalue
  have hkept : AllDigits kept := fun c hc => hall c (List.mem_append_left _ hc)
  refine ⟨hkept, zeros, ?_, ?_⟩
  · rwa [List.length_append, List.length_replicate] at hlength
  · rwa [← List.append_assoc, digitsValue_append ((allDigits_toDigits _).append hkept)
      (allDigits_replicate_zero _), digitsValue_replicate_zero, List.length_replicate, Nat.add_zero]
      at hvalue

/-! ## Texts with a point -/

/-- The digits around a point are read, where neither a digit nor a point follows them. -/
theorem readPointed?_pointed (whole : ℕ) {digits rest : List Char} (hdigits : AllDigits digits)
    (hnone : rest.takeWhile Char.isDigit = []) (hpoint : ∀ t, rest ≠ '.' :: t) :
    readPointed? Char.isDigit (pointed whole digits ++ rest) =
      some ((Nat.toDigits 10 whole, digits), rest) := by
  have hwhole := allDigits_toDigits whole
  have hfilled : (Nat.toDigits 10 whole).isEmpty = false := by simp
  have hrest : rest.dropWhile Char.isDigit = rest := by
    have hcut := List.takeWhile_append_dropWhile (p := Char.isDigit) (l := rest)
    rwa [hnone, List.nil_append] at hcut
  rw [pointed, List.append_assoc]
  cases digits with
  | nil =>
    have htake : (Nat.toDigits 10 whole ++ rest).takeWhile Char.isDigit = Nat.toDigits 10 whole := by
      rw [List.takeWhile_append_of_pos hwhole, hnone, List.append_nil]
    have hdrop : (Nat.toDigits 10 whole ++ rest).dropWhile Char.isDigit = rest := by
      rw [List.dropWhile_append_of_pos hwhole, hrest]
    show readPointed? Char.isDigit (Nat.toDigits 10 whole ++ rest) = _
    rw [readPointed?_of_noPoint (by rwa [hdrop]) (by rwa [htake]), htake, hdrop]
  | cons c digits =>
    have htake : (Nat.toDigits 10 whole ++ '.' :: (c :: digits ++ rest)).takeWhile Char.isDigit =
        Nat.toDigits 10 whole := by
      rw [List.takeWhile_append_of_pos hwhole, List.takeWhile_cons_of_neg (by decide),
        List.append_nil]
    have hdrop : (Nat.toDigits 10 whole ++ '.' :: (c :: digits ++ rest)).dropWhile Char.isDigit =
        '.' :: (c :: digits ++ rest) := by
      rw [List.dropWhile_append_of_pos hwhole, List.dropWhile_cons_of_neg (by decide)]
    show readPointed? Char.isDigit (Nat.toDigits 10 whole ++ '.' :: (c :: digits ++ rest)) = _
    rw [readPointed?_of_point hdrop (.inl (by rwa [htake])), htake,
      List.takeWhile_append_of_pos hdigits, List.dropWhile_append_of_pos hdigits, hnone, hrest,
      List.append_nil]

/-- The number in front of a scale, in places that the scale moves. -/
theorem exists_readDecimal?_pointed (negative : Bool) (n places : ℕ) {rest : List Char} {scale : ℤ}
    (hscale : readScale 'e' rest = (scale, [])) (hnone : rest.takeWhile Char.isDigit = [])
    (hpoint : ∀ t, rest ≠ '.' :: t) :
    ∃ k zeros : ℕ, k * 10 ^ zeros = n ∧ zeros ≤ places ∧
      readDecimal? negative
          (pointed (n / 10 ^ places) (withoutTrailingZeros (fraction n places)) ++ rest) =
        some (.decimal negative k (scale - places + zeros), []) := by
  obtain ⟨hkept, zeros, hlength, hvalue⟩ := exists_kept n places
  have hexponent : scale - (withoutTrailingZeros (fraction n places)).length =
      scale - places + zeros := by
    omega
  refine ⟨_, zeros, hvalue, by omega, ?_⟩
  rw [readDecimal?_eq, readScaled?, readPointed?_pointed _ hkept hnone hpoint, Option.bind_some, hscale,
    ← hexponent]
  rfl

theorem readScale_exponentMark (e : ℤ) : readScale 'e' (exponentMark e) = (e, []) := by
  have hall := allDigits_padded 2 e.natAbs
  have htake : (padded 2 e.natAbs).takeWhile Char.isDigit = padded 2 e.natAbs :=
    List.takeWhile_eq_self_iff.mpr hall
  have hdrop : (padded 2 e.natAbs).dropWhile Char.isDigit = [] :=
    List.dropWhile_eq_nil_iff.mpr hall
  have hfilled : (padded 2 e.natAbs).isEmpty = false := by simp [padded]
  have hmark : 'e'.toLower = 'e' := rfl
  by_cases he : e < 0
  · have hsign : readSign ('-' :: padded 2 e.natAbs) = (true, padded 2 e.natAbs) := rfl
    rw [exponentMark, if_pos he, readScale, hsign]
    simp [hmark, htake, hdrop, hfilled, digitsValue_padded, abs_of_neg he]
  · have hsign : readSign ('+' :: padded 2 e.natAbs) = (false, padded 2 e.natAbs) := rfl
    rw [exponentMark, if_neg he, readScale, hsign]
    simp [hmark, htake, hdrop, hfilled, digitsValue_padded, not_lt.mp he]

/-! ## Texts of significant digits -/

/-- The text of a magnitude shows its significant digits at their place. -/
theorem exists_readDecimal?_magnitudeText (negative : Bool) {digits : ℕ} (hdigits : 0 < digits)
    (steps : ℕ) :
    ∃ (k : ℕ) (e : ℤ),
      readDecimal? negative (magnitudeText (.general digits) steps) =
        some (.decimal negative k e, []) ∧
      (k : ℚ) * 10 ^ e =
        (significant digits steps).1 * 10 ^ ((significant digits steps).2 + 1 - digits) ∧
      (significant digits steps).2 + 1 - digits ≤ e ∧ e ≤ max 0 (significant digits steps).2 := by
  -- Either layout puts the last digit at the same place.
  have hlayout : ∀ {text : List Char} {n places zeros k : ℕ} {scale last exponent : ℤ},
      scale - places = last → k * 10 ^ zeros = n → zeros ≤ places → scale ≤ exponent →
      readDecimal? negative text = some (.decimal negative k (scale - places + zeros), []) →
      ∃ (k : ℕ) (e : ℤ), readDecimal? negative text = some (.decimal negative k e, []) ∧
        (k : ℚ) * 10 ^ e = n * 10 ^ last ∧ last ≤ e ∧ e ≤ exponent := by
    intro text n places zeros k scale last exponent hlast hk hzeros hscale hread
    refine ⟨k, _, hread, ?_, by omega, by omega⟩
    rw [hlast, ← hk, zpow_add₀ (by norm_num), zpow_natCast]
    push_cast
    ring
  unfold magnitudeText
  dsimp only
  split_ifs with hplain
  · obtain ⟨k, zeros, hk, hzeros, hread⟩ := exists_readDecimal?_pointed negative
      (significant digits steps).1 (digits - 1 - (significant digits steps).2).toNat
      (show readScale 'e' [] = (0, []) from rfl) rfl (by simp)
    rw [List.append_nil] at hread
    exact hlayout (by omega) hk hzeros (le_max_left _ _) hread
  · obtain ⟨k, zeros, hk, hzeros, hread⟩ := exists_readDecimal?_pointed negative
      (significant digits steps).1 (digits - 1)
      (readScale_exponentMark (significant digits steps).2) rfl (by simp [exponentMark])
    exact hlayout (by omega) hk hzeros (le_max_right _ _) hread

/-- A text of significant digits starts with a digit, and what else is in it are digits, a point, and
the mark and the sign of a power of ten. -/
theorem forall_mem_magnitudeText {P : Char → Prop} (hdigit : ∀ c, c.isDigit = true → P c)
    (hothers : ∀ c ∈ ['.', 'e', '+', '-'], P c) (digits steps : ℕ) :
    (∃ c t, magnitudeText (.general digits) steps = c :: t ∧ c.isDigit = true) ∧
      ∀ c ∈ magnitudeText (.general digits) steps, P c := by
  have hpointed : ∀ (n places : ℕ) {rest : List Char}, (∀ c ∈ rest, P c) →
      (∃ c t, pointed (n / 10 ^ places) (withoutTrailingZeros (fraction n places)) ++ rest = c :: t ∧
        c.isDigit = true) ∧
      ∀ c ∈ pointed (n / 10 ^ places) (withoutTrailingZeros (fraction n places)) ++ rest, P c := by
    intro n places rest hrest
    obtain ⟨hkept, -⟩ := exists_kept n places
    have hwhole := allDigits_toDigits (n / 10 ^ places)
    obtain ⟨d, ds, hds⟩ := List.exists_cons_of_ne_nil
      (Nat.toDigits_ne_nil (n := n / 10 ^ places) (b := 10))
    rw [hds, AllDigits, List.forall_mem_cons] at hwhole
    rw [pointed, hds]
    refine ⟨⟨d, _, by rw [List.cons_append, List.cons_append], hwhole.1⟩, ?_⟩
    rw [List.forall_mem_append, List.forall_mem_append, List.forall_mem_cons]
    refine ⟨⟨⟨hdigit d hwhole.1, fun c hc => hdigit c (hwhole.2 c hc)⟩, ?_⟩, hrest⟩
    split_ifs
    · exact fun c hc => absurd hc List.not_mem_nil
    · rw [List.forall_mem_cons]
      exact ⟨hothers '.' (by decide), fun c hc => hdigit c (hkept c hc)⟩
  have hmark : ∀ e, ∀ c ∈ exponentMark e, P c := by
    intro e
    rw [exponentMark, List.forall_mem_cons, List.forall_mem_cons]
    refine ⟨hothers 'e' (by decide), ?_, fun c hc => hdigit c (allDigits_padded 2 _ c hc)⟩
    split_ifs
    · exact hothers '-' (by decide)
    · exact hothers '+' (by decide)
  unfold magnitudeText
  dsimp only
  split_ifs
  · have hnil : ∀ c ∈ ([] : List Char), P c := fun c hc => absurd hc List.not_mem_nil
    have h := hpointed (significant digits steps).1 (digits - 1 - (significant digits steps).2).toNat
      hnil
    rwa [List.append_nil] at h
  · exact hpointed _ _ (hmark _)

end Binary64.Decimal

namespace Binary64

open Decimal Magnitude Numeral

/-- **A text of significant digits shows the rounded number.** All of it is read, as a decimal numeral
with the sign of the number and the value that rounding to the digits gives. -/
theorem exists_read?_written (negative : Bool) (m : Magnitude) {digits : ℕ} (hdigits : 0 < digits) :
    ∃ (k : ℕ) (e : ℤ),
      read? ((Binary64.finite negative m).written (.general digits)).toList =
        some (.decimal negative k e, []) ∧
      IsRounding digits (valueOf m.steps) (k * 10 ^ e) ∧ -(digits + 323) ≤ e ∧ e ≤ 309 := by
  have hletter : ∀ {c : Char}, c.isDigit = true → c.toLower ≠ 'x' := by
    intro c hc hx
    have halpha : c.isAlpha = true := by rw [← Char.isAlpha_toLower_eq_isAlpha, hx]; rfl
    rw [isDigit_eq_false_of_isAlpha halpha] at hc
    cases hc
  have hothers : ∀ c ∈ ['.', 'e', '+', '-'], c.toLower ≠ 'x' := by simp
  obtain ⟨hstart, hplain⟩ := forall_mem_magnitudeText (fun c => hletter) hothers digits m.steps
  obtain ⟨k, e, hread, hvalue, hlow, hhigh⟩ :=
    exists_readDecimal?_magnitudeText negative hdigits m.steps
  have hbounds := significant_bounds digits m.representable.1
  have hround := isRounding_significant hdigits m.steps
  rw [← hvalue] at hround
  generalize (significant digits m.steps).2 = exponent at hlow hhigh hbounds
  refine ⟨k, e, ?_, hround, by omega, by omega⟩
  rw [written, String.toList_ofList, read?_sign_append negative hstart hplain, hread]

end Binary64

end Metrology
