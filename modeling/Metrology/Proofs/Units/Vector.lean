import Mathlib
import Metrology.Proofs.Binary64.Whole
import Metrology.Proofs.Units.Normal

/-!
# Metrology.Proofs.Units.Vector -- exponent vectors of units with whole exponents

When exponents are whole numbers and sums of them stay within `2⁵³`, those on the way included
(`SumsWithin`), binary64 arithmetic on them is exact, and units can be read as vectors of whole
numbers, one coordinate for each dimension.

`units.Carries d z` says that the coordinate of `d` is `z`: every term of the dimension `d` holds
`z`, and `z` is zero when there is no such term. It is one coordinate at a time, so what the marker
goes through on the way does not concern the base dimensions. There is one lemma for each operation:
`carries_collect` (a sum over all terms), `carries_combine` (a sum with a sign), `Carries.scale` (a
product), and `Carries.tidy`, which keeps the coordinates of the base dimensions because what it
drops is zero.
-/

namespace Metrology

namespace Units

open Binary64

/-! ## Whole exponents -/

/-- The sum of the exponents of a dimension, as a whole number. -/
def order (units : Units) (d : Dimension) : Int :=
  (units.map fun t => if t.dimension = d then t.exponent.toInt else 0).sum

/-- The sum of the sizes of the exponents of a dimension. -/
def load (units : Units) (d : Dimension) : Nat :=
  (units.map fun t => if t.dimension = d then t.exponent.toInt.natAbs else 0).sum

/-- The sums of the exponents of a dimension, as they are formed from the first term on, stay in the
range where whole numbers are exact. -/
def SumsWithin (units : Units) (d : Dimension) : Prop :=
  ∀ front, front <+: units → (order front d).natAbs ≤ 2 ^ 53

theorem order_cons (t : Term) (units : Units) (d : Dimension) :
    order (t :: units) d = (if t.dimension = d then t.exponent.toInt else 0) + order units d := by
  simp [order]

theorem load_cons (t : Term) (units : Units) (d : Dimension) :
    load (t :: units) d =
      (if t.dimension = d then t.exponent.toInt.natAbs else 0) + load units d := by
  simp [load]

theorem order_concat (units : Units) (t : Term) (d : Dimension) :
    order (units ++ [t]) d = order units d + if t.dimension = d then t.exponent.toInt else 0 := by
  simp [order]

theorem load_append (a b : Units) (d : Dimension) : load (a ++ b) d = load a d + load b d := by
  simp [load]

/-- The sizes of all exponents bound every sum on the way. -/
theorem natAbs_order_le_load {front units : Units} (h : front <+: units) (d : Dimension) :
    (front.order d).natAbs ≤ units.load d := by
  induction front generalizing units with
  | nil => exact Nat.zero_le _
  | cons t ts ih =>
    obtain ⟨rest, rfl, hrest⟩ := List.cons_prefix_iff.mp h
    have hts := ih hrest
    rw [order_cons, load_cons]
    split <;> omega

theorem sumsWithin_of_load {units : Units} {d : Dimension} (h : units.load d ≤ 2 ^ 53) :
    units.SumsWithin d :=
  fun _ hfront => Nat.le_trans (natAbs_order_le_load hfront d) h

theorem load_le_mul_length {units : Units} {k : Nat}
    (h : ∀ t ∈ units, t.exponent.toInt.natAbs ≤ k) (d : Dimension) :
    units.load d ≤ k * units.length := by
  induction units with
  | nil => exact Nat.zero_le _
  | cons t ts ih =>
    have ht := h t List.mem_cons_self
    have hts := ih fun u hu => h u (List.mem_cons_of_mem _ hu)
    rw [load_cons, List.length_cons, Nat.mul_succ]
    split <;> omega

/-! ## One coordinate of a unit -/

/-- The exponent that a dimension stands with, zero when it does not stand there. -/
structure Carries (units : Units) (d : Dimension) (z : Int) : Prop where
  holds : ∀ t ∈ units, t.dimension = d → t.exponent.Holds z
  absent : d ∉ units.map Term.dimension → z = 0

theorem carries_nil (d : Dimension) : Carries [] d 0 :=
  ⟨fun _ ht => absurd ht List.not_mem_nil, fun _ => rfl⟩

/-! ## Gathering -/

/-- A term of the units with one more absorbed was there before, took up the exponent of the new
one, or is the new one. -/
theorem mem_absorb {units : Units} (hnodup : (units.map Term.dimension).Nodup) {s t : Term}
    (h : s ∈ absorb units t) :
    (s ∈ units ∧ s.dimension ≠ t.dimension) ∨
      (∃ u ∈ units, u.dimension = t.dimension ∧
        s = { u with exponent := u.exponent + t.exponent }) ∨
      (s = t ∧ t.dimension ∉ units.map Term.dimension) := by
  induction units with
  | nil =>
    rw [absorb, List.mem_singleton] at h
    exact .inr (.inr ⟨h, List.not_mem_nil⟩)
  | cons u us ih =>
    rw [List.map_cons, List.nodup_cons] at hnodup
    by_cases hd : u.dimension = t.dimension
    · rw [absorb, if_pos hd] at h
      rcases List.mem_cons.mp h with rfl | hs
      · exact .inr (.inl ⟨u, List.mem_cons_self, hd, rfl⟩)
      · -- The dimension has its one term already, so a later one is of another dimension.
        refine .inl ⟨List.mem_cons_of_mem _ hs, fun hst => hnodup.1 ?_⟩
        rw [hd, ← hst]
        exact List.mem_map_of_mem hs
    · rw [absorb, if_neg hd] at h
      rcases List.mem_cons.mp h with rfl | hs
      · exact .inl ⟨List.mem_cons_self, hd⟩
      · rcases ih hnodup.2 hs with ⟨hmem, hne⟩ | ⟨v, hv, hvd, rfl⟩ | ⟨rfl, hfresh⟩
        · exact .inl ⟨List.mem_cons_of_mem _ hmem, hne⟩
        · exact .inr (.inl ⟨v, List.mem_cons_of_mem _ hv, hvd, rfl⟩)
        · refine .inr (.inr ⟨rfl, ?_⟩)
          rw [List.map_cons, List.mem_cons, not_or]
          exact ⟨fun e => hd e.symm, hfresh⟩

theorem notMem_map_dimension_absorb {units : Units} {t : Term} {d : Dimension}
    (h : d ∉ (absorb units t).map Term.dimension) :
    d ∉ units.map Term.dimension ∧ d ≠ t.dimension := by
  rw [map_dimension_absorb] at h
  split at h
  · next hmem => exact ⟨h, fun e => h (e ▸ hmem)⟩
  · rw [List.mem_append, not_or, List.mem_singleton] at h
    exact h

/-- Absorbing a term of another dimension leaves the coordinate as it is. -/
theorem Carries.absorb_of_ne {units : Units} (hnodup : (units.map Term.dimension).Nodup)
    {d : Dimension} {z : Int} (h : units.Carries d z) {t : Term} (ht : t.dimension ≠ d) :
    (absorb units t).Carries d z where
  holds := by
    intro s hs hsd
    rcases mem_absorb hnodup hs with ⟨hmem, _⟩ | ⟨u, _, hud, rfl⟩ | ⟨rfl, _⟩
    · exact h.holds s hmem hsd
    · exact absurd (hud.symm.trans hsd) ht
    · exact absurd hsd ht
  absent := fun hd => h.absent (notMem_map_dimension_absorb hd).1

/-- Absorbing a term of the dimension itself adds to the coordinate. -/
theorem Carries.absorb_of_eq {units : Units} (hnodup : (units.map Term.dimension).Nodup)
    {t : Term} {y z : Int} (h : units.Carries t.dimension z) (ht : t.exponent.Holds y)
    (hsmall : (z + y).natAbs ≤ 2 ^ 53) : (absorb units t).Carries t.dimension (z + y) where
  holds := by
    intro s hs hsd
    rcases mem_absorb hnodup hs with ⟨_, hne⟩ | ⟨u, hu, hud, rfl⟩ | ⟨rfl, hfresh⟩
    · exact absurd hsd hne
    · exact (h.holds u hu hud).add ht hsmall
    · -- The first term of its dimension: the coordinate was zero until now.
      rw [h.absent hfresh, Int.zero_add]
      exact ht
  absent := fun hd => absurd rfl (notMem_map_dimension_absorb hd).2

/-- Gathering adds up a dimension. The induction is on the terms still to be absorbed; the bound on
every sum from what is gathered so far carries it. -/
theorem carries_foldl_absorb {d : Dimension} (units : Units) :
    ∀ (gathered : Units) (z : Int), (gathered.map Term.dimension).Nodup → gathered.Carries d z →
      (∀ t ∈ units, t.dimension = d → t.exponent.IsWhole) →
      (∀ front, front <+: units → (z + order front d).natAbs ≤ 2 ^ 53) →
        (units.foldl absorb gathered).Carries d (z + units.order d) := by
  induction units with
  | nil =>
    intro gathered z _ h _ _
    simpa [order] using h
  | cons t ts ih =>
    intro gathered z hnodup h hwhole hsums
    have hrest : ∀ u ∈ ts, u.dimension = d → u.exponent.IsWhole :=
      fun u hu => hwhole u (List.mem_cons_of_mem _ hu)
    -- A sum over a front of the rest is one over a front of all, the new term first.
    have hfront : ∀ front, front <+: ts →
        (z + (if t.dimension = d then t.exponent.toInt else 0) + order front d).natAbs ≤
          2 ^ 53 := by
      intro front hfront
      rw [Int.add_assoc, ← order_cons]
      exact hsums (t :: front) (List.cons_prefix_cons.mpr ⟨rfl, hfront⟩)
    rw [List.foldl_cons, order_cons, ← Int.add_assoc]
    by_cases ht : t.dimension = d
    · subst ht
      rw [if_pos rfl] at hfront ⊢
      have hstep : (z + t.exponent.toInt).natAbs ≤ 2 ^ 53 := by
        simpa [order] using hfront [] List.nil_prefix
      exact ih _ _ (nodup_absorb hnodup t)
        (h.absorb_of_eq hnodup (hwhole t List.mem_cons_self rfl) hstep) hrest hfront
    · rw [if_neg ht] at hfront ⊢
      rw [Int.add_zero] at hfront ⊢
      exact ih _ _ (nodup_absorb hnodup t) (h.absorb_of_ne hnodup ht) hrest hfront

theorem carries_collect {units : Units} {d : Dimension}
    (hwhole : ∀ t ∈ units, t.dimension = d → t.exponent.IsWhole)
    (hsums : units.SumsWithin d) : (collect units).Carries d (units.order d) := by
  have h := carries_foldl_absorb units [] 0 List.nodup_nil (carries_nil d) hwhole
    (by simpa only [Int.zero_add, SumsWithin] using hsums)
  rwa [Int.zero_add] at h

/-! ## Looking up -/

theorem mentions_iff {units : Units} {d : Dimension} :
    mentions units d = true ↔ d ∈ units.map Term.dimension := by
  simp [mentions]

theorem not_mentions_iff {units : Units} {d : Dimension} :
    (!mentions units d) = true ↔ d ∉ units.map Term.dimension := by
  rw [Bool.not_eq_true', ← Bool.not_eq_true, mentions_iff]

theorem foldl_exponent_of_notMem {d : Dimension} {units : Units}
    (h : d ∉ units.map Term.dimension) (x : Binary64) :
    units.foldl (fun total t => if t.dimension = d then total + t.exponent else total) x = x := by
  induction units with
  | nil => rfl
  | cons t ts ih =>
    rw [List.map_cons, List.mem_cons, not_or] at h
    rw [List.foldl_cons, if_neg (fun e => h.1 e.symm), ih h.2]

theorem exponentOf_of_notMem {d : Dimension} {units : Units}
    (h : d ∉ units.map Term.dimension) : units.exponentOf d = 0 :=
  foldl_exponent_of_notMem h 0

/-- Where no dimension stands twice, the sum of the exponents of one has a single summand. -/
theorem exponentOf_of_mem {units : Units} (hnodup : (units.map Term.dimension).Nodup) {t : Term}
    (ht : t ∈ units) : units.exponentOf t.dimension = 0 + t.exponent := by
  unfold exponentOf
  generalize (0 : Binary64) = x
  induction units with
  | nil => exact absurd ht List.not_mem_nil
  | cons u us ih =>
    rw [List.map_cons, List.nodup_cons] at hnodup
    rw [List.foldl_cons]
    rcases List.mem_cons.mp ht with rfl | ht
    · rw [if_pos rfl, foldl_exponent_of_notMem hnodup.1]
    · have hne : u.dimension ≠ t.dimension :=
        fun e => hnodup.1 (e ▸ List.mem_map_of_mem ht)
      rw [if_neg hne, ih hnodup.2 ht]

theorem Carries.exponentOf_eq {units : Units} (hnodup : (units.map Term.dimension).Nodup)
    {d : Dimension} {z : Int} (h : units.Carries d z) : units.exponentOf d = ofInt z := by
  by_cases hd : d ∈ units.map Term.dimension
  · obtain ⟨t, ht, rfl⟩ := List.mem_map.mp hd
    rw [exponentOf_of_mem hnodup ht, (h.holds t ht rfl).zero_add]
  · rw [exponentOf_of_notMem hd, h.absent hd]
    rfl

theorem Carries.representable {units : Units} {d : Dimension} {z : Int}
    (h : units.Carries d z) : Magnitude.Representable (z.natAbs * Magnitude.stepsPerUnit) := by
  by_cases hd : d ∈ units.map Term.dimension
  · obtain ⟨t, ht, htd⟩ := List.mem_map.mp hd
    exact (h.holds t ht htd).representable
  · rw [h.absent hd]
    exact holds_zero.representable

theorem Carries.holds_exponentOf {units : Units} (hnodup : (units.map Term.dimension).Nodup)
    {d : Dimension} {z : Int} (h : units.Carries d z) : (units.exponentOf d).Holds z := by
  rw [h.exponentOf_eq hnodup]
  exact holds_ofInt_of_representable h.representable

/-- Conversely, a whole sum of exponents comes from a whole exponent. -/
theorem carries_of_exponentOf {units : Units} (hnodup : (units.map Term.dimension).Nodup)
    {d : Dimension} {z : Int} (hsmall : z.natAbs ≤ 2 ^ 53) (h : units.exponentOf d = ofInt z) :
    units.Carries d z where
  holds := by
    rintro t ht rfl
    rw [exponentOf_of_mem hnodup ht] at h
    apply holds_of_zero_add
    rw [h]
    exact holds_ofInt hsmall
  absent := by
    intro hd
    rw [exponentOf_of_notMem hd] at h
    have hzero : (0 : Binary64).Holds z := by
      rw [h]
      exact holds_ofInt hsmall
    exact hzero.unique holds_zero

theorem order_of_notMem {d : Dimension} {units : Units} (h : d ∉ units.map Term.dimension) :
    units.order d = 0 := by
  induction units with
  | nil => rfl
  | cons t ts ih =>
    rw [List.map_cons, List.mem_cons, not_or] at h
    rw [order_cons, if_neg (fun e => h.1 e.symm), ih h.2, Int.add_zero]

theorem order_of_mem {units : Units} (hnodup : (units.map Term.dimension).Nodup) {t : Term}
    (ht : t ∈ units) : units.order t.dimension = t.exponent.toInt := by
  induction units with
  | nil => exact absurd ht List.not_mem_nil
  | cons u us ih =>
    rw [List.map_cons, List.nodup_cons] at hnodup
    rw [order_cons]
    rcases List.mem_cons.mp ht with rfl | ht
    · rw [if_pos rfl, order_of_notMem hnodup.1, Int.add_zero]
    · have hne : u.dimension ≠ t.dimension :=
        fun e => hnodup.1 (e ▸ List.mem_map_of_mem ht)
      rw [if_neg hne, ih hnodup.2 ht, Int.zero_add]

/-- Where no dimension stands twice, whole exponents are the vector. -/
theorem carries_order {units : Units} (hnodup : (units.map Term.dimension).Nodup) {d : Dimension}
    (hwhole : ∀ t ∈ units, t.dimension = d → t.exponent.IsWhole) :
    units.Carries d (units.order d) where
  holds := by
    rintro t ht rfl
    rw [order_of_mem hnodup ht]
    exact hwhole t ht rfl
  absent := order_of_notMem

/-! ## Combining and scaling -/

/-- What combining makes of a dimension: the left exponent with the right one, `sign` times, added,
or the right one alone. -/
theorem mem_combine {a b : Units} {sign : Int} {s : Term} (h : s ∈ combine a b sign) :
    (∃ t ∈ collect a,
        s = { t with
          exponent := t.exponent + ofInt sign * exponentOf (collect b) t.dimension }) ∨
      ∃ t ∈ collect b, t.dimension ∉ (collect a).map Term.dimension ∧
        s = { t with exponent := ofInt sign * t.exponent } := by
  rcases List.mem_append.mp h with h | h
  · obtain ⟨t, ht, rfl⟩ := List.mem_map.mp h
    exact .inl ⟨t, ht, rfl⟩
  · obtain ⟨t, ht, rfl⟩ := List.mem_map.mp h
    obtain ⟨ht, hfresh⟩ := List.mem_filter.mp ht
    exact .inr ⟨t, ht, not_mentions_iff.mp hfresh, rfl⟩

theorem map_dimension_combine (a b : Units) (sign : Int) :
    (combine a b sign).map Term.dimension =
      (collect a).map Term.dimension ++
        ((collect b).filter fun t => !mentions (collect a) t.dimension).map Term.dimension := by
  simp [combine, Function.comp_def]

theorem mem_map_dimension_combine {a b : Units} {sign : Int} {d : Dimension} :
    d ∈ (combine a b sign).map Term.dimension ↔
      d ∈ (collect a).map Term.dimension ∨ d ∈ (collect b).map Term.dimension := by
  rw [map_dimension_combine, List.mem_append]
  constructor
  · rintro (h | h)
    · exact .inl h
    · exact .inr (List.filter_sublist.map _ |>.subset h)
  · rintro (h | h)
    · exact .inl h
    · by_cases ha : d ∈ (collect a).map Term.dimension
      · exact .inl ha
      · obtain ⟨t, ht, rfl⟩ := List.mem_map.mp h
        exact .inr (List.mem_map_of_mem (List.mem_filter.mpr ⟨ht, not_mentions_iff.mpr ha⟩))

/-- The dimensions that only the right units have come after those of the left ones. -/
theorem nodup_combine (a b : Units) (sign : Int) :
    ((combine a b sign).map Term.dimension).Nodup := by
  rw [map_dimension_combine]
  refine List.nodup_append.mpr
    ⟨nodup_collect a, (nodup_collect b).sublist (List.filter_sublist.map _), ?_⟩
  intro d hd e he hde
  obtain ⟨t, ht, rfl⟩ := List.mem_map.mp he
  have hfresh : t.dimension ∉ (collect a).map Term.dimension :=
    not_mentions_iff.mp (List.mem_filter.mp ht).2
  exact hfresh (hde ▸ hd)

/-- Combining adds the right coordinate, `sign` times, to the left one. -/
theorem carries_combine {a b : Units} {sign : Int} {d : Dimension} {y z : Int}
    (ha : (collect a).Carries d y) (hb : (collect b).Carries d z)
    (hsign : sign.natAbs ≤ 2 ^ 53) (hmul : (sign * z).natAbs ≤ 2 ^ 53)
    (hsum : (y + sign * z).natAbs ≤ 2 ^ 53) :
    (combine a b sign).Carries d (y + sign * z) where
  holds := by
    intro s hs hsd
    have hscaled : ∀ x : Binary64, x.Holds z → (ofInt sign * x).Holds (sign * z) :=
      fun x hx => (holds_ofInt hsign).mul hx hmul
    rcases mem_combine hs with ⟨t, ht, rfl⟩ | ⟨t, ht, hfresh, rfl⟩
    · have hd : t.dimension = d := hsd
      have hright : (exponentOf (collect b) t.dimension).Holds z :=
        hd ▸ hb.holds_exponentOf (nodup_collect b)
      exact (ha.holds t ht hsd).add (hscaled _ hright) hsum
    · -- Only the right units have the dimension, so the left coordinate is zero.
      have hd : t.dimension = d := hsd
      rw [ha.absent (hd ▸ hfresh), Int.zero_add]
      exact hscaled _ (hb.holds t ht hsd)
  absent := by
    intro hd
    rw [mem_map_dimension_combine, not_or] at hd
    rw [ha.absent hd.1, hb.absent hd.2, Int.mul_zero, Int.add_zero]

theorem map_dimension_scale (units : Units) (factor : Binary64) :
    (scale units factor).map Term.dimension = units.map Term.dimension := by
  simp [scale, Function.comp_def]

theorem Carries.scale {units : Units} {d : Dimension} {n z : Int} {factor : Binary64}
    (h : units.Carries d z) (hfactor : factor.Holds n) (hsmall : (z * n).natAbs ≤ 2 ^ 53) :
    (units.scale factor).Carries d (z * n) where
  holds := by
    intro s hs hsd
    obtain ⟨t, ht, rfl⟩ := List.mem_map.mp hs
    exact (h.holds t ht hsd).mul hfactor hsmall
  absent := by
    intro hd
    rw [map_dimension_scale] at hd
    rw [h.absent hd, Int.zero_mul]

/-! ## Tidying -/

theorem mem_tidy_of_isPresent {units : Units} {t : Term} (ht : t ∈ units)
    (hp : t.isPresent = true) : t ∈ tidy units := by
  have hmem : t ∈ units.filter Term.isPresent := List.mem_filter.mpr ⟨ht, hp⟩
  rw [(tidy_perm units).mem_iff]
  split
  · exact hmem
  · exact List.mem_cons_of_mem _ hmem

/-- Tidying drops a base dimension only where its coordinate is zero. -/
theorem Carries.tidy {units : Units} {d : Dimension} {z : Int} (h : units.Carries d z)
    (hd : d ≠ .reciprocal) : (tidy units).Carries d z where
  holds := by
    intro t ht htd
    rcases mem_tidy ht with rfl | ⟨hmem, _⟩
    · exact absurd htd.symm hd
    · exact h.holds t hmem htd
  absent := by
    -- A term that was there and is gone was absent, and its exponent zero.
    intro hgone
    by_cases hmem : d ∈ units.map Term.dimension
    · obtain ⟨t, ht, rfl⟩ := List.mem_map.mp hmem
      by_contra hz
      refine hgone (List.mem_map_of_mem (mem_tidy_of_isPresent ht ?_))
      have hv : t.vanishes = false := by
        show Exponent.vanishes t.exponent = false
        rw [(h.holds t ht rfl).vanishes_eq, decide_eq_false hz]
      rw [Term.isPresent_iff, Term.isReciprocal_eq_false_iff]
      exact ⟨hd, hv⟩
    · exact h.absent hmem

theorem carries_normalize {units : Units} {d : Dimension} (hd : d ≠ .reciprocal)
    (hwhole : ∀ t ∈ units, t.dimension = d → t.exponent.IsWhole)
    (hsums : units.SumsWithin d) : units.normalize.Carries d (units.order d) :=
  (carries_collect hwhole hsums).tidy hd

end Units

end Metrology
