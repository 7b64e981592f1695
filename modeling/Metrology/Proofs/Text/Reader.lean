import Mathlib

/-!
# Metrology.Proofs.Text.Reader -- readers that take the longest text

A reader takes a text from the front of another and gives what it stands for, with the rest. It is
*longest* when two things hold (`IsLongest`). What it takes it would take with any part of the rest
behind it, so it never looks ahead for what it gives; and with more text behind, it takes no less.

That is kept when texts are read one after the other (`IsLongest.bind`), when a text may be missing
(`IsLongest.optional`), and when there are two kinds of text of which the first goes first where it
takes no less (`IsLongest.orElse`). A run of characters of one kind is read that way, and so is a
single character. Both are *settled* (`IsSettled`): more text behind changes what they take only
where they have taken all, and so another text may follow them.
-/

namespace Metrology

namespace Text

/-! ## Readers that take the longest text -/

section

variable {α β : Type}

/-- Whether a reader takes the same with any part of the rest behind it. -/
def KeepsFront (R : List Char → Option (α × List Char)) : Prop :=
  ∀ ⦃s a rest⦄, R s = some (a, rest) →
    ∃ front, s = front ++ rest ∧ ∀ back, back <+: rest → R (front ++ back) = some (a, back)

/-- Whether a reader does not look ahead, and takes no less when the text goes on. -/
structure IsLongest (R : List Char → Option (α × List Char)) : Prop where
  keepsFront : KeepsFront R
  extend : ∀ ⦃s a rest⦄, R s = some (a, rest) → ∀ more,
    ∃ b left, R (s ++ more) = some (b, left) ∧ left.length ≤ (rest ++ more).length

/-- Whether a reader does not look ahead, and takes the same when the text goes on, unless it has
taken all of it. -/
structure IsSettled (R : List Char → Option (α × List Char)) : Prop where
  keepsFront : KeepsFront R
  extend : ∀ ⦃s a rest⦄, R s = some (a, rest) → ∀ more,
    R (s ++ more) = some (a, rest ++ more) ∨
      rest = [] ∧ ∃ b left, R (s ++ more) = some (b, left) ∧ left.length ≤ more.length

theorem KeepsFront.length_le {R : List Char → Option (α × List Char)} (h : KeepsFront R)
    {s rest : List Char} {a : α} (hread : R s = some (a, rest)) : rest.length ≤ s.length := by
  obtain ⟨front, rfl, -⟩ := h hread
  simp

/-- Where a reader takes nothing, it takes nothing of a part of the text either. -/
theorem IsLongest.eq_none_of_prefix {R : List Char → Option (α × List Char)} (h : IsLongest R)
    {s t : List Char} (hnone : R s = none) (hpart : t <+: s) : R t = none := by
  cases hread : R t with
  | none => rfl
  | some taken =>
    obtain ⟨more, rfl⟩ := hpart
    obtain ⟨b, left, hmore, -⟩ := h.extend hread more
    rw [hnone] at hmore
    cases hmore

/-- A part, and what it stands for. -/
theorem IsLongest.map {R : List Char → Option (α × List Char)} (h : IsLongest R) (f : α → β) :
    IsLongest fun s => (R s).map fun taken => (f taken.1, taken.2) where
  keepsFront := by
    intro s b rest hread
    obtain ⟨⟨a, rest⟩, hR, heq⟩ := Option.map_eq_some_iff.mp hread
    cases heq
    obtain ⟨front, hs, hkeep⟩ := h.keepsFront hR
    refine ⟨front, hs, fun back hback => ?_⟩
    show (R (front ++ back)).map _ = _
    rw [hkeep back hback]
    rfl
  extend := by
    intro s b rest hread more
    obtain ⟨⟨a, rest⟩, hR, heq⟩ := Option.map_eq_some_iff.mp hread
    cases heq
    obtain ⟨a', left, hmore, hle⟩ := h.extend hR more
    exact ⟨f a', left, Option.map_eq_some_iff.mpr ⟨_, hmore, rfl⟩, hle⟩

theorem IsSettled.isLongest {R : List Char → Option (α × List Char)} (h : IsSettled R) :
    IsLongest R where
  keepsFront := h.keepsFront
  extend := by
    intro s a rest hread more
    rcases h.extend hread more with hsame | ⟨rfl, b, left, hmore, hle⟩
    · exact ⟨a, rest ++ more, hsame, le_rfl⟩
    · exact ⟨b, left, hmore, hle⟩

/-- Two parts one after the other. What the first part leaves may be all taken; then the second must
be able to do without a text, or not have been there at all. -/
theorem IsLongest.bind {A : List Char → Option (α × List Char)}
    {B : α → List Char → Option (β × List Char)} (hA : IsSettled A) (hB : ∀ a, IsLongest (B a))
    (hlast : ∀ a, B a [] = none ∨ ∀ a s, ∃ taken, B a s = some taken) :
    IsLongest fun s => (A s).bind fun taken => B taken.1 taken.2 where
  keepsFront := by
    intro s b rest h
    obtain ⟨⟨a, t⟩, hfirst, hsecond⟩ := Option.bind_eq_some_iff.mp h
    obtain ⟨first, rfl, hkeep⟩ := hA.keepsFront hfirst
    obtain ⟨second, rfl, hkeep'⟩ := (hB a).keepsFront hsecond
    refine ⟨first ++ second, (List.append_assoc _ _ _).symm, fun back hback => ?_⟩
    have hback' := hkeep _ ((List.prefix_append_right_inj second).mpr hback)
    show (A (first ++ second ++ back)).bind _ = _
    rw [List.append_assoc, hback']
    exact hkeep' back hback
  extend := by
    intro s b rest h more
    obtain ⟨⟨a, t⟩, hfirst, hsecond⟩ := Option.bind_eq_some_iff.mp h
    rcases hA.extend hfirst more with hsame | ⟨rfl, a', t', hmore, hle⟩
    · obtain ⟨b', left, hleft, hle⟩ := (hB a).extend hsecond more
      exact ⟨b', left, by rw [hsame]; exact hleft, hle⟩
    · rcases hlast a with hnone | htotal
      · rw [hnone] at hsecond
        cases hsecond
      · obtain ⟨⟨b', left⟩, hleft⟩ := htotal a' t'
        have hshort := (hB a').keepsFront.length_le hleft
        refine ⟨b', left, by rw [hmore]; exact hleft, ?_⟩
        rw [List.length_append]
        omega

/-- A part that may be missing. -/
theorem IsLongest.optional {R : List Char → Option (α × List Char)} (h : IsLongest R) (a : α) :
    IsLongest fun s => some ((R s).getD (a, s)) where
  keepsFront := by
    intro s b rest hread
    cases hR : R s with
    | some taken =>
      simp only [hR, Option.getD_some, Option.some.injEq] at hread
      obtain ⟨front, hs, hkeep⟩ := h.keepsFront (hR.trans (congrArg some hread))
      refine ⟨front, hs, fun back hback => ?_⟩
      show some ((R (front ++ back)).getD _) = _
      rw [hkeep back hback, Option.getD_some]
    | none =>
      simp only [hR, Option.getD_none, Option.some.injEq, Prod.mk.injEq] at hread
      obtain ⟨rfl, rfl⟩ := hread
      refine ⟨[], rfl, fun back hback => ?_⟩
      show some ((R back).getD _) = _
      rw [h.eq_none_of_prefix hR hback, Option.getD_none, List.nil_append]
  extend := by
    intro s b rest hread more
    refine ⟨_, _, rfl, ?_⟩
    cases hR : R s with
    | some taken =>
      simp only [hR, Option.getD_some, Option.some.injEq] at hread
      obtain ⟨b', left, hmore, hle⟩ := h.extend (hR.trans (congrArg some hread)) more
      rw [hmore]
      exact hle
    | none =>
      simp only [hR, Option.getD_none, Option.some.injEq, Prod.mk.injEq] at hread
      obtain ⟨rfl, rfl⟩ := hread
      cases hmore : R (s ++ more) with
      | none => exact le_rfl
      | some taken => exact h.keepsFront.length_le hmore

/-- Two kinds of text, where the first takes no less than the second has taken before the text went
on. -/
theorem IsLongest.orElse {A B : List Char → Option (α × List Char)} (hA : IsLongest A)
    (hB : IsLongest B)
    (hover : ∀ {s more b rest a left}, B s = some (b, rest) → A (s ++ more) = some (a, left) →
      left.length ≤ (rest ++ more).length) :
    IsLongest fun s => A s <|> B s where
  keepsFront := by
    intro s b rest hread
    cases hfirst : A s with
    | some taken =>
      simp only [hfirst] at hread
      obtain ⟨front, hs, hkeep⟩ := hA.keepsFront (hfirst.trans hread)
      refine ⟨front, hs, fun back hback => ?_⟩
      show (A (front ++ back) <|> B (front ++ back)) = _
      rw [hkeep back hback]
      rfl
    | none =>
      simp only [hfirst] at hread
      obtain ⟨front, hs, hkeep⟩ := hB.keepsFront hread
      refine ⟨front, hs, fun back hback => ?_⟩
      have hpart : front ++ back <+: s := by
        rw [hs]
        exact (List.prefix_append_right_inj front).mpr hback
      show (A (front ++ back) <|> B (front ++ back)) = _
      rw [hA.eq_none_of_prefix hfirst hpart]
      exact hkeep back hback
  extend := by
    intro s b rest hread more
    cases hfirst : A s with
    | some taken =>
      simp only [hfirst] at hread
      obtain ⟨b', left, hmore, hle⟩ := hA.extend (hfirst.trans hread) more
      refine ⟨b', left, ?_, hle⟩
      rw [hmore]
      rfl
    | none =>
      simp only [hfirst] at hread
      cases hmore : A (s ++ more) with
      | some taken => exact ⟨taken.1, taken.2, rfl, hover hread hmore⟩
      | none => exact hB.extend hread more

end

/-! ## Runs of characters -/

section

variable {p : Char → Bool} {s rest : List Char}

/-- What a run of characters leaves does not start with one of them. -/
theorem takeWhile_eq_nil_of_prefix_dropWhile {back : List Char} (h : back <+: s.dropWhile p) :
    back.takeWhile p = [] := by
  obtain ⟨more, hmore⟩ := h
  cases back with
  | nil => rfl
  | cons c back =>
    have hc := List.head?_dropWhile_not p s
    rw [← hmore] at hc
    rw [List.takeWhile_cons_of_neg]
    simpa using hc

theorem takeWhile_append_of_prefix_dropWhile {back : List Char} (h : back <+: s.dropWhile p) :
    (s.takeWhile p ++ back).takeWhile p = s.takeWhile p ∧
      (s.takeWhile p ++ back).dropWhile p = back := by
  have hall : ∀ c ∈ s.takeWhile p, p c = true := fun c => List.mem_takeWhile_imp
  have hnone := takeWhile_eq_nil_of_prefix_dropWhile h
  have hcut := List.takeWhile_append_dropWhile (p := p) (l := back)
  rw [hnone, List.nil_append] at hcut
  rw [List.takeWhile_append_of_pos hall, List.dropWhile_append_of_pos hall, hnone, hcut,
    List.append_nil]
  exact ⟨rfl, rfl⟩

/-- A run of characters ends where it ended, or goes on if nothing was left. -/
theorem span_append (s more : List Char) :
    (s.dropWhile p ≠ [] ∧ (s ++ more).takeWhile p = s.takeWhile p ∧
        (s ++ more).dropWhile p = s.dropWhile p ++ more) ∨
      s.dropWhile p = [] ∧ (s ++ more).takeWhile p = s.takeWhile p ++ more.takeWhile p ∧
        (s ++ more).dropWhile p = more.dropWhile p := by
  rw [List.takeWhile_append, List.dropWhile_append]
  cases hleft : s.dropWhile p with
  | nil =>
    have hall : s.takeWhile p = s := by
      have hcut := List.takeWhile_append_dropWhile (p := p) (l := s)
      rwa [hleft, List.append_nil] at hcut
    right
    simp [hall]
  | cons c left =>
    have hlength := congrArg List.length (List.takeWhile_append_dropWhile (p := p) (l := s))
    rw [hleft, List.length_append, List.length_cons] at hlength
    left
    rw [if_neg (by omega)]
    simp

theorem isSettled_dropWhile (p : Char → Bool) :
    IsSettled fun s => some ((), s.dropWhile p) where
  keepsFront := by
    intro s a rest h
    cases h
    refine ⟨s.takeWhile p, List.takeWhile_append_dropWhile.symm, fun back hback => ?_⟩
    exact congrArg (fun left => some ((), left)) (takeWhile_append_of_prefix_dropWhile hback).2
  extend := by
    intro s a rest h more
    cases h
    rcases span_append (p := p) s more with ⟨-, -, hdrop⟩ | ⟨hnil, -, hdrop⟩
    · exact .inl (by rw [hdrop])
    · exact .inr ⟨hnil, (), _, by rw [hdrop], List.length_dropWhile_le p more⟩

/-- A run of characters that must not be empty. -/
def readRun? (p : Char → Bool) (s : List Char) : Option (List Char × List Char) :=
  if (s.takeWhile p).isEmpty then none else some (s.takeWhile p, s.dropWhile p)

theorem isSettled_readRun? (p : Char → Bool) : IsSettled (readRun? p) where
  keepsFront := by
    intro s a rest h
    rw [readRun?] at h
    split_ifs at h with hempty
    cases h
    refine ⟨s.takeWhile p, List.takeWhile_append_dropWhile.symm, fun back hback => ?_⟩
    obtain ⟨htake, hdrop⟩ := takeWhile_append_of_prefix_dropWhile hback
    rw [readRun?, htake, hdrop, if_neg hempty]
  extend := by
    intro s a rest h more
    rw [readRun?] at h
    split_ifs at h with hempty
    cases h
    rw [readRun?]
    rcases span_append (p := p) s more with ⟨-, htake, hdrop⟩ | ⟨hnil, htake, hdrop⟩
    · rw [htake, hdrop, if_neg hempty]
      exact .inl rfl
    · have hmore : (s.takeWhile p ++ more.takeWhile p).isEmpty = false := by
        simpa using fun h => absurd h (by simpa using hempty)
      rw [htake, hdrop, hmore]
      exact .inr ⟨hnil, _, _, rfl, List.length_dropWhile_le p more⟩

end

/-! ## Single characters -/

/-- One given character. -/
def readChar? (c : Char) : List Char → Option (Unit × List Char)
  | [] => none
  | d :: s => if d = c then some ((), s) else none

theorem readChar?_cons (c : Char) (s : List Char) : readChar? c (c :: s) = some ((), s) :=
  if_pos rfl

theorem readChar?_eq_some_iff {c : Char} {s rest : List Char} {u : Unit} :
    readChar? c s = some (u, rest) ↔ s = c :: rest := by
  cases s with
  | nil => simp [readChar?]
  | cons d s => simp [readChar?]

theorem isSettled_readChar? (c : Char) : IsSettled (readChar? c) where
  keepsFront := by
    intro s u rest h
    exact ⟨[c], readChar?_eq_some_iff.mp h, fun back _ => readChar?_eq_some_iff.mpr rfl⟩
  extend := by
    intro s u rest h more
    rw [readChar?_eq_some_iff.mp h]
    exact .inl (readChar?_eq_some_iff.mpr rfl)

end Text

end Metrology
