import Mathlib
import Metrology.Proofs.Binary64.Bounded
import Metrology.Proofs.Units.SameDimensions

/-!
# Metrology.Proofs.Units.Bounded -- units whose exponents stay finite

Agreement is not reflexive, as NaN and the infinities agree with nothing, so a unit has the same
dimensions as itself only if its exponents are finite (`sameDimensions_self`). Gathering terms adds
up exponents in binary64, and may round; but from exponents of at most `2³¹` no sum grows beyond
`2⁸⁴`, however many terms there are (`within_normalize`).
-/

namespace Metrology

namespace Units

open Binary64

variable {units : Units}

theorem within_absorb {t : Term} (h : ∀ u ∈ units, u.exponent.Within 84)
    (ht : t.exponent.Within 31) : ∀ u ∈ absorb units t, u.exponent.Within 84 := by
  induction units with
  | nil =>
    rintro u hu
    rw [absorb, List.mem_singleton] at hu
    exact hu ▸ ht.mono (by decide)
  | cons first units ih =>
    rw [List.forall_mem_cons] at h
    rw [absorb]
    split
    · rw [List.forall_mem_cons]
      exact ⟨h.1.add_small (by decide) (by decide) ht, h.2⟩
    · rw [List.forall_mem_cons]
      exact ⟨h.1, ih h.2⟩

theorem within_collect (h : ∀ t ∈ units, t.exponent.Within 31) :
    ∀ t ∈ collect units, t.exponent.Within 84 :=
  List.foldlRecOn (motive := fun (gathered : Units) => ∀ t ∈ gathered, t.exponent.Within 84) units
    absorb (fun _ ht => absurd ht List.not_mem_nil) fun _ hgathered t ht =>
      within_absorb hgathered (h t ht)

theorem within_normalize (h : ∀ t ∈ units, t.exponent.Within 31) :
    ∀ t ∈ units.normalize, t.exponent.Within 84 := by
  intro t ht
  rcases mem_tidy ht with rfl | ⟨hmem, -⟩
  · exact holds_one.within (by decide)
  · exact within_collect h t hmem

/-- Units with finite exponents have the same dimensions as themselves. -/
theorem sameDimensions_self (h : ∀ t ∈ units, t.exponent.isFinite = true) :
    units.sameDimensions units = true :=
  sameDimensions_iff_forall.mpr
    ⟨rfl, fun t ht => ⟨t, ht, agrees_iff.mpr ⟨rfl, close_self (h t ht)⟩⟩⟩

end Units

end Metrology
