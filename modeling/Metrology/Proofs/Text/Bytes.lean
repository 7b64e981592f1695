import Mathlib
import Metrology.Table

/-!
# Metrology.Proofs.Text.Bytes -- texts in the order of their bytes

The names in a table are in increasing order of their code points. Where texts are strings of bytes,
that is the order of these bytes (`bytes_lt_iff`), since UTF-8 keeps the order of characters and no
code of a character begins the code of another: of two codes the first byte in which they differ
decides, whatever follows them (`precedes_utf8EncodeChar`).
-/

namespace Metrology

namespace Text

/-- The bytes of a text in UTF-8. -/
def bytes (s : String) : List UInt8 := s.toUTF8.data.toList

/-! ## Codes of characters -/

/-- Whether two codes differ in some byte, and the first has the lesser one in the first such place.
-/
def Precedes : List UInt8 → List UInt8 → Prop
  | x :: a, y :: b => x < y ∨ (x = y ∧ Precedes a b)
  | _, _ => False

/-- What follows two codes has no part in their order. -/
theorem Precedes.append_lt : ∀ {a b : List UInt8}, Precedes a b → ∀ s t, a ++ s < b ++ t
  | _ :: _, _ :: _, h, s, t => by
    rw [List.cons_append, List.cons_append, List.cons_lt_cons_iff]
    exact h.imp_right fun ⟨hxy, hab⟩ => ⟨hxy, hab.append_lt s t⟩

section

variable {p q : Nat} {a b : List UInt8}

theorem precedes_cons_of_lt (hq : q < 256) (h : p < q) :
    Precedes (.ofNat p :: a) (.ofNat q :: b) := by
  refine .inl (UInt8.lt_iff_toNat_lt.mpr ?_)
  rw [UInt8.toNat_ofNat', UInt8.toNat_ofNat']
  omega

theorem precedes_cons (hq : q < 256) (h : p ≤ q) (hab : p = q → Precedes a b) :
    Precedes (.ofNat p :: a) (.ofNat q :: b) := by
  rcases Nat.lt_or_eq_of_le h with hlt | heq
  · exact precedes_cons_of_lt hq hlt
  · exact .inr ⟨congrArg UInt8.ofNat heq, hab heq⟩

end

/-- The code of the lesser character precedes. Codes of different lengths differ in their first
byte, and in codes of one length the bytes are the digits of the characters. -/
theorem precedes_utf8EncodeChar {c d : Char} (h : c < d) :
    Precedes (String.utf8EncodeChar c) (String.utf8EncodeChar d) := by
  have hlt : c.val.toNat < d.val.toNat := h
  have hd : d.val.toNat < 0x110000 := by
    have hvalid : d.val.toNat < 0xd800 ∨ 0xdfff < d.val.toNat ∧ d.val.toNat < 0x110000 := d.valid
    omega
  unfold String.utf8EncodeChar
  generalize c.val.toNat = m at *
  generalize d.val.toNat = n at *
  dsimp only
  split_ifs
  all_goals try exact precedes_cons_of_lt (by omega) (by omega)
  · refine precedes_cons (by omega) (by omega) fun h₁ => ?_
    exact precedes_cons_of_lt (by omega) (by omega)
  · refine precedes_cons (by omega) (by omega) fun h₁ => ?_
    refine precedes_cons (by omega) (by omega) fun h₂ => ?_
    exact precedes_cons_of_lt (by omega) (by omega)
  · refine precedes_cons (by omega) (by omega) fun h₁ => ?_
    refine precedes_cons (by omega) (by omega) fun h₂ => ?_
    refine precedes_cons (by omega) (by omega) fun h₃ => ?_
    exact precedes_cons_of_lt (by omega) (by omega)

/-! ## Texts -/

theorem bytes_eq_flatMap (s : String) : bytes s = s.toList.flatMap String.utf8EncodeChar := by
  rw [bytes, String.toUTF8_eq_toByteArray, ← String.utf8Encode_toList, List.utf8Encode]
  simp

theorem flatMap_utf8EncodeChar_lt {s t : List Char} (h : s < t) :
    s.flatMap String.utf8EncodeChar < t.flatMap String.utf8EncodeChar := by
  induction h with
  | nil =>
    obtain ⟨x, code, hcode⟩ := List.exists_cons_of_ne_nil String.utf8EncodeChar_ne_nil
    rw [List.flatMap_nil, List.flatMap_cons, hcode]
    exact List.nil_lt_cons x _
  | rel hlt => exact (precedes_utf8EncodeChar hlt).append_lt _ _
  | cons _ ih => exact List.append_left_lt ih

/-- What texts start with in common has no part in their order. -/
theorem append_lt_append_iff {start a b : String} : start ++ a < start ++ b ↔ a < b := by
  have hmono : ∀ {a b : String}, a < b → start ++ a < start ++ b := by
    intro a b h
    rw [String.lt_iff_toList_lt, String.toList_append, String.toList_append]
    exact List.append_left_lt h
  refine ⟨fun h => ?_, hmono⟩
  by_contra hnot
  rcases eq_or_ne a b with rfl | hne
  · exact String.lt_irrefl _ h
  · exact String.lt_irrefl _ (String.lt_trans h (hmono (Table.lt_of_not_lt_of_ne hnot hne)))

/-- A text is before another when its bytes are. -/
theorem bytes_lt_iff {s t : String} : bytes s < bytes t ↔ s < t := by
  have hmono : ∀ {s t : String}, s < t → bytes s < bytes t := by
    intro s t h
    rw [bytes_eq_flatMap, bytes_eq_flatMap]
    exact flatMap_utf8EncodeChar_lt h
  refine ⟨fun h => ?_, hmono⟩
  by_contra hnot
  rcases eq_or_ne s t with rfl | hne
  · exact List.lt_irrefl _ h
  · exact List.lt_asymm h (hmono (Table.lt_of_not_lt_of_ne hnot hne))

end Text

end Metrology
