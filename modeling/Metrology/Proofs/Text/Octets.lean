import Mathlib
import Metrology.Text.Octets

/-!
# Metrology.Proofs.Text.Octets -- what is read is written back

Reading bytes as a text loses nothing: the text is written as the bytes that were read, whatever
they are (`bytes_text`). And what a text without stand-ins is written as is its UTF-8, which is read
as that text again (`text_toByteArray`).
-/

namespace Metrology

namespace Octets

/-! ## Stand-ins -/

theorem stray?_standIn (b : UInt8) : stray? (standIn b) = some b := by
  have hb : b.toNat < 256 := b.toNat_lt
  have hvalid : (base + b.toNat).isValidChar := .inr ⟨by unfold base; omega, by unfold base; omega⟩
  have hnumber : (standIn b).toNat = base + b.toNat := by
    rw [standIn, Char.toNat_ofNat, if_pos hvalid]
  rw [stray?, hnumber, if_pos ⟨by omega, by omega⟩, Nat.add_sub_cancel_left, UInt8.ofNat_toNat]

theorem octets_standIn (b : UInt8) : octets (standIn b) = [b] := by
  rw [octets, stray?_standIn]

theorem octets_of_stray? {c : Char} (h : stray? c = none) :
    octets c = String.utf8EncodeChar c := by
  rw [octets, h]

theorem decode?_eq_some_iff {b : ByteArray} {place : Nat} {c : Char} :
    decode? b place = some c ↔ b.utf8DecodeChar? place = some c ∧ stray? c = none := by
  simp [decode?, Option.filter_eq_some_iff]

/-! ## Writing -/

@[simp] theorem bytes_empty : bytes "" = ByteArray.empty := rfl

theorem bytes_push (text : String) (c : Char) :
    bytes (text.push c) = bytes text ++ (octets c).toByteArray := by
  simp [bytes, String.toList_push, List.toByteArray_append]

/-! ## Reading and writing back -/

/-- What a character has been read from is what it is written as. -/
theorem octets_append_extract {b : ByteArray} {place : Nat} {c : Char}
    (h : decode? b place = some c) :
    (octets c).toByteArray ++ b.extract (place + c.utf8Size) b.size = b.extract place b.size := by
  obtain ⟨hdecode, hstray⟩ := decode?_eq_some_iff.mp h
  have hsize := ByteArray.le_size_of_utf8DecodeChar?_eq_some hdecode
  rw [ByteArray.utf8DecodeChar?_eq_utf8DecodeChar?_extract] at hdecode
  have hfront := ByteArray.eq_of_utf8DecodeChar?_eq_some hdecode
  rw [ByteArray.extract_extract, ByteArray.size_extract] at hfront
  rw [octets_of_stray? hstray, hfront]
  congr 2
  omega

/-- Behind the text in front, reading goes on to what the rest of the bytes is written back as. The
induction follows the reader from place to place. -/
theorem bytes_readFrom (b : ByteArray) (place : Nat) (front : String) :
    bytes (readFrom b place front) = bytes front ++ b.extract place b.size := by
  fun_induction readFrom b place front with
  | case1 place front hplace c hdecode ih =>
    rw [ih, bytes_push, ByteArray.append_assoc, octets_append_extract hdecode]
  | case2 place front hplace hdecode ih =>
    rw [ih, bytes_push, octets_standIn, ← ByteArray.extract_add_one hplace, ByteArray.append_assoc,
      ByteArray.extract_append_extract, Nat.min_eq_left (Nat.le_succ place), Nat.max_eq_right hplace]
  | case3 place front hplace =>
    have hrest : b.extract place b.size = ByteArray.empty :=
      ByteArray.extract_eq_empty_iff.mpr (by omega)
    rw [hrest, ByteArray.append_empty]

/-- **What is read is written back.** -/
theorem bytes_text (b : ByteArray) : bytes (text b) = b := by
  rw [text, bytes_readFrom]
  simp

/-! ## Reading what was written -/

/-- Reading takes characters, none of them a stand-in, from where their codes stand. -/
theorem readFrom_utf8Encode {b : ByteArray} {l : List Char} (hl : ∀ c ∈ l, stray? c = none) :
    ∀ (place : Nat) (front : String), b.extract place b.size = l.utf8Encode →
      readFrom b place front = front ++ String.ofList l := by
  induction l with
  | nil =>
    intro place front h
    have hplace : ¬ place < b.size := by
      have hempty := ByteArray.extract_eq_empty_iff.mp h
      omega
    rw [readFrom, dif_neg hplace]
    simp
  | cons c l ih =>
    intro place front h
    obtain ⟨hc, hl⟩ := List.forall_mem_cons.mp hl
    rw [List.utf8Encode_cons, List.utf8Encode_singleton] at h
    have hdecode : decode? b place = some c := by
      refine decode?_eq_some_iff.mpr ⟨?_, hc⟩
      rw [ByteArray.utf8DecodeChar?_eq_utf8DecodeChar?_extract, h,
        ByteArray.utf8DecodeChar?_utf8EncodeChar_append]
    have hsize := ByteArray.le_size_of_utf8DecodeChar?_eq_some (decode?_eq_some_iff.mp hdecode).1
    have hplace : place < b.size := by
      have hpos := c.utf8Size_pos
      omega
    have hrest : b.extract (place + c.utf8Size) b.size = l.utf8Encode := by
      have hsplit := octets_append_extract hdecode
      rw [h, octets_of_stray? hc] at hsplit
      exact (ByteArray.append_right_inj _).mp hsplit
    rw [readFrom, dif_pos hplace, hdecode]
    dsimp only
    rw [ih hl _ _ hrest]
    apply String.toList_injective
    simp

/-- A text without stand-ins is read from its UTF-8. -/
theorem text_toByteArray {t : String} (h : ∀ c ∈ t.toList, stray? c = none) :
    text t.toByteArray = t := by
  have hcode : t.toByteArray.extract 0 t.toByteArray.size = t.toList.utf8Encode := by
    rw [ByteArray.extract_zero_size, String.utf8Encode_toList]
  rw [text, readFrom_utf8Encode h 0 "" hcode]
  simp

end Octets

end Metrology
