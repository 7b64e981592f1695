import Mathlib
import Metrology.Table

/-!
# Metrology.Proofs.Table -- tables as the entries in them

A table is determined by its entries, in whatever order they are given: since the order of the names
is part of the type, tables whose entries are a permutation of each other are equal (`eq_of_perm`),
and filling a table with entries under different names gives the table that holds them, whatever the
order in which they are inserted (`ofList_of_perm`). What is looked up under a name is the entry
that stands there (`get?_eq_some_iff`). After a list of insertions it is what the list has under the
name, where that is one and the same (`get?_insertAll_of_mem`), and what was there before where the
list has nothing (`get?_insertAll_of_forall_ne`).
-/

namespace Metrology

namespace Table

variable {α : Type}

/-! ## Looking up -/

theorem lookup?_eq_some_iff {name : String} {a : α} {l : List (String × α)}
    (h : l.Pairwise fun x y => x.1 < y.1) : lookup? name l = some a ↔ (name, a) ∈ l := by
  induction l with
  | nil => simp [lookup?]
  | cons e rest ih =>
    obtain ⟨hhead, htail⟩ := List.pairwise_cons.mp h
    rw [lookup?, List.mem_cons]
    split_ifs with heq hlt
    · -- A name that stands at the head does not stand again further on.
      subst heq
      have hrest : (e.1, a) ∉ rest := fun hmem => String.lt_irrefl e.1 (hhead (e.1, a) hmem)
      simp [hrest, Prod.ext_iff, eq_comm]
    · have hrest : (name, a) ∉ rest := fun hmem =>
        String.lt_irrefl name (String.lt_trans hlt (hhead (name, a) hmem))
      simp [hrest, Prod.ext_iff, Ne.symm heq]
    · rw [ih htail, or_iff_right]
      rintro rfl
      exact heq rfl

theorem get?_eq_some_iff {t : Table α} {name : String} {a : α} :
    t.get? name = some a ↔ (name, a) ∈ t.entries :=
  lookup?_eq_some_iff t.increasing

theorem mem_names_iff {t : Table α} {name : String} :
    name ∈ t.names ↔ ∃ a, t.get? name = some a := by
  simp only [names, List.mem_map, get?_eq_some_iff, Prod.exists, exists_and_right, exists_eq_right]

theorem contains_iff {t : Table α} {name : String} :
    t.contains name = true ↔ ∃ a, t.get? name = some a :=
  Option.isSome_iff_exists

theorem get?_erase_of_ne (t : Table α) {name other : String} (h : other ≠ name) :
    (t.erase name).get? other = t.get? other := by
  apply Option.ext
  intro a
  simp [get?_eq_some_iff, erase, h]

@[simp] theorem get?_erase_self (t : Table α) (name : String) : (t.erase name).get? name = none := by
  rw [Option.eq_none_iff_forall_ne_some]
  intro a h
  simp [get?_eq_some_iff, erase] at h

/-! ## Entries inserted in order -/

/-- An entry is found under its name, and under another name what was there before. -/
theorem get?_insert_eq_some_iff {t : Table α} {e : String × α} {name : String} {a : α} :
    (t.insert e.1 e.2).get? name = some a ↔
      e = (name, a) ∨ ((∀ b, e ≠ (name, b)) ∧ t.get? name = some a) := by
  obtain ⟨other, b⟩ := e
  by_cases hname : name = other
  · subst hname
    simp [get?_insert_self]
  · simp [get?_insert_of_ne _ hname, Ne.symm hname]

theorem insertAll_append (t : Table α) (l m : List (String × α)) :
    t.insertAll (l ++ m) = (t.insertAll l).insertAll m :=
  List.foldl_append

/-- Entries under other names change nothing. -/
theorem get?_insertAll_of_forall_ne {name : String} {l : List (String × α)}
    (h : ∀ e ∈ l, e.1 ≠ name) (t : Table α) : (t.insertAll l).get? name = t.get? name := by
  induction l generalizing t with
  | nil => rfl
  | cons e l ih =>
    rw [List.forall_mem_cons] at h
    exact (ih h.2 (t.insert e.1 e.2)).trans (get?_insert_of_ne t (Ne.symm h.1) e.2)

/-- Where all the entries under a name are the same, their order has no part in what is found there.
The induction is on the entries from the last one back. -/
theorem get?_insertAll_of_mem {name : String} {a : α} {l : List (String × α)}
    (hmem : (name, a) ∈ l) (hsame : ∀ e ∈ l, e.1 = name → e.2 = a) (t : Table α) :
    (t.insertAll l).get? name = some a := by
  induction l using List.reverseRecOn with
  | nil => exact absurd hmem List.not_mem_nil
  | append_singleton l e ih =>
    rw [List.forall_mem_append, List.forall_mem_singleton] at hsame
    rw [insertAll_append]
    show ((t.insertAll l).insert e.1 e.2).get? name = some a
    by_cases hname : e.1 = name
    · rw [← hname, get?_insert_self, hsame.2 hname]
    · have hfront : (name, a) ∈ l := by
        rcases List.mem_append.mp hmem with hmem | hmem
        · exact hmem
        · exact absurd (congrArg Prod.fst (List.mem_singleton.mp hmem)).symm hname
      rw [get?_insert_of_ne _ (Ne.symm hname), ih hfront hsame.1]

/-! ## Entries in any order -/

theorem eq_of_perm {t u : Table α} (h : t.entries.Perm u.entries) : t = u := by
  have hentries : t.entries = u.entries :=
    h.eq_of_pairwise (fun a b _ _ hab hba => absurd (String.lt_trans hab hba) (String.lt_irrefl _))
      t.increasing u.increasing
  cases t
  cases u
  cases hentries
  rfl

/-- No name stands twice. -/
theorem nodup_names (t : Table α) : t.names.Nodup := by
  refine List.pairwise_map.mpr (t.increasing.imp ?_)
  intro a b hlt heq
  rw [heq] at hlt
  exact String.lt_irrefl _ hlt

/-- An entry under a new name is one more. -/
theorem perm_insertEntry {name : String} (a : α) {l : List (String × α)}
    (h : name ∉ l.map Prod.fst) : (insertEntry name a l).Perm ((name, a) :: l) := by
  induction l with
  | nil => exact List.Perm.refl _
  | cons e rest ih =>
    rw [List.map_cons, List.mem_cons, not_or] at h
    rw [insertEntry]
    split
    · exact List.Perm.refl _
    · rw [if_neg h.1]
      exact ((ih h.2).cons e).trans (List.Perm.swap _ _ _)

/-- Entries under new names, all different, are that many more. The induction is on the entries
still to be inserted. -/
theorem perm_insertAll (t : Table α) (l : List (String × α))
    (h : (t.names ++ l.map Prod.fst).Nodup) : (t.insertAll l).entries.Perm (t.entries ++ l) := by
  induction l generalizing t with
  | nil => rw [List.append_nil]; exact List.Perm.refl _
  | cons e l ih =>
    have hmoved : (t.names ++ (e :: l).map Prod.fst).Perm (e.1 :: (t.names ++ l.map Prod.fst)) :=
      List.perm_middle
    have hnodup := hmoved.nodup_iff.mp h
    have hfresh : e.1 ∉ t.names := fun hmem =>
      (List.nodup_cons.mp hnodup).1 (List.mem_append_left _ hmem)
    have hinsert : (t.insert e.1 e.2).entries.Perm (e :: t.entries) := perm_insertEntry e.2 hfresh
    have hnames : ((t.insert e.1 e.2).names ++ l.map Prod.fst).Perm
        (e.1 :: (t.names ++ l.map Prod.fst)) :=
      (hinsert.map Prod.fst).append_right _
    refine (ih (t.insert e.1 e.2) (hnames.nodup_iff.mpr hnodup)).trans ?_
    exact (hinsert.append_right l).trans List.perm_middle.symm

theorem ofList_of_perm {l : List (String × α)} {t : Table α} (h : l.Perm t.entries) :
    ofList l = t := by
  have hnodup : (l.map Prod.fst).Nodup := (h.map Prod.fst).nodup_iff.mpr t.nodup_names
  exact eq_of_perm ((perm_insertAll empty l hnodup).trans h)

end Table

end Metrology
