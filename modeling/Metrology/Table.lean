/-!
# Metrology.Table -- entries under names, in increasing order of the names

A table holds at most one entry under a name, and keeps its names in increasing order of their code
points, which for texts in UTF-8 is the order of their bytes. The order is part of the type, so two
tables with the same entries are the same table and a listing needs no sorting.

Main statements: a name just inserted has the entry given (`get?_insert_self`), and every other
name keeps its own (`get?_insert_of_ne`); so those that were there and the new one are all that
stand in the table then (`contains_insert_iff`).
-/

namespace Metrology

/-- Entries under names; each name stands once, in increasing order. -/
structure Table (α : Type) where
  entries : List (String × α)
  increasing : entries.Pairwise fun a b => a.1 < b.1
deriving DecidableEq

namespace Table

variable {α β : Type}

/-! ## Entries in order -/

/-- The entry under a name in an ordered list, which need not be searched past that name. -/
def lookup? (name : String) : List (String × α) → Option α
  | [] => none
  | (n, a) :: rest =>
    if n = name then some a
    else if name < n then none
    else lookup? name rest

/-- Puts an entry in its place, instead of one that stood there. -/
def insertEntry (name : String) (a : α) : List (String × α) → List (String × α)
  | [] => [(name, a)]
  | (n, b) :: rest =>
    if name < n then (name, a) :: (n, b) :: rest
    else if name = n then (name, a) :: rest
    else (n, b) :: insertEntry name a rest

theorem lt_of_not_lt_of_ne {a b : String} (h : ¬ a < b) (hne : a ≠ b) : b < a :=
  Std.lt_of_le_of_ne (String.not_lt.1 h) (Ne.symm hne)

theorem mem_insertEntry {name : String} {a : α} {e : String × α} :
    ∀ {l : List (String × α)}, e ∈ insertEntry name a l → e = (name, a) ∨ e ∈ l
  | [], h => by
    rw [insertEntry, List.mem_singleton] at h
    exact .inl h
  | (n, b) :: rest, h => by
    unfold insertEntry at h
    split at h
    · exact List.mem_cons.1 h
    · split at h
      · exact (List.mem_cons.1 h).imp id (List.mem_cons_of_mem _)
      · rcases List.mem_cons.1 h with h | h
        · exact .inr (h ▸ List.mem_cons_self)
        · exact (mem_insertEntry h).imp id (List.mem_cons_of_mem _)

theorem pairwise_insertEntry (name : String) (a : α) :
    ∀ {l : List (String × α)}, l.Pairwise (fun x y => x.1 < y.1) →
      (insertEntry name a l).Pairwise fun x y => x.1 < y.1
  | [], _ => List.pairwise_singleton _ _
  | (n, b) :: rest, h => by
    obtain ⟨hhead, htail⟩ := List.pairwise_cons.1 h
    unfold insertEntry
    split
    · next hlt =>
      refine List.pairwise_cons.2 ⟨fun e he => ?_, h⟩
      rcases List.mem_cons.1 he with rfl | he
      · exact hlt
      · exact String.lt_trans hlt (hhead e he)
    · next hlt =>
      split
      · next heq => exact List.pairwise_cons.2 ⟨fun e he => heq ▸ hhead e he, htail⟩
      · next hne =>
        refine List.pairwise_cons.2 ⟨fun e he => ?_, pairwise_insertEntry name a htail⟩
        rcases mem_insertEntry he with rfl | he
        · exact lt_of_not_lt_of_ne hlt hne
        · exact hhead e he

/-! ## Tables -/

def empty : Table α := ⟨[], List.Pairwise.nil⟩

instance : Inhabited (Table α) := ⟨empty⟩

def get? (t : Table α) (name : String) : Option α := lookup? name t.entries

def contains (t : Table α) (name : String) : Bool := (t.get? name).isSome

/-- The table with the entry under the name, instead of one that was there. -/
def insert (t : Table α) (name : String) (a : α) : Table α :=
  ⟨insertEntry name a t.entries, pairwise_insertEntry name a t.increasing⟩

/-- The table with all the entries of a list, inserted in order: of one name the last one stays. -/
def insertAll (t : Table α) (entries : List (String × α)) : Table α :=
  entries.foldl (fun t e => t.insert e.1 e.2) t

def ofList (entries : List (String × α)) : Table α := empty.insertAll entries

/-- The table without the entry under the name, if there was one. -/
def erase (t : Table α) (name : String) : Table α :=
  ⟨t.entries.filter fun e => e.1 ≠ name, t.increasing.filter _⟩

def names (t : Table α) : List String := t.entries.map Prod.fst

def size (t : Table α) : Nat := t.entries.length

/-! ## Laws -/

theorem lookup?_insertEntry_self (name : String) (a : α) :
    ∀ l : List (String × α), lookup? name (insertEntry name a l) = some a
  | [] => by simp [insertEntry, lookup?]
  | (n, b) :: rest => by
    unfold insertEntry
    split
    · simp [lookup?]
    · split
      · simp [lookup?]
      · next hlt hne =>
        rw [lookup?, if_neg (Ne.symm hne), if_neg hlt]
        exact lookup?_insertEntry_self name a rest

theorem lookup?_eq_none_of_lt {name : String} {l : List (String × α)}
    (h : ∀ e ∈ l, name < e.1) : lookup? name l = none := by
  cases l with
  | nil => rfl
  | cons e rest =>
    have hlt := h e List.mem_cons_self
    rw [lookup?, if_neg, if_pos hlt]
    exact fun heq => String.lt_irrefl _ (heq ▸ hlt)

theorem lookup?_insertEntry_of_ne {name other : String} (hne : other ≠ name) (a : α) :
    ∀ {l : List (String × α)}, l.Pairwise (fun x y => x.1 < y.1) →
      lookup? other (insertEntry name a l) = lookup? other l
  | [], _ => by
    simp [insertEntry, lookup?, Ne.symm hne]
  | (n, b) :: rest, h => by
    obtain ⟨hhead, htail⟩ := List.pairwise_cons.1 h
    unfold insertEntry
    split
    · next hlt =>
      rw [lookup?, if_neg (Ne.symm hne)]
      split
      · next hother =>
        rw [lookup?_eq_none_of_lt]
        intro e he
        rcases List.mem_cons.1 he with rfl | he
        · exact String.lt_trans hother hlt
        · exact String.lt_trans (String.lt_trans hother hlt) (hhead e he)
      · rfl
    · next hlt =>
      split
      · next heq =>
        subst heq
        rw [lookup?, lookup?, if_neg (Ne.symm hne), if_neg (Ne.symm hne)]
      · rw [lookup?, lookup?, lookup?_insertEntry_of_ne hne a htail]

@[simp] theorem get?_insert_self (t : Table α) (name : String) (a : α) :
    (t.insert name a).get? name = some a :=
  lookup?_insertEntry_self name a t.entries

theorem get?_insert_of_ne (t : Table α) {name other : String} (h : other ≠ name) (a : α) :
    (t.insert name a).get? other = t.get? other :=
  lookup?_insertEntry_of_ne h a t.increasing

theorem contains_insert_iff {t : Table α} {name other : String} {a : α} :
    (t.insert name a).contains other = true ↔ other = name ∨ t.contains other = true := by
  by_cases h : other = name
  · subst h
    simp [contains]
  · simp [contains, get?_insert_of_ne t h, h]

end Table

end Metrology
