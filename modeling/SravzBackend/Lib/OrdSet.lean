/-
# `Lib.OrdSet` — finite sets kept as strictly increasing lists

The ordered set of a standard library: iteration visits the elements in
increasing order, each once.  The order is a field of the structure.
-/
import Mathlib.Data.List.Sort

/-- A finite set, as the strictly increasing list of its elements. -/
structure OrdSet (α : Type*) [LinearOrder α] where
  toList : List α
  increasing : toList.Pairwise (· < ·)

namespace OrdSet

variable {α : Type*} [LinearOrder α]

instance : Membership α (OrdSet α) := ⟨fun s a => a ∈ s.toList⟩

instance (a : α) (s : OrdSet α) : Decidable (a ∈ s) :=
  inferInstanceAs (Decidable (a ∈ s.toList))

theorem mem_def {a : α} {s : OrdSet α} : a ∈ s ↔ a ∈ s.toList := Iff.rfl

/-- The set with no elements. -/
def empty : OrdSet α := ⟨[], List.Pairwise.nil⟩

@[simp]
theorem not_mem_empty (a : α) : a ∉ (empty : OrdSet α) := List.not_mem_nil

theorem orderedInsert_increasing {a : α} {l : List α} (hl : l.Pairwise (· < ·))
    (ha : a ∉ l) : (l.orderedInsert (· ≤ ·) a).Pairwise (· < ·) := by
  have hle : l.Pairwise (· ≤ ·) := hl.imp le_of_lt
  have hsorted : (l.orderedInsert (· ≤ ·) a).Pairwise (· ≤ ·) := hle.orderedInsert a l
  have hnodup : (l.orderedInsert (· ≤ ·) a).Nodup :=
    (List.perm_orderedInsert (· ≤ ·) a l).nodup_iff.mpr
      (List.nodup_cons.mpr ⟨ha, hl.imp ne_of_lt⟩)
  exact hsorted.imp₂ (fun _ _ hab hne => lt_of_le_of_ne hab hne) hnodup

/-- Add an element; adding one that is there changes nothing. -/
def insert (a : α) (s : OrdSet α) : OrdSet α :=
  if h : a ∈ s.toList then s
  else ⟨s.toList.orderedInsert (· ≤ ·) a, orderedInsert_increasing s.increasing h⟩

/-- Remove an element; removing one that is not there changes nothing. -/
def erase (s : OrdSet α) (a : α) : OrdSet α :=
  ⟨s.toList.erase a, s.increasing.sublist List.erase_sublist⟩

@[simp]
theorem mem_insert {a b : α} {s : OrdSet α} : b ∈ s.insert a ↔ b = a ∨ b ∈ s := by
  unfold insert
  split
  · next h =>
      constructor
      · exact Or.inr
      · rintro (rfl | hb)
        · exact h
        · exact hb
  · next h => simp [mem_def, List.mem_orderedInsert]

@[simp]
theorem mem_erase {a b : α} {s : OrdSet α} : b ∈ s.erase a ↔ b ≠ a ∧ b ∈ s := by
  have hnodup : s.toList.Nodup := s.increasing.imp ne_of_lt
  simp [mem_def, erase, hnodup.mem_erase_iff]

theorem insert_of_mem {a : α} {s : OrdSet α} (h : a ∈ s) : s.insert a = s := dif_pos h

theorem erase_of_not_mem {a : α} {s : OrdSet α} (h : a ∉ s) : s.erase a = s := by
  obtain ⟨l, hl⟩ := s
  have hsame : l.erase a = l := List.erase_of_not_mem h
  simp only [erase, hsame]

end OrdSet
