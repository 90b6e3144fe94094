/-
# `Lib.Pieces` — a list cut at every occurrence of a separator

`List.splitOn` cuts a list into the pieces between the occurrences of a
separator, empty ones included.  `splitOn_eq_iff` says which lists of pieces
that gives: those without the separator in any of them that, joined by it, are
the list.  `mem_piece_iff` says what stands in the pieces, and
`flatten_terminated` what becomes of pieces that each end with the separator.
-/
import Mathlib.Tactic.Common

namespace Pieces

variable {α : Type*} [BEq α] [LawfulBEq α] {sep a : α}

/-- The separator stands in no piece. -/
theorem sep_not_mem_piece (xs : List α) : ∀ piece ∈ xs.splitOn sep, sep ∉ piece := by
  induction xs with
  | nil =>
      intro piece hpiece
      rw [List.splitOn_nil, List.mem_singleton] at hpiece
      rw [hpiece]
      exact List.not_mem_nil
  | cons x xs ih =>
      rw [List.splitOn_cons_eq_if_modifyHead]
      cases hx : x == sep with
      | true =>
          intro piece hpiece
          rcases List.mem_cons.mp hpiece with rfl | hpiece
          · exact List.not_mem_nil
          · exact ih piece hpiece
      | false =>
          have hne : sep ≠ x := fun h => by simp [h] at hx
          cases hxs : xs.splitOn sep with
          | nil => exact absurd hxs (List.splitOn_ne_nil sep xs)
          | cons first rest =>
              rw [hxs] at ih
              intro piece hpiece
              rcases List.mem_cons.mp hpiece with rfl | hpiece
              · rw [List.mem_cons, not_or]
                exact ⟨hne, ih first List.mem_cons_self⟩
              · exact ih piece (List.mem_cons_of_mem first hpiece)

/-- The pieces are the only lists without the separator that, joined by it,
are the list. -/
theorem splitOn_eq_iff {xs : List α} {pieces : List (List α)} :
    xs.splitOn sep = pieces ↔
      pieces ≠ [] ∧ (∀ piece ∈ pieces, sep ∉ piece) ∧ [sep].intercalate pieces = xs := by
  constructor
  · rintro rfl
    exact ⟨List.splitOn_ne_nil sep xs, sep_not_mem_piece xs, List.intercalate_splitOn sep⟩
  · rintro ⟨hne, hsep, rfl⟩
    exact List.splitOn_intercalate sep hsep hne

omit [BEq α] [LawfulBEq α] in
/-- What stands in a joined list, besides the separator, stands in a piece. -/
theorem mem_intercalate (hne : a ≠ sep) {pieces : List (List α)} :
    a ∈ [sep].intercalate pieces ↔ ∃ piece ∈ pieces, a ∈ piece := by
  induction pieces with
  | nil => simp
  | cons piece pieces ih =>
      cases pieces with
      | nil => simp
      | cons second rest =>
          rw [List.intercalate_cons_cons, List.append_assoc, List.mem_append, List.mem_append, ih,
            List.mem_singleton, or_iff_right hne]
          simp

/-- What stands in the pieces is what stands in the list, but the separator. -/
theorem mem_piece_iff (hne : a ≠ sep) {xs : List α} :
    (∃ piece ∈ xs.splitOn sep, a ∈ piece) ↔ a ∈ xs := by
  rw [← mem_intercalate hne, List.intercalate_splitOn]

/-! ## Cutting what has been joined -/

/-- Cutting what has been joined cuts every piece. -/
theorem splitOn_intercalate_eq_flatMap {pieces : List (List α)} (hne : pieces ≠ []) :
    ([sep].intercalate pieces).splitOn sep = pieces.flatMap (List.splitOn sep) := by
  induction pieces with
  | nil => exact absurd rfl hne
  | cons piece pieces ih =>
      cases pieces with
      | nil => simp
      | cons second rest =>
          rw [List.flatMap_cons, List.intercalate_cons_cons, List.append_assoc,
            List.singleton_append, List.splitOn_append_cons_self,
            ih (List.cons_ne_nil second rest)]

/-- There are at least as many pieces as have been joined, and if there are
not more they are the same. -/
theorem flatMap_splitOn_of_length (pieces : List (List α)) :
    pieces.length ≤ (pieces.flatMap (List.splitOn sep)).length ∧
      ((pieces.flatMap (List.splitOn sep)).length = pieces.length →
        pieces.flatMap (List.splitOn sep) = pieces) := by
  induction pieces with
  | nil => exact ⟨Nat.le_refl 0, fun _ => rfl⟩
  | cons piece pieces ih =>
      obtain ⟨hle, heq⟩ := ih
      have hpos : 0 < (piece.splitOn sep).length :=
        List.length_pos_iff.mpr (List.splitOn_ne_nil sep piece)
      rw [List.flatMap_cons, List.length_append, List.length_cons]
      refine ⟨by omega, fun hlength => ?_⟩
      have hone : (piece.splitOn sep).length = 1 := by omega
      obtain ⟨q, hq⟩ := List.length_eq_one_iff.mp hone
      have hpiece : [sep].intercalate (piece.splitOn sep) = piece := List.intercalate_splitOn sep
      rw [hq, List.intercalate_singleton] at hpiece
      rw [hq, hpiece, heq (by omega)]
      rfl

theorem splitOn_intercalate_of_length {pieces : List (List α)} (hne : pieces ≠ [])
    (h : (([sep].intercalate pieces).splitOn sep).length = pieces.length) :
    ([sep].intercalate pieces).splitOn sep = pieces := by
  rw [splitOn_intercalate_eq_flatMap hne] at h ⊢
  exact (flatMap_splitOn_of_length pieces).2 h

/-! ## The separator behind every piece -/

omit [BEq α] [LawfulBEq α] in
/-- With the separator behind every piece, instead of between two, there is one
more at the end. -/
theorem flatten_terminated (sep : α) {pieces : List (List α)} (hne : pieces ≠ []) :
    (pieces.map (· ++ [sep])).flatten = [sep].intercalate pieces ++ [sep] := by
  induction pieces with
  | nil => exact absurd rfl hne
  | cons piece pieces ih =>
      cases pieces with
      | nil => simp
      | cons second rest =>
          rw [List.map_cons, List.flatten_cons, ih (List.cons_ne_nil second rest),
            List.intercalate_cons_cons]
          simp only [List.append_assoc]

end Pieces
