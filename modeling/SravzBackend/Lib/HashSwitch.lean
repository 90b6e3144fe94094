/-
# `Lib.HashSwitch` — a `switch` over the hash of a value

A `switch` compares numbers.  To choose by a value of another kind a program
may hash it, and label the cases with the hashes of the values that are meant.
`select` is that; `exact_iff` says for which values each case is selected by its
own label alone: those that hash like no label but themselves.
-/
import Mathlib.Data.List.Nodup

namespace HashSwitch

variable {κ η α : Type*} [DecidableEq η] (hash : κ → η)

/-- The cases in order, each a label and what it chooses. -/
def select : List (κ × α) → κ → Option α
  | [], _ => none
  | (label, a) :: cases, k => if hash k = hash label then some a else select cases k

variable {hash} {cases : List (κ × α)} {k : κ}

theorem mem_of_select {a : α} (h : select hash cases k = some a) :
    ∃ c ∈ cases, hash k = hash c.1 ∧ c.2 = a := by
  induction cases with
  | nil => cases h
  | cons c cases ih =>
      rw [select] at h
      split at h
      · next hk =>
          cases h
          exact ⟨c, List.mem_cons_self, hk, rfl⟩
      · obtain ⟨c', hc', hrest⟩ := ih h
        exact ⟨c', List.mem_cons_of_mem c hc', hrest⟩

/-- The labels of a `switch` are distinct numbers, so the order of the cases
does not matter. -/
theorem select_of_mem (hlabels : (cases.map (hash ∘ Prod.fst)).Nodup) {c : κ × α}
    (hc : c ∈ cases) (hk : hash k = hash c.1) : select hash cases k = some c.2 := by
  induction cases with
  | nil => cases hc
  | cons first cases ih =>
      rw [List.map_cons, List.nodup_cons] at hlabels
      rw [select]
      rcases List.mem_cons.mp hc with rfl | hc
      · rw [if_pos hk]
      · have hne : hash k ≠ hash first.1 := by
          intro hfirst
          refine hlabels.1 (List.mem_map.mpr ⟨c, hc, ?_⟩)
          exact hk.symm.trans hfirst
        rw [if_neg hne]
        exact ih hlabels.2 hc

/-- **Each case is selected by its own label alone exactly where the value
hashes like no label but itself.** -/
theorem exact_iff (hlabels : (cases.map (hash ∘ Prod.fst)).Nodup)
    (hvalues : (cases.map Prod.snd).Nodup) :
    (∀ c ∈ cases, select hash cases k = some c.2 ↔ k = c.1) ↔
      ∀ c ∈ cases, hash k = hash c.1 → k = c.1 := by
  constructor
  · intro h c hc hk
    exact (h c hc).mp (select_of_mem hlabels hc hk)
  · intro h c hc
    constructor
    · intro hselect
      obtain ⟨c', hc', hk, heq⟩ := mem_of_select hselect
      cases List.inj_on_of_nodup_map hvalues hc' hc heq
      exact h c hc hk
    · rintro rfl
      exact select_of_mem hlabels hc rfl

omit [DecidableEq η] in
/-- A label hashes like no other. -/
theorem eq_of_label (hlabels : (cases.map (hash ∘ Prod.fst)).Nodup)
    (hk : k ∈ cases.map Prod.fst) : ∀ c ∈ cases, hash k = hash c.1 → k = c.1 := by
  intro c hc hhash
  obtain ⟨c', hc', rfl⟩ := List.mem_map.mp hk
  rw [List.inj_on_of_nodup_map hlabels hc' hc hhash]

end HashSwitch
