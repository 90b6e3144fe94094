/-
# `Lib.BoundedQueue` — a FIFO queue of fixed capacity

`push` answers whether there was room; a push that found none leaves the
queue as it was.  The capacity bound is a field of the structure, so no
overfull queue can be built.
-/
import Mathlib.Logic.Basic
import Mathlib.Tactic.Common

/-- A FIFO queue of at most `cap` elements, oldest first. -/
structure BoundedQueue (α : Type*) (cap : Nat) where
  items : List α
  fits : items.length ≤ cap

namespace BoundedQueue

variable {α : Type*} {cap : Nat}

@[ext]
theorem ext {q q' : BoundedQueue α cap} (h : q.items = q'.items) : q = q' := by
  cases q; cases q'; cases h; rfl

/-- The queue with nothing in it. -/
def empty : BoundedQueue α cap := ⟨[], Nat.zero_le cap⟩

/-- Add at the back, if there is room; the answer says whether there was. -/
def push (q : BoundedQueue α cap) (a : α) : BoundedQueue α cap × Bool :=
  if h : q.items.length < cap then
    (⟨q.items ++ [a], by simpa using Nat.succ_le_of_lt h⟩, true)
  else
    (q, false)

/-- Take from the front, if there is anything. -/
def pop (q : BoundedQueue α cap) : Option (α × BoundedQueue α cap) :=
  match q with
  | ⟨[], _⟩ => none
  | ⟨a :: as, h⟩ => some (a, ⟨as, Nat.le_of_succ_le h⟩)

theorem push_of_room {q : BoundedQueue α cap} (h : q.items.length < cap) (a : α) :
    (q.push a).1.items = q.items ++ [a] ∧ (q.push a).2 = true := by
  simp [push, h]

theorem push_of_full {q : BoundedQueue α cap} (h : ¬ q.items.length < cap) (a : α) :
    q.push a = (q, false) := by
  simp [push, h]

/-- A push that says so has found room. -/
theorem push_of_pushed {q : BoundedQueue α cap} {a : α} (h : (q.push a).2 = true) :
    (q.push a).1.items = q.items ++ [a] := by
  by_cases hroom : q.items.length < cap
  · exact (push_of_room hroom a).1
  · rw [push_of_full hroom] at h
    cases h

/-- A push adds the item, or nothing. -/
theorem push_items (q : BoundedQueue α cap) (a : α) :
    (q.push a).1.items = q.items ++ [a] ∨ (q.push a).1.items = q.items := by
  by_cases hroom : q.items.length < cap
  · exact .inl (push_of_room hroom a).1
  · rw [push_of_full hroom a]
    exact .inr rfl

theorem mem_of_mem_push {q : BoundedQueue α cap} {a b : α} (h : b ∈ (q.push a).1.items) :
    b ∈ q.items ∨ b = a := by
  rcases q.push_items a with hitems | hitems
  · rw [hitems, List.mem_append, List.mem_singleton] at h
    exact h
  · rw [hitems] at h
    exact .inl h

theorem pop_eq_none {q : BoundedQueue α cap} : q.pop = none ↔ q.items = [] := by
  obtain ⟨_ | ⟨a, as⟩, h⟩ := q <;> simp [pop]

theorem pop_eq_some {q q' : BoundedQueue α cap} {a : α} :
    q.pop = some (a, q') ↔ q.items = a :: q'.items := by
  obtain ⟨_ | ⟨b, bs⟩, h⟩ := q
  · simp [pop]
  · obtain ⟨items', h'⟩ := q'
    simp [pop]

end BoundedQueue
