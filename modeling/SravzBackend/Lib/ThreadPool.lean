/-
# `Lib.ThreadPool` — a queue of handlers and a number of threads

Handlers are posted to a queue, and each of `n` threads takes one after the
other from it and runs it to its end, until the pool is stopped.  Which of the
queued handlers a free thread takes is not fixed.  A handler may be `endless`:
the thread that has taken it is lost to the others.

Every step keeps `Sane`: the endless handlers that have been started each have a
thread.  So where they are as many as the threads, nothing is started any more
(`start_saturated`).
-/
import Mathlib.Data.List.Perm.Subperm
import SravzBackend.Lib.Runs

namespace ThreadPool

variable {η : Type*}

/-- `started` is the record of what has been taken; nothing reads it. -/
structure Pool (η : Type*) where
  queue : List η
  running : List η
  started : List η
  stopped : Bool

def Pool.empty : Pool η := ⟨[], [], [], false⟩

/-- `start i` is of the handler at `i` in the queue, `finish i` of the one at
`i` among those running. -/
inductive Action (η : Type*) where
  | post (h : η)
  | start (i : Nat)
  | finish (i : Nat)
  | stop

section Steps

variable (n : Nat) (endless : η → Bool)

def step (p : Pool η) : Action η → Option (Pool η)
  | .post h => some { p with queue := p.queue ++ [h] }
  | .start i =>
      if p.stopped = false ∧ p.running.length < n then
        match p.queue[i]? with
        | some h => some { p with
            queue := p.queue.eraseIdx i
            running := p.running ++ [h]
            started := p.started ++ [h] }
        | none => none
      else none
  | .finish i =>
      match p.running[i]? with
      | some h => if endless h then none else some { p with running := p.running.eraseIdx i }
      | none => none
  | .stop => some { p with stopped := true }

inductive Move (p : Pool η) : Action η → Pool η → Prop where
  | post (h) : Move p (.post h) { p with queue := p.queue ++ [h] }
  | start {i h} (hopen : p.stopped = false) (hroom : p.running.length < n)
      (hqueue : p.queue[i]? = some h) :
      Move p (.start i) { p with
        queue := p.queue.eraseIdx i
        running := p.running ++ [h]
        started := p.started ++ [h] }
  | finish {i h} (hrunning : p.running[i]? = some h) (hends : endless h = false) :
      Move p (.finish i) { p with running := p.running.eraseIdx i }
  | stop : Move p .stop { p with stopped := true }

variable {n endless}

theorem move_of_step {p p' : Pool η} {a : Action η} (h : step n endless p a = some p') :
    Move n endless p a p' := by
  cases a with
  | post h' =>
      cases h
      exact .post h'
  | start i =>
      rw [step, Option.ite_none_right_eq_some] at h
      obtain ⟨⟨hopen, hroom⟩, h⟩ := h
      cases hqueue : p.queue[i]? with
      | none => simp [hqueue] at h
      | some h' =>
          simp only [hqueue, Option.some.injEq] at h
          subst h
          exact .start hopen hroom hqueue
  | finish i =>
      cases hrunning : p.running[i]? with
      | none => simp [step, hrunning] at h
      | some h' =>
          simp only [step, hrunning, Option.ite_none_left_eq_some, Option.some.injEq] at h
          obtain ⟨hends, rfl⟩ := h
          exact .finish hrunning (Bool.eq_false_iff.mpr hends)
  | stop =>
      cases h
      exact .stop

theorem step_start {p : Pool η} {i : Nat} {h : η} (hopen : p.stopped = false)
    (hroom : p.running.length < n) (hqueue : p.queue[i]? = some h) :
    step n endless p (.start i) = some { p with
      queue := p.queue.eraseIdx i
      running := p.running ++ [h]
      started := p.started ++ [h] } := by
  rw [step, if_pos ⟨hopen, hroom⟩, hqueue]

end Steps

/-! ## The threads that are lost -/

/-- No more handlers run than there are threads, and the endless ones among
them are those that have been started. -/
structure Sane (n : Nat) (endless : η → Bool) (p : Pool η) : Prop where
  room : p.running.length ≤ n
  kept : p.running.countP endless = p.started.countP endless

variable {n : Nat} {endless : η → Bool}

theorem countP_eraseIdx {l : List η} {i : Nat} {h : η} (hi : l[i]? = some h)
    (hends : endless h = false) : (l.eraseIdx i).countP endless = l.countP endless := by
  obtain ⟨hlt, rfl⟩ := List.getElem?_eq_some_iff.mp hi
  have hperm := (List.getElem_cons_eraseIdx_perm hlt).countP_eq endless
  rwa [List.countP_cons_of_neg (by rw [hends]; exact Bool.false_ne_true)] at hperm

theorem Sane.step {p p' : Pool η} {a : Action η} (h : Sane n endless p)
    (hstep : ThreadPool.step n endless p a = some p') : Sane n endless p' := by
  cases move_of_step hstep with
  | post h' => exact ⟨h.room, h.kept⟩
  | start hopen hroom hqueue =>
      refine ⟨?_, ?_⟩
      · rw [List.length_append, List.length_singleton]
        exact hroom
      · rw [List.countP_append, List.countP_append, h.kept]
  | finish hrunning hends =>
      refine ⟨Nat.le_trans (List.length_eraseIdx_le ..) h.room, ?_⟩
      rw [countP_eraseIdx hrunning hends, h.kept]
  | stop => exact ⟨h.room, h.kept⟩

theorem sane_empty : Sane n endless (.empty : Pool η) := ⟨Nat.zero_le n, rfl⟩

/-- The endless handlers that have been started each have a thread. -/
theorem Sane.started_le {p : Pool η} (h : Sane n endless p) :
    p.started.countP endless ≤ p.running.length := by
  rw [← h.kept]
  exact List.countP_le_length

/-- An endless handler that has been started is running. -/
theorem Sane.running_ne_nil {p : Pool η} (h : Sane n endless p) {e : η} (he : e ∈ p.started)
    (hendless : endless e = true) : p.running ≠ [] := by
  intro hnil
  have hpos : 0 < p.started.countP endless := List.countP_pos_iff.mpr ⟨e, he, hendless⟩
  have hle := h.started_le
  rw [hnil, List.length_nil] at hle
  omega

theorem countP_of_subperm {es : List η} {p : Pool η} (hes : ∀ e ∈ es, endless e = true)
    (hstarted : es.Subperm p.started) : es.length ≤ p.started.countP endless := by
  rw [← List.countP_eq_length.mpr hes]
  exact hstarted.countP_le endless

/-- With every thread lost, nothing is started. -/
theorem Sane.start_saturated {p : Pool η} (h : Sane n endless p)
    (hfull : n ≤ p.started.countP endless) (i : Nat) :
    ThreadPool.step n endless p (.start i) = none := by
  cases hstep : ThreadPool.step n endless p (.start i) with
  | none => rfl
  | some p' =>
      cases move_of_step hstep with
      | start hopen hroom hqueue =>
          have hle := h.started_le
          omega

end ThreadPool
