/-
# `Lib.Effects` — calls that change a state and may fail half way

`Eff ε σ α` is the standard library's `ExceptT ε (StateM σ) α`: a computation
that changes a state and returns or throws.  What it had done to the state when
it threw stays done.

`run` gives the outcome and the state afterwards, with an equation for each
way to build a computation and a rule for each way the first of two may end.
`logged` writes down the arguments a function is called with.

`Moves R` says of a computation that, however it ends, the state afterwards is
in the relation `R` to the one before, and comes with a rule for each way to
build one; `R` is reflexive and transitive.
-/
import Mathlib.Order.Defs.Unbundled
import Mathlib.Tactic.Common

abbrev Eff (ε σ α : Type) := ExceptT ε (StateM σ) α

namespace Eff

variable {ε σ α β : Type}

def run (x : Eff ε σ α) (s : σ) : Except ε α × σ := StateT.run (ExceptT.run x) s

@[simp]
theorem run_pure (a : α) (s : σ) : run (pure a : Eff ε σ α) s = (.ok a, s) := rfl

@[simp]
theorem run_throw (e : ε) (s : σ) : run (throw e : Eff ε σ α) s = (.error e, s) := rfl

@[simp]
theorem run_get (s : σ) : run (get : Eff ε σ σ) s = (.ok s, s) := rfl

@[simp]
theorem run_modify (f : σ → σ) (s : σ) : run (modify f : Eff ε σ Unit) s = (.ok (), f s) := rfl

theorem run_bind (x : Eff ε σ α) (f : α → Eff ε σ β) (s : σ) :
    run (x >>= f) s =
      match run x s with
      | (.ok a, s') => run (f a) s'
      | (.error e, s') => (.error e, s') := by
  have hbind : run (x >>= f) s = StateT.run (ExceptT.bindCont f (run x s).1) (run x s).2 := rfl
  rw [hbind]
  rcases run x s with ⟨e | a, s'⟩
  · rfl
  · rfl

@[simp]
theorem run_tryCatch (x : Eff ε σ α) (handle : ε → Eff ε σ α) (s : σ) :
    run (tryCatch x handle) s =
      match run x s with
      | (.ok a, s') => (.ok a, s')
      | (.error e, s') => run (handle e) s' := by
  have hcatch : run (tryCatch x handle) s =
      StateT.run (match (run x s).1 with
        | .ok a => pure (.ok a)
        | .error e => ExceptT.run (handle e)) (run x s).2 := rfl
  rw [hcatch]
  rcases run x s with ⟨e | a, s'⟩
  · rfl
  · rfl

/-- The same calls, with their arguments written down. -/
def logged (f : α → Eff ε σ β) (a : α) : Eff ε (List α × σ) β :=
  ExceptT.mk fun st => ((run (f a) st.2).1, (st.1 ++ [a], (run (f a) st.2).2))

@[simp]
theorem run_logged (f : α → Eff ε σ β) (a : α) (log : List α) (s : σ) :
    run (logged f a) (log, s) = ((run (f a) s).1, (log ++ [a], (run (f a) s).2)) := rfl

/-- The first of two computations returns. -/
theorem run_bind_of_ok {x : Eff ε σ α} {s s' : σ} {a : α} (h : run x s = (.ok a, s'))
    (f : α → Eff ε σ β) : run (x >>= f) s = run (f a) s' := by
  rw [run_bind, h]

/-- The first of two computations throws. -/
theorem run_bind_of_error {x : Eff ε σ α} {s s' : σ} {e : ε} (h : run x s = (.error e, s'))
    (f : α → Eff ε σ β) : run (x >>= f) s = (.error e, s') := by
  rw [run_bind, h]

/-! ## What a computation may do to the state -/

def Moves (R : σ → σ → Prop) (x : Eff ε σ α) : Prop := ∀ s, R s (run x s).2

section Rules

variable {R : σ → σ → Prop}

theorem Moves.modify {f : σ → σ} (h : ∀ s, R s (f s)) :
    Moves R (modify f : Eff ε σ Unit) := h

section Reflexive

variable [Std.Refl R]

theorem Moves.pure (a : α) : Moves R (pure a : Eff ε σ α) := fun s => refl_of R s

theorem Moves.throw (e : ε) : Moves R (throw e : Eff ε σ α) := fun s => refl_of R s

theorem Moves.get : Moves R (get : Eff ε σ σ) := fun s => refl_of R s

end Reflexive

variable [IsTrans σ R]

theorem Moves.bind {x : Eff ε σ α} {f : α → Eff ε σ β} (hx : Moves R x) (hf : ∀ a, Moves R (f a)) :
    Moves R (x >>= f) := by
  intro s
  have hfirst := hx s
  rw [run_bind]
  rcases hrun : run x s with ⟨e | a, s'⟩
  · rw [hrun] at hfirst
    exact hfirst
  · rw [hrun] at hfirst
    exact trans_of R hfirst (hf a s')

theorem Moves.tryCatch {x : Eff ε σ α} {handle : ε → Eff ε σ α} (hx : Moves R x)
    (hhandle : ∀ e, Moves R (handle e)) : Moves R (tryCatch x handle) := by
  intro s
  have hfirst := hx s
  rw [run_tryCatch]
  rcases hrun : run x s with ⟨e | a, s'⟩
  · rw [hrun] at hfirst
    exact trans_of R hfirst (hhandle e s')
  · rw [hrun] at hfirst
    exact hfirst

end Rules

end Eff
