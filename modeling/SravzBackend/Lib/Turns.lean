/-
# `Lib.Turns` — computations that take turns

A computation of `Lib.Effects` changes its state as if nothing else did.
`Turns ε σ α` is one that is cut at its calls: each `call` is one change of the
state, made at once, and between two of them the state may be changed by
others.  `Cuts` says which computation it is when nothing comes in between.

`Threads` are any number of such computations, started at any time, that take
turns in any order, with changes from outside between them.  The rule for them
is `run_keeps`: what each of them does, provided the others do no more than
`R` allows, is allowed by `R` as well; and so every run stays within `R`, and
each computation that has returned has what it promises.
-/
import Mathlib.Order.Defs.Unbundled
import SravzBackend.Lib.Effects
import SravzBackend.Lib.Runs

/-- `next` goes on from what the call finds, and `act` is what it leaves. -/
inductive Turns (ε σ α : Type) where
  | ret (r : Except ε α)
  | call (act : σ → σ) (next : σ → Turns ε σ α)

namespace Turns

variable {ε σ α β : Type}

def bind : Turns ε σ α → (α → Turns ε σ β) → Turns ε σ β
  | .ret (.ok a), f => f a
  | .ret (.error e), _ => .ret (.error e)
  | .call act next, f => .call act fun s => (next s).bind f

instance : Monad (Turns ε σ) where
  pure a := .ret (.ok a)
  bind := bind

def fail (e : ε) : Turns ε σ α := .ret (.error e)

/-- A call that only looks. -/
def look : Turns ε σ σ := .call id fun s => .ret (.ok s)

def change (f : σ → σ) : Turns ε σ Unit := .call f fun _ => .ret (.ok ())

/-! ## Without interruption -/

def run : Turns ε σ α → σ → Except ε α × σ
  | .ret r, s => (r, s)
  | .call act next, s => (next s).run (act s)

/-- `t` is the computation `x`, cut at its calls. -/
def Cuts (t : Turns ε σ α) (x : Eff ε σ α) : Prop := ∀ s, t.run s = Eff.run x s

theorem run_bind (t : Turns ε σ α) (f : α → Turns ε σ β) (s : σ) :
    (t >>= f).run s =
      match t.run s with
      | (.ok a, s') => (f a).run s'
      | (.error e, s') => (.error e, s') := by
  show (t.bind f).run s = _
  induction t generalizing s with
  | ret r =>
      cases r with
      | ok a => rfl
      | error e => rfl
  | call act next ih => exact ih s (act s)

namespace Cuts

theorem pure (a : α) : Cuts (pure a : Turns ε σ α) (pure a) := fun _ => rfl

theorem fail (e : ε) : Cuts (Turns.fail e : Turns ε σ α) (throw e) := fun _ => rfl

theorem look : Cuts (Turns.look : Turns ε σ σ) get := fun _ => rfl

theorem change (f : σ → σ) : Cuts (Turns.change f : Turns ε σ Unit) (modify f) := fun _ => rfl

theorem bind {t : Turns ε σ α} {x : Eff ε σ α} {f : α → Turns ε σ β} {g : α → Eff ε σ β}
    (ht : Cuts t x) (hf : ∀ a, Cuts (f a) (g a)) : Cuts (t >>= f) (x >>= g) := by
  intro s
  rw [run_bind, Eff.run_bind, ht s]
  rcases Eff.run x s with ⟨e | a, s'⟩
  · rfl
  · exact hf a s'

end Cuts

/-! ## What a computation keeps to -/

/-- As long as the others keep to `R`, so does `t`, and `Q` holds of what it
returns. -/
def Keeps (R : σ → σ → Prop) (Q : Except ε α → σ → Prop) : Turns ε σ α → σ → Prop
  | .ret r, s => ∀ s', R s s' → Q r s'
  | .call act next, s => ∀ s', R s s' → R s' (act s') ∧ Keeps R Q (next s') (act s')

section Rules

variable {R : σ → σ → Prop} {Q : Except ε α → σ → Prop} {Q' : Except ε β → σ → Prop} {s : σ}

theorem keeps_pure {a : α} (h : ∀ s', R s s' → Q (.ok a) s') :
    Keeps R Q (pure a : Turns ε σ α) s := h

theorem keeps_fail {e : ε} (h : ∀ s', R s s' → Q (.error e) s') :
    Keeps R Q (Turns.fail e : Turns ε σ α) s := h

/-- What has been returned is as it should be. -/
theorem Keeps.ret [Std.Refl R] {r : Except ε α} (h : Keeps R Q (.ret r) s) : Q r s :=
  h s (refl_of R s)

variable [IsTrans σ R]

/-- The others may go on. -/
theorem Keeps.mono {t : Turns ε σ α} (h : Keeps R Q t s) {s' : σ} (hs : R s s') :
    Keeps R Q t s' := by
  cases t with
  | ret r => exact fun s'' hs' => h s'' (trans_of R hs hs')
  | call act next => exact fun s'' hs' => h s'' (trans_of R hs hs')

variable [Std.Refl R]

omit [IsTrans σ R] in
theorem keeps_bind {t : Turns ε σ α} {f : α → Turns ε σ β} (h : Keeps R Q t s)
    (hok : ∀ a s', Q (.ok a) s' → Keeps R Q' (f a) s')
    (herror : ∀ e s', Q (.error e) s' → Q' (.error e) s') : Keeps R Q' (t >>= f) s := by
  show Keeps R Q' (t.bind f) s
  induction t generalizing s with
  | ret r =>
      cases r with
      | ok a => exact hok a s h.ret
      | error e => exact fun s' hs => herror e s' (h s' hs)
  | call act next ih =>
      intro s' hs
      obtain ⟨hact, hnext⟩ := h s' hs
      exact ⟨hact, ih s' hnext⟩

end Rules

/-! ## Threads -/

/-- The state, and each computation that has been started, under what it was
started with. -/
structure Threads (κ ε σ α : Type) where
  state : σ
  started : List (κ × Turns ε σ α)

inductive Action (κ η : Type) where
  | start (k : κ)
  | turn (i : Nat)
  | other (e : η)

variable {κ η : Type}

/-- A computation is started, one of them makes its next call, or the state is
changed from outside. -/
def step (prog : κ → Turns ε σ α) (outside : η → σ → σ) (x : Threads κ ε σ α) :
    Action κ η → Option (Threads κ ε σ α)
  | .start k => some { x with started := x.started ++ [(k, prog k)] }
  | .turn i =>
      match x.started[i]? with
      | some (k, .call act next) =>
          some ⟨act x.state, x.started.set i (k, next x.state)⟩
      | _ => none
  | .other e => some { x with state := outside e x.state }

theorem step_turn_eq_some {prog : κ → Turns ε σ α} {outside : η → σ → σ}
    {x y : Threads κ ε σ α} {i : Nat} (h : step prog outside x (.turn i) = some y) :
    ∃ k act next, x.started[i]? = some (k, .call act next) ∧
      y = ⟨act x.state, x.started.set i (k, next x.state)⟩ := by
  unfold step at h
  dsimp only at h
  split at h
  · next k act next hi =>
      cases h
      exact ⟨k, act, next, hi, rfl⟩
  · cases h

section Keeping

variable {R : σ → σ → Prop} [Std.Refl R] [IsTrans σ R] {Q : κ → Except ε α → σ → Prop}
  {prog : κ → Turns ε σ α} {outside : η → σ → σ}

/-- Every computation keeps to `R`. -/
def Threads.Keep (R : σ → σ → Prop) (Q : κ → Except ε α → σ → Prop) (x : Threads κ ε σ α) : Prop :=
  ∀ t ∈ x.started, Keeps R (Q t.1) t.2 x.state

theorem keep_step {x y : Threads κ ε σ α} {a : Action κ η} (hx : x.Keep R Q)
    (hprog : ∀ k, a = .start k → Keeps R (Q k) (prog k) x.state)
    (houtside : ∀ e s, R s (outside e s)) (h : step prog outside x a = some y) :
    R x.state y.state ∧ y.Keep R Q := by
  cases a with
  | start k =>
      cases h
      refine ⟨refl_of R x.state, ?_⟩
      intro t ht
      rcases List.mem_append.mp ht with ht | ht
      · exact hx t ht
      · cases List.mem_singleton.mp ht
        exact hprog k rfl
  | turn i =>
      obtain ⟨k, act, next, hi, rfl⟩ := step_turn_eq_some h
      have hthread := hx _ (List.mem_of_getElem? hi)
      obtain ⟨hact, hnext⟩ := hthread x.state (refl_of R x.state)
      refine ⟨hact, ?_⟩
      intro t ht
      rcases List.mem_or_eq_of_mem_set ht with ht | rfl
      · exact (hx t ht).mono hact
      · exact hnext
  | other e =>
      cases h
      have hout := houtside e x.state
      exact ⟨hout, fun t ht => (hx t ht).mono hout⟩

/-- **Where each computation keeps to `R` if the others do, they all keep to
it in every run, however they take turns.** -/
theorem run_keeps {x y : Threads κ ε σ α} {as : List (Action κ η)} (hx : x.Keep R Q)
    (hprog : ∀ k, .start k ∈ as → ∀ s, R x.state s → Keeps R (Q k) (prog k) s)
    (houtside : ∀ e s, R s (outside e s)) (hrun : Runs.run (step prog outside) x as = some y) :
    R x.state y.state ∧ y.Keep R Q := by
  refine Runs.run_inv (P := fun y => R x.state y.state ∧ y.Keep R Q) (G := (· ∈ as)) ?_
    ⟨refl_of R x.state, hx⟩ (fun _ ha => ha) hrun
  rintro y a z ⟨hreach, hy⟩ ha hstep
  have hone : R y.state z.state ∧ z.Keep R Q :=
    keep_step hy (fun k hk => hprog k (hk ▸ ha) y.state hreach) houtside hstep
  exact ⟨trans_of R hreach hone.1, hone.2⟩

end Keeping

/-- A computation that is left alone is done after as many turns as it has
calls to make. -/
theorem run_alone (prog : κ → Turns ε σ α) (outside : η → σ → σ) (k : κ) (t : Turns ε σ α)
    (s : σ) : ∃ as, (∀ a ∈ as, a = .turn 0) ∧
      Runs.run (step prog outside) ⟨s, [(k, t)]⟩ as =
        some ⟨(t.run s).2, [(k, .ret (t.run s).1)]⟩ := by
  induction t generalizing s with
  | ret r => exact ⟨[], nofun, rfl⟩
  | call act next ih =>
      obtain ⟨as, has, hrun⟩ := ih s (act s)
      refine ⟨.turn 0 :: as, ?_, ?_⟩
      · intro a ha
        rcases List.mem_cons.mp ha with rfl | ha
        · rfl
        · exact has a ha
      · exact (Runs.run_cons_of_step rfl as).trans hrun

end Turns
